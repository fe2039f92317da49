import Krikos.Docs.Query
import Krikos.Docs.ReplicaRun

/-!
# Docs.Documents

The documents of a store (`store/fs.rs`): importing, opening, closing and removing them, their
useful peers and their download policies.

The data of a document is spread over six tables. An operation on one document leaves the rows of
every other document as they are (`sameDocument_apply`), and reads about a document depend on its
rows only (`Tables.SameDocument.agreesOn`). Removing a document deletes its rows from all tables
except that of the latest records, so the document reads as one that never existed exactly if that
table had no row of it (`removeReplica_forgets_iff`).
-/

namespace Krikos.Docs

open Lib RangeEntry RecordsBounds FsStore StoreInstance Table

/-! ## Download policies -/

inductive FilterKind where
  /-- Matches if the bytes are a prefix of the key. -/
  | keyPrefix (bytes : Bytes)
  /-- Matches if the bytes and the key are the same. -/
  | exact (bytes : Bytes)

inductive DownloadPolicy where
  /-- Do not download any key unless it matches one of the filters. -/
  | nothingExcept (filters : List FilterKind)
  /-- Download every key unless it matches one of the filters. -/
  | everythingExcept (filters : List FilterKind)

def DownloadPolicy.default : DownloadPolicy := .everythingExcept []

section

def filterKindEquiv : ((_ : Fin 2) × Bytes) ≃ FilterKind where
  toFun
    | ⟨0, bytes⟩ => .keyPrefix bytes
    | ⟨1, bytes⟩ => .exact bytes
  invFun
    | .keyPrefix bytes => ⟨0, bytes⟩
    | .exact bytes => ⟨1, bytes⟩
  left_inv
    | ⟨0, _⟩ => rfl
    | ⟨1, _⟩ => rfl
  right_inv f := by cases f <;> rfl

def downloadPolicyEquiv : ((_ : Fin 2) × List FilterKind) ≃ DownloadPolicy where
  toFun
    | ⟨0, filters⟩ => .nothingExcept filters
    | ⟨1, filters⟩ => .everythingExcept filters
  invFun
    | .nothingExcept filters => ⟨0, filters⟩
    | .everythingExcept filters => ⟨1, filters⟩
  left_inv
    | ⟨0, _⟩ => rfl
    | ⟨1, _⟩ => rfl
  right_inv p := by cases p <;> rfl

def filterKindWire : Wire FilterKind :=
  (Wire.tagged Wire.two_tags fun _ => Wire.bytes).iso filterKindEquiv

def filtersWire : Wire (List FilterKind) :=
  Wire.list filterKindWire fun f =>
    Wire.tagged_pos Wire.two_tags (fun _ => Wire.bytes) (filterKindEquiv.symm f)

def downloadPolicyFormat : Net.Postcard DownloadPolicy :=
  .ofWire ((Wire.tagged Wire.two_tags fun _ => filtersWire).iso downloadPolicyEquiv) fun policy =>
    Wire.tagged_pos Wire.two_tags (fun _ => filtersWire) (downloadPolicyEquiv.symm policy)

end

/-! ## Operations on documents -/

inductive ImportNamespaceOutcome where
  /-- The namespace did not exist before and is now inserted. -/
  | inserted
  /-- The namespace existed and now has an upgraded capability. -/
  | upgraded
  /-- The namespace existed and its capability remains unchanged. -/
  | noChange

/-- How many useful peers are kept for each document. -/
def peersPerDocCacheSize : Nat := 5

namespace FsStore
variable (crypto : Crypto)

def putCapability (s : FsStore) (capability : Capability) : FsStore :=
  { s with tables := { s.tables with
    namespaces := s.tables.namespaces.insert (capability.id crypto) capability.raw } }

def importNamespace (s : FsStore) (capability : Capability) :
    Except StoreError (FsStore × ImportNamespaceOutcome) :=
  match s.tables.namespaces.get (capability.id crypto) with
  | none => .ok (s.putCapability crypto capability, .inserted)
  | some raw =>
    match Capability.fromRaw raw.1 raw.2 with
    | .error e => .error e
    | .ok existing =>
      match existing.merge crypto capability with
      | .error e => .error e
      | .ok (existing, true) => .ok (s.putCapability crypto existing, .upgraded)
      | .ok (existing, false) => .ok (s.putCapability crypto existing, .noChange)

variable (s : FsStore) (ns : NamespaceId)

def capability : Except StoreError Capability :=
  match s.tables.namespaces.get ns with
  | none => .error .notFound
  | some raw => Capability.fromRaw raw.1 raw.2

def loadReplicaInfo (s : FsStore) (ns : NamespaceId) : Except StoreError (FsStore × ReplicaInfo) :=
  match s.capability ns with
  | .error e => .error e
  | .ok capability =>
    .ok ({ s with openReplicas := insert (capability.id crypto) s.openReplicas },
      ⟨capability, none, false⟩)

def closeReplica : FsStore :=
  { s with openReplicas := s.openReplicas.erase ns }

def removeReplica : Except StoreError FsStore :=
  if ns ∈ s.openReplicas then .error .replicaIsNotClosed
  else .ok { s with tables := { s.tables with
    records := s.tables.records.removeIf fun row => (ofNamespace ns).contains row.1
    recordsByKey :=
      s.tables.recordsByKey.removeIf fun row => (ByKeyBounds.ofNamespace ns).contains row.1
    namespaces := s.tables.namespaces.remove ns
    namespacePeers := s.tables.namespacePeers.removeIf fun row => (ofLex row.1).1 = ns
    downloadPolicy := s.tables.downloadPolicy.remove ns } }

def importAuthor (s : FsStore) (author : Author) : FsStore :=
  { s with tables := { s.tables with
    authors := s.tables.authors.insert (crypto.publicKey author) author } }

def deleteAuthor (s : FsStore) (author : AuthorId) : FsStore :=
  { s with tables := { s.tables with authors := s.tables.authors.remove author } }

/-- The useful peers of a namespace, the oldest one first. -/
def namespacePeers (s : FsStore) (ns : NamespaceId) : List (U64 × PeerIdBytes) :=
  (s.tables.namespacePeers.range fun k => (ofLex k).1 = ns).map fun row => ofLex (ofLex row.1).2

variable (nanos : U64) (peer : PeerIdBytes)

def insertPeer : FsStore :=
  { s with tables := { s.tables with
    namespacePeers := s.tables.namespacePeers.insert (toLex (ns, toLex (nanos, peer))) () } }

def removePeer : FsStore :=
  { s with tables := { s.tables with
    namespacePeers := s.tables.namespacePeers.remove (toLex (ns, toLex (nanos, peer))) } }

/-- Registers a peer that was useful at the time `nanos`. -/
def registerUsefulPeer (peer : PeerIdBytes) (nanos : U64) : Except StoreError FsStore :=
  match s.tables.namespaces.get ns with
  | none => .error .documentNotCreated
  | some _ =>
    match s.namespacePeers ns with
    | [] => .ok (s.insertPeer ns nanos peer)
    | (oldestNanos, oldestPeer) :: rest =>
      if oldestPeer = peer then
        .ok ((s.removePeer ns oldestNanos oldestPeer).insertPeer ns nanos peer)
      else
        match rest.find? fun p => p.2 = peer with
        -- the peer is there already, so that the number of peers stays
        | some (prevNanos, _) => .ok ((s.removePeer ns prevNanos peer).insertPeer ns nanos peer)
        | none =>
          let s := s.insertPeer ns nanos peer
          if 1 + rest.length + 1 > peersPerDocCacheSize then
            .ok (s.removePeer ns oldestNanos oldestPeer)
          else .ok s

/-- The useful peers of a namespace, the latest one first. -/
def getSyncPeers : Option (List PeerIdBytes) :=
  match (s.namespacePeers ns).reverse.map Prod.snd with
  | [] => none
  | peers => some peers

variable (postcard : Net.Postcard DownloadPolicy)

def setDownloadPolicy (s : FsStore) (ns : NamespaceId)
    (policy : DownloadPolicy) : Except StoreError FsStore :=
  match s.tables.namespaces.get ns with
  | none => .error .documentNotCreated
  | some _ => .ok { s with tables := { s.tables with
      downloadPolicy := s.tables.downloadPolicy.insert ns (postcard.toBytes policy) } }

def getDownloadPolicy (s : FsStore) (ns : NamespaceId) : Except StoreError DownloadPolicy :=
  match s.tables.downloadPolicy.get ns with
  | none => .ok .default
  | some value =>
    match postcard.fromBytes value with
    | none => .error .downloadPolicy
    | some policy => .ok policy

end FsStore

/-- The operations on a store. -/
inductive StoreOp where
  | importNamespace (capability : Capability)
  | loadReplicaInfo (ns : NamespaceId)
  | closeReplica (ns : NamespaceId)
  | removeReplica (ns : NamespaceId)
  | importAuthor (author : Author)
  | deleteAuthor (author : AuthorId)
  | registerUsefulPeer (ns : NamespaceId) (peer : PeerIdBytes) (nanos : U64)
  | setDownloadPolicy (ns : NamespaceId) (policy : DownloadPolicy)
  /-- an operation on an open replica -/
  | replica (info : ReplicaInfo) (op : ReplicaOp)

/-- The outside functions that the store uses. -/
structure Env where
  crypto : Crypto
  blake3 : Bytes → Bytes32
  postcard : Net.Postcard DownloadPolicy

namespace StoreOp

def document (env : Env) : StoreOp → Option NamespaceId
  | .importNamespace capability => some (capability.id env.crypto)
  | .loadReplicaInfo ns => some ns
  | .closeReplica ns => some ns
  | .removeReplica ns => some ns
  | .importAuthor _ => none
  | .deleteAuthor _ => none
  | .registerUsefulPeer ns _ _ => some ns
  | .setDownloadPolicy ns _ => some ns
  | .replica info _ => some (info.capability.id env.crypto)

def apply (env : Env) (s : FsStore) : StoreOp → FsStore
  | .importNamespace capability =>
    match s.importNamespace env.crypto capability with
    | .error _ => s
    | .ok (s, _) => s
  | .loadReplicaInfo ns =>
    match s.loadReplicaInfo env.crypto ns with
    | .error _ => s
    | .ok (s, _) => s
  | .closeReplica ns => s.closeReplica ns
  | .removeReplica ns =>
    match s.removeReplica ns with
    | .error _ => s
    | .ok s => s
  | .importAuthor author => s.importAuthor env.crypto author
  | .deleteAuthor author => s.deleteAuthor author
  | .registerUsefulPeer ns peer nanos =>
    match s.registerUsefulPeer ns peer nanos with
    | .error _ => s
    | .ok s => s
  | .setDownloadPolicy ns policy =>
    match s.setDownloadPolicy env.postcard ns policy with
    | .error _ => s
    | .ok s => s
  | .replica info op => left env.crypto env.blake3 info s op

end StoreOp

/-! ## The rows of a document -/

/-- The tables have the same rows of a document. -/
structure Tables.SameDocument (ns : NamespaceId) (t t' : Tables) : Prop where
  records : t.records.Agree (fun id => id.ns = ns) t'.records
  recordsByKey : t.recordsByKey.Agree (fun id => id.ns = ns) t'.recordsByKey
  namespaces : t.namespaces.Agree (fun k => k = ns) t'.namespaces
  latestPerAuthor : t.latestPerAuthor.Agree (fun k => (ofLex k).1 = ns) t'.latestPerAuthor
  namespacePeers : t.namespacePeers.Agree (fun k => (ofLex k).1 = ns) t'.namespacePeers
  downloadPolicy : t.downloadPolicy.Agree (fun k => k = ns) t'.downloadPolicy

namespace Tables.SameDocument
variable {ns : NamespaceId} {t t' t'' : Tables}

lemma refl (t : Tables) : SameDocument ns t t :=
  ⟨.refl _, .refl _, .refl _, .refl _, .refl _, .refl _⟩

lemma trans (h : SameDocument ns t t') (h' : SameDocument ns t' t'') : SameDocument ns t t'' :=
  ⟨h.records.trans h'.records, h.recordsByKey.trans h'.recordsByKey,
    h.namespaces.trans h'.namespaces, h.latestPerAuthor.trans h'.latestPerAuthor,
    h.namespacePeers.trans h'.namespacePeers, h.downloadPolicy.trans h'.downloadPolicy⟩

end Tables.SameDocument

section
variable {env : Env} {n ns : NamespaceId} {s s' s₀ : FsStore}
variable {capability : Capability}

lemma sameDocument_putCapability (hne : capability.id env.crypto ≠ n) :
    (s.putCapability env.crypto capability).tables.SameDocument n s.tables :=
  { Tables.SameDocument.refl s.tables with
    namespaces := (Agree.refl _).insert hne }

variable {peer : PeerIdBytes} {nanos : U64}

lemma sameDocument_insertPeer (hne : ns ≠ n) :
    (s.insertPeer ns nanos peer).tables.SameDocument n s.tables :=
  { Tables.SameDocument.refl s.tables with
    namespacePeers := (Agree.refl _).insert hne }

lemma sameDocument_removePeer (hne : ns ≠ n) :
    (s.removePeer ns nanos peer).tables.SameDocument n s.tables :=
  { Tables.SameDocument.refl s.tables with
    namespacePeers := (Agree.refl _).remove hne }

lemma merge_id {crypto : Crypto} {self other merged : Capability} {changed : Bool}
    (h : self.merge crypto other = .ok (merged, changed)) : merged.id crypto = other.id crypto := by
  revert h
  fun_cases Capability.merge crypto self other with
  | case1 => nofun
  | case2 => rintro ⟨⟩; rfl
  | case3 _ _ hid =>
    rintro ⟨⟩
    exact (not_not.mp hid).symm

lemma sameDocument_importNamespace {outcome : ImportNamespaceOutcome}
    (hne : capability.id env.crypto ≠ n)
    (h : s.importNamespace env.crypto capability = .ok (s', outcome)) :
    s'.tables.SameDocument n s.tables := by
  revert h
  fun_cases importNamespace env.crypto s capability with
  | case1 =>
    rintro ⟨⟩
    exact sameDocument_putCapability hne
  | case4 raw _ existing _ merged hmer | case5 raw _ existing _ merged hmer =>
    rintro ⟨⟩
    exact sameDocument_putCapability (by rw [merge_id hmer]; exact hne)
  | _ => nofun

section
variable (hne : ns ≠ n)
include hne

lemma sameDocument_registerUsefulPeer
    (h : s.registerUsefulPeer ns peer nanos = .ok s') : s'.tables.SameDocument n s.tables := by
  revert h
  fun_cases registerUsefulPeer s ns peer nanos with
  | case1 => nofun
  | case2 | case6 =>
    intro h
    rw [← Except.ok.inj h]
    exact sameDocument_insertPeer hne
  | case3 | case4 =>
    rintro ⟨⟩
    exact (sameDocument_insertPeer hne).trans (sameDocument_removePeer hne)
  | case5 =>
    rintro ⟨⟩
    exact (sameDocument_removePeer hne).trans (sameDocument_insertPeer hne)

lemma sameDocument_removeReplica (h : s.removeReplica ns = .ok s') :
    s'.tables.SameDocument n s.tables := by
  unfold FsStore.removeReplica at h
  split at h
  · cases h
  · cases h
    refine ⟨?_, ?_, ?_, .refl _, ?_, ?_⟩
    · apply (Agree.refl _).removeIf
      intro row hrow heq
      exact hne ((contains_ofNamespace.mp hrow).symm.trans heq)
    · apply (Agree.refl _).removeIf
      intro row hrow heq
      exact hne ((ByKeyBounds.contains_ofNamespace.mp hrow).symm.trans heq)
    · exact (Agree.refl _).remove hne
    · apply (Agree.refl _).removeIf
      intro row hrow heq
      exact hne ((of_decide_eq_true hrow).symm.trans heq)
    · exact (Agree.refl _).remove hne

lemma sameDocument_inserted {d : DocEntry} : (d.inserted ns s).tables.SameDocument n s.tables := by
  refine { Tables.SameDocument.refl s.tables with
    records := ?_
    recordsByKey := (Agree.refl _).insert hne
    latestPerAuthor := (Agree.refl _).insert hne }
  refine Agree.insert ?_ hne
  apply (Agree.refl _).removeIf
  intro row hrow heq
  rw [DocEntry.deletes, Bool.and_eq_true, contains_authorPrefix] at hrow
  exact hne (hrow.1.1.symm.trans heq)

lemma sameDocument_put {d : DocEntry} {outcome : InsertOutcome}
    (h : (storeInstance env.blake3 ns).put s (d.signed ns) = .ok (s', outcome)) :
    s'.tables.SameDocument n s.tables := by
  by_cases hb : ∃ x ∈ stampsOf ns s, x.blocks d.stamp
  · rw [put_of_blocked hb] at h
    cases h
    exact .refl _
  · rw [put_of_free hb] at h
    cases h
    exact sameDocument_inserted hne

end

lemma sameDocument_left {info : ReplicaInfo} {op : ReplicaOp}
    (hne : info.capability.id env.crypto ≠ n) :
    (left env.crypto env.blake3 info s op).tables.SameDocument n s.tables :=
  left_rule (P := fun s₁ => s₁.tables.SameDocument n s.tables) rfl
    (fun _ _ _ _ _ hs h => (sameDocument_put hne h).trans hs) (.refl _)

/-- An operation leaves the documents that it is not about. -/
lemma sameDocument_apply {op : StoreOp} (hne : op.document env ≠ some n) :
    (op.apply env s).tables.SameDocument n s.tables := by
  cases op with
  | importNamespace capability =>
    simp only [StoreOp.apply]
    split
    · exact .refl _
    · rename_i h
      exact sameDocument_importNamespace (fun heq => hne (congrArg some heq)) h
  | loadReplicaInfo ns =>
    simp only [StoreOp.apply, loadReplicaInfo]
    split
    · exact .refl _
    · rename_i h
      split at h
      · cases h
      · cases h
        exact .refl _
  | closeReplica ns => exact .refl _
  | removeReplica ns =>
    simp only [StoreOp.apply]
    split
    · exact .refl _
    · rename_i h
      exact sameDocument_removeReplica (fun heq => hne (congrArg some heq)) h
  | importAuthor author | deleteAuthor author => exact { Tables.SameDocument.refl s.tables with }
  | registerUsefulPeer ns peer nanos =>
    simp only [StoreOp.apply]
    split
    · exact .refl _
    · rename_i h
      exact sameDocument_registerUsefulPeer (fun heq => hne (congrArg some heq)) h
  | setDownloadPolicy ns policy =>
    simp only [StoreOp.apply, setDownloadPolicy]
    split
    · exact .refl _
    · rename_i h
      split at h
      · cases h
      · cases h
        exact { Tables.SameDocument.refl s.tables with
          downloadPolicy := (Agree.refl _).insert fun heq => hne (congrArg some heq) }
  | replica info op => exact sameDocument_left fun heq => hne (congrArg some heq)

end

/-! ## Reads about a document -/

/-- All reads about a document have the same answers. -/
structure AgreesOn (env : Env) (ns : NamespaceId) (s s' : FsStore) : Prop where
  getExact : ∀ author key includeEmpty, getExact s.tables.records ns author key includeEmpty =
    getExact s'.tables.records ns author key includeEmpty
  getMany : ∀ query, s.getMany ns query = s'.getMany ns query
  getFirst : (storeInstance env.blake3 ns).getFirst s = (storeInstance env.blake3 ns).getFirst s'
  getRange : ∀ range, (storeInstance env.blake3 ns).getRange s range =
    (storeInstance env.blake3 ns).getRange s' range
  getFingerprint : ∀ range, (storeInstance env.blake3 ns).getFingerprint s range =
    (storeInstance env.blake3 ns).getFingerprint s' range
  getLatestForEachAuthor : s.getLatestForEachAuthor ns = s'.getLatestForEachAuthor ns
  hasNewsForUs : ∀ heads, s.hasNewsForUs ns heads = s'.hasNewsForUs ns heads
  getSyncPeers : s.getSyncPeers ns = s'.getSyncPeers ns
  getDownloadPolicy : s.getDownloadPolicy env.postcard ns = s'.getDownloadPolicy env.postcard ns
  capability : s.capability ns = s'.capability ns

section
variable {env : Env} {ns : NamespaceId} {s s' : FsStore}

section
variable (h : s.tables.SameDocument ns s'.tables)
include h

lemma recordsRange_eq {bounds : RecordsBounds} (hb : ∀ id, bounds.contains id = true → id.ns = ns) :
    recordsRange s.tables.records bounds = recordsRange s'.tables.records bounds := by
  rw [recordsRange, recordsRange, h.records.range_eq hb]

lemma getRange_eq {ε : Type} (range : Range RecordIdentifier) :
    getRange (ε := ε) ns s range = getRange ns s' range := by
  have hclam : ∀ bounds : RecordsBounds,
      recordsRange s.tables.records (bounds.clampToNamespace ns) =
        recordsRange s'.tables.records (bounds.clampToNamespace ns) := fun bounds =>
    recordsRange_eq h fun _ hid => (contains_clampToNamespace.mp hid).2
  unfold getRange rangeBounds
  have hall : recordsRange s.tables.records (ofNamespace ns) =
      recordsRange s'.tables.records (ofNamespace ns) :=
    recordsRange_eq h fun _ hid => contains_ofNamespace.mp hid
  cases compare range.x range.y <;>
    simp only [bind_assoc, pure_bind, List.flatMap_cons, List.flatMap_nil, hall, hclam]

lemma queryIterator_eq (query : Query) :
    QueryIterator.new s.tables ns query = QueryIterator.new s'.tables ns query := by
  have hjoin : ∀ range : KeyFilter,
      (s.tables.recordsByKey.range (ByKeyBounds.new ns range).contains).map
          (fun row => (row.1, s.tables.records.get ⟨row.1.ns, row.1.author, row.1.key⟩)) =
        (s'.tables.recordsByKey.range (ByKeyBounds.new ns range).contains).map
          (fun row => (row.1, s'.tables.records.get ⟨row.1.ns, row.1.author, row.1.key⟩)) := by
    intro range
    rw [h.recordsByKey.range_eq fun _ hid => ByKeyBounds.contains_new_ns hid]
    apply List.map_congr_left
    intro row hrow
    rw [h.records.get_eq (ByKeyBounds.contains_new_ns (mem_range.mp hrow).2)]
  have haut : ∀ author keyFilter,
      s.tables.records.range (authorKey ns author keyFilter).contains =
        s'.tables.records.range (authorKey ns author keyFilter).contains :=
    fun _ _ => h.records.range_eq fun _ hid => contains_authorKey_ns hid
  have hall : s.tables.records.range (ofNamespace ns).contains =
      s'.tables.records.range (ofNamespace ns).contains :=
    h.records.range_eq fun _ hid => contains_ofNamespace.mp hid
  simp only [QueryIterator.new, hjoin, haut, hall]

lemma getLatestForEachAuthor_eq : s.getLatestForEachAuthor ns = s'.getLatestForEachAuthor ns := by
  unfold getLatestForEachAuthor
  rw [h.latestPerAuthor.range_eq fun _ hk => contains_latestBounds.mp hk]

lemma Tables.SameDocument.agreesOn : AgreesOn env ns s s' where
  getExact author key includeEmpty := by
    unfold Docs.getExact
    rw [h.records.get_eq rfl]
  getMany query := by
    rw [getMany, queryIterator_eq h, getMany]
  getFirst := by
    show getFirst ns s = getFirst ns s'
    unfold getFirst
    rw [h.records.range_eq fun _ hid => contains_ofNamespace.mp hid]
  getRange range := getRange_eq h range
  getFingerprint range := by
    show getFingerprint env.blake3 ns s range =
      getFingerprint env.blake3 ns s' range
    unfold getFingerprint
    rw [getRange_eq h]
  getLatestForEachAuthor := getLatestForEachAuthor_eq h
  hasNewsForUs heads := by
    unfold hasNewsForUs ourHeads
    rw [getLatestForEachAuthor_eq h]
  getSyncPeers := by
    unfold FsStore.getSyncPeers FsStore.namespacePeers
    rw [h.namespacePeers.range_eq fun _ hk => of_decide_eq_true hk]
  getDownloadPolicy := by
    unfold getDownloadPolicy
    rw [h.downloadPolicy.get_eq rfl]
  capability := by
    unfold capability
    rw [h.namespaces.get_eq rfl]

end
end

/-! ## Removal -/

/-- The stores reached by operations that are not about a document. -/
inductive Later (env : Env) (ns : NamespaceId) : FsStore → FsStore → Prop where
  | refl {s : FsStore} : Later env ns s s
  | step {s s' : FsStore} {op : StoreOp} (h : Later env ns s s')
      (hop : op.document env ≠ some ns) : Later env ns s (op.apply env s')

section
variable {env : Env} {ns : NamespaceId} {s s' : FsStore}

lemma Later.sameDocument (h : Later env ns s s') : s'.tables.SameDocument ns s.tables := by
  induction h with
  | refl => exact .refl _
  | step _ hop ih => exact (sameDocument_apply hop).trans ih

/-- No author of the document has a row in the table of latest records. -/
def NoLatest (ns : NamespaceId) (s : FsStore) : Prop :=
  ∀ row ∈ s.tables.latestPerAuthor.rows, (ofLex row.1).1 ≠ ns

lemma removeReplica_latestPerAuthor (h : s.removeReplica ns = .ok s') :
    s'.tables.latestPerAuthor = s.tables.latestPerAuthor := by
  unfold removeReplica at h
  split at h
  · cases h
  · cases h
    rfl

lemma sameDocument_removed (h : s.removeReplica ns = .ok s') (hlatest : NoLatest ns s) :
    s'.tables.SameDocument ns new.tables := by
  unfold removeReplica at h
  split at h
  · cases h
  · cases h
    refine ⟨?_, ?_, ?_, ?_, ?_, ?_⟩
    · intro id v hid
      refine iff_of_false ?_ List.not_mem_nil
      rw [mem_removeIf, contains_ofNamespace.mpr hid]
      simp
    · intro id v hid
      refine iff_of_false ?_ List.not_mem_nil
      rw [mem_removeIf, ByKeyBounds.contains_ofNamespace.mpr hid]
      simp
    · intro k v hk
      refine iff_of_false ?_ List.not_mem_nil
      simp [remove, hk]
    · intro k v hk
      exact iff_of_false (fun hrow => hlatest _ hrow hk) List.not_mem_nil
    · intro k v hk
      refine iff_of_false ?_ List.not_mem_nil
      simp [hk]
    · intro k v hk
      refine iff_of_false ?_ List.not_mem_nil
      simp [remove, hk]

lemma noLatest_of_getLatestForEachAuthor (h : s.getLatestForEachAuthor ns = []) :
    NoLatest ns s := by
  intro row hrow hns
  have hran : row ∈ s.tables.latestPerAuthor.range (latestBounds ns).contains :=
    mem_range.mpr ⟨hrow, contains_latestBounds.mpr hns⟩
  rw [getLatestForEachAuthor, List.map_eq_nil_iff] at h
  rw [h] at hran
  cases hran

end

/-- After a document has been removed, reads about it answer as for one that never
existed, and reads about the other documents as before, exactly if the table of latest records had
no row of it. -/
theorem removeReplica_forgets_iff (env : Env) (ns : NamespaceId) (s s' s'' : FsStore)
    (hremove : s.removeReplica ns = .ok s') (hlater : Later env ns s' s'') :
    (AgreesOn env ns s'' .new ∧ ∀ m, m ≠ ns → AgreesOn env m s' s) ↔ NoLatest ns s := by
  constructor
  · rintro ⟨hnew, -⟩
    have hlatest : s'.getLatestForEachAuthor ns = [] :=
      (getLatestForEachAuthor_eq hlater.sameDocument).symm.trans hnew.getLatestForEachAuthor
    have h := noLatest_of_getLatestForEachAuthor hlatest
    rwa [NoLatest, removeReplica_latestPerAuthor hremove] at h
  · intro hlatest
    exact ⟨(hlater.sameDocument.trans (sameDocument_removed hremove hlatest)).agreesOn,
      fun m hm => (sameDocument_removeReplica hm.symm hremove).agreesOn⟩

def plainEnv : Env := ⟨.plain, fun _ => .zero 32, downloadPolicyFormat⟩

def StoreOp.applyAll (env : Env) (ops : List StoreOp) (s : FsStore) : FsStore :=
  ops.foldl (StoreOp.apply env) s

/-- A document with a useful peer and a download policy, but without entries. -/
def emptyDocument : FsStore :=
  StoreOp.applyAll plainEnv [.importNamespace (.write (.zero 32)), .loadReplicaInfo (.zero 32),
    .registerUsefulPeer (.zero 32) (.max 32) 1,
    .setDownloadPolicy (.zero 32) (.nothingExcept [.exact [1]]), .closeReplica (.zero 32)] .new

/-- The document without entries is removed, and another one is imported. -/
theorem removeReplica_forgets_empty : ∃ s', emptyDocument.removeReplica (.zero 32) = .ok s' ∧
    AgreesOn plainEnv (.zero 32) (StoreOp.apply plainEnv s' (.importNamespace (.read (.max 32))))
      .new := by
  refine ⟨_, rfl, ?_⟩
  refine ((removeReplica_forgets_iff plainEnv (.zero 32) emptyDocument _ _ rfl
    (.step .refl (by decide))).mpr ?_).1
  intro row hrow
  cases hrow

def writtenDocument : FsStore :=
  StoreOp.applyAll plainEnv [.importNamespace (.write (.zero 32)), .loadReplicaInfo (.zero 32),
    .replica ⟨.write (.zero 32), none, false⟩ (.insert [1] (.zero 32) (.zero 32) 5 7),
    .closeReplica (.zero 32)] .new

/-- After the document has been removed, its author is still listed with the latest record, and a
peer with that record has no news. -/
theorem removeReplica_keeps_latest : ∃ s', writtenDocument.removeReplica (.zero 32) = .ok s' ∧
    s'.getLatestForEachAuthor (.zero 32) = [(.zero 32, 7, [1])] ∧
    new.getLatestForEachAuthor (.zero 32) = [] ∧
    s'.hasNewsForUs (.zero 32) (AuthorHeads.empty.insert (.zero 32) 7) = none ∧
    new.hasNewsForUs (.zero 32) (AuthorHeads.empty.insert (.zero 32) 7) = some 1 :=
  ⟨_, rfl, by decide +kernel⟩

/-- Operations that are not about a document leave the answers of all reads about it as they are. -/
theorem applyAll_agreesOn (env : Env) (ns : NamespaceId) (ops : List StoreOp) (s : FsStore) :
    AgreesOn env ns
      (StoreOp.applyAll env (ops.filter fun op => op.document env ≠ some ns) s) s := by
  refine (Later.sameDocument (List.foldlRecOn (motive := Later env ns s) _ _ .refl ?_)).agreesOn
  exact fun _ hs op hop => .step hs (of_decide_eq_true (List.mem_filter.mp hop).2)

end Krikos.Docs
