import Krikos.Docs.Receive

/-!
# Docs.ReplicaRun

Runs of operations on a replica: local inserts and deletions, inserts of single remote entries, and
sync messages from peers.

`left` is the store that an operation leaves behind, also if it ends with an error or a panic in
the middle of a message. All records of a replica keep an empty hash exactly at length zero along
runs in which the sync messages carry no valid entry that breaks this (`reaches_emptyRecords`); the
check is not made for sync messages (`reaches_empty_hash_with_content`).
-/

namespace Krikos.Docs

open Lib RangeEntry

/-! ## What a message leaves behind -/

namespace Store
variable {S E K V F ε : Type} [RangeEntry E K V] [LinearOrder K] [LE V] [DecidableLE V]

def itemsLeft (ops : Store S E K V F ε) (validateCb : S → E → ContentStatus → Except (Fault ε) Bool)
    (contentStatusCb : E → ContentStatus) : S → List (RangeItem E K) → S
  | s, [] => s
  | s, item :: rest =>
    match (if item.haveLocal then .ok [] else diff ops contentStatusCb s item) with
    | .error _ => s
    | .ok _ =>
      match storeValues ops validateCb s item.values with
      | .error _ => valuesLeft ops validateCb s item.values
      | .ok (s, _) => itemsLeft ops validateCb contentStatusCb s rest

end Store

/-! ## Operations -/

inductive ReplicaOp where
  | insert (key : Bytes) (author : Author) (hash : Hash) (len now : U64)
  | deletePrefix (key : Bytes) (author : Author) (now : U64)
  | insertRemoteEntry (entry : SignedEntry) (receivedFrom : PeerIdBytes)
      (contentStatus : ContentStatus) (now : U64)
  | syncProcessMessage (message : ProtocolMessage) (fromPeer : PeerIdBytes) (now : U64)

/-- The store that an operation leaves behind. A failed insert has not written anything. -/
def left (crypto : Crypto) (blake3 : Bytes → Bytes32) (info : ReplicaInfo) (s : FsStore) :
    ReplicaOp → FsStore
  | .insert key author hash len now =>
    match Replica.insert crypto blake3 info s key author hash len now with
    | .error _ => s
    | .ok (s, _) => s
  | .deletePrefix key author now =>
    match Replica.deletePrefix crypto blake3 info s key author now with
    | .error _ => s
    | .ok (s, _) => s
  | .insertRemoteEntry entry receivedFrom contentStatus now =>
    match Replica.insertRemoteEntry crypto blake3 info s entry receivedFrom contentStatus now with
    | .error _ => s
    | .ok (s, _) => s
  | .syncProcessMessage message fromPeer now =>
    if info.closed then s
    else
      let ns := info.capability.id crypto
      match Replica.receiveHeads (ε := InsertError) .empty message.values with
      | .error _ => s
      | .ok _ =>
        Store.itemsLeft (storeInstance blake3 ns) (Replica.validateCb crypto ns fromPeer now)
          (Replica.contentStatus info) s (message.parts.filterMap MessagePart.item?)

/-- The stores reached by operations on a namespace that meet a condition. -/
inductive Reaches (crypto : Crypto) (blake3 : Bytes → Bytes32) (ns : NamespaceId)
    (cond : ReplicaOp → Prop) (s : FsStore) : FsStore → Prop
  | refl : Reaches crypto blake3 ns cond s s
  | step {s₁ : FsStore} {info : ReplicaInfo} {op : ReplicaOp} :
      Reaches crypto blake3 ns cond s s₁ → info.capability.id crypto = ns → cond op →
        Reaches crypto blake3 ns cond s (left crypto blake3 info s₁ op)

/-! ## What an operation can put -/

def ReplicaOp.Puts (crypto : Crypto) (ns : NamespaceId) (d : DocEntry) : ReplicaOp → Prop
  | .insert _ _ _ _ _ => d.record.hash ≠ Hash.empty ∧ d.record.len ≠ 0
  | .deletePrefix _ _ _ => d.record.hash = Hash.empty ∧ d.record.len = 0
  | .insertRemoteEntry entry _ _ _ => entry = d.signed ns ∧ entry.entry.validateEmpty = true
  | .syncProcessMessage message fromPeer now => ∃ v ∈ message.values, v.1 = d.signed ns ∧
      validateEntry (ε := StoreError) crypto now ns v.1 (.sync fromPeer v.2) = .ok (.ok ())

section
variable {crypto : Crypto} {blake3 : Bytes → Bytes32} {ns : NamespaceId} {info : ReplicaInfo}
  {s s' : FsStore} {cs : SignedEntry → ContentStatus} {fromPeer : PeerIdBytes} {now : U64}
  {P : FsStore → Prop}

lemma exists_signed_of_valid {ε : Type} {e : SignedEntry} {status : ContentStatus}
    (h : validateEntry crypto now ns e (.sync fromPeer status) =
      (.ok (.ok ()) : Except (Fault ε) (Except ValidationFailure Unit))) :
    ∃ d : DocEntry, e = d.signed ns := by
  by_cases hwf : e.entry.id.WellFormed
  · obtain ⟨ns', d, rfl⟩ := DocEntry.exists_signed hwf
    obtain rfl := validateEntry_ok h
    exact ⟨d, rfl⟩
  · simp only [validateEntry, SignedEntry.verify,
      RecordIdentifier.author_of_not_wellFormed hwf] at h
    split at h
    · cases h
    · split at h
      · cases h
      · simp at h

def KeptByPut (blake3 : Bytes → Bytes32) (ns : NamespaceId) (P : FsStore → Prop) (d : DocEntry) :
    Prop :=
  ∀ s s' outcome, P s → (storeInstance blake3 ns).put s (d.signed ns) = .ok (s', outcome) → P s'

lemma valuesLeft_rule {values : List (SignedEntry × ContentStatus)}
    (hput : ∀ v ∈ values, ∀ d : DocEntry, v.1 = d.signed ns →
      validateEntry (ε := StoreError) crypto now ns v.1 (.sync fromPeer v.2) = .ok (.ok ()) →
      KeptByPut blake3 ns P d) (hs : P s) :
    P (Store.valuesLeft (storeInstance blake3 ns) (Replica.validateCb crypto ns fromPeer now) s
      values) := by
  induction values generalizing s with
  | nil => exact hs
  | cons v values ih =>
    obtain ⟨hhead, htail⟩ := List.forall_mem_cons.mp hput
    obtain ⟨e, status⟩ := v
    simp only [Store.valuesLeft]
    split
    · exact hs
    · exact ih htail hs
    · rename_i hvalid
      have hok : validateEntry (ε := StoreError) crypto now ns e (.sync fromPeer status) =
          .ok (.ok ()) := by
        simp only [Replica.validateCb] at hvalid
        split at hvalid
        · cases hvalid
        · assumption
        · cases hvalid
      obtain ⟨d, rfl⟩ := exists_signed_of_valid hok
      split
      · exact hs
      · rename_i s₁ outcome hrun
        exact ih htail (hhead d rfl hok s s₁ outcome hs hrun)

lemma itemsLeft_rule {items : List (RangeItem SignedEntry RecordIdentifier)}
    (hput : ∀ item ∈ items, ∀ v ∈ item.values, ∀ d : DocEntry, v.1 = d.signed ns →
      validateEntry (ε := StoreError) crypto now ns v.1 (.sync fromPeer v.2) = .ok (.ok ()) →
      KeptByPut blake3 ns P d) (hs : P s) :
    P (Store.itemsLeft (storeInstance blake3 ns) (Replica.validateCb crypto ns fromPeer now) cs s
      items) := by
  induction items generalizing s with
  | nil => exact hs
  | cons item items ih =>
    obtain ⟨hhead, htail⟩ := List.forall_mem_cons.mp hput
    have hval := valuesLeft_rule hhead hs
    simp only [Store.itemsLeft]
    split
    · exact hs
    · split
      · exact hval
      · rename_i s₁ log hstor
        rw [Store.valuesLeft_of_ok hstor] at hval
        exact ih htail hval

lemma insertEntry_rule {d : DocEntry} {origin : InsertOrigin} {n : Nat}
    (hns : info.capability.id crypto = ns) (hput : KeptByPut blake3 ns P d) (hs : P s)
    (h : Replica.insertEntry crypto blake3 info s (d.signed ns) origin now = .ok (s', n)) :
    P s' := by
  subst hns
  revert h
  fun_cases Replica.insertEntry crypto blake3 info s (d.signed _) origin now with
  | case5 _ _ _ removed hrun =>
    rintro ⟨⟩
    exact hput s _ _ hs hrun
  | _ => nofun

lemma left_rule {op : ReplicaOp} (hns : info.capability.id crypto = ns)
    (hput : ∀ d, op.Puts crypto ns d → KeptByPut blake3 ns P d) (hs : P s) :
    P (left crypto blake3 info s op) := by
  cases op with
  | insert key author hash len now =>
    simp only [left]
    split
    · exact hs
    · rename_i s₁ n h
      revert h
      fun_cases Replica.insert crypto blake3 info s key author hash len now with
      | case4 hcon _ _ _ secret hsec =>
        rw [not_or] at hcon
        subst hns
        exact insertEntry_rule (d := ⟨crypto.publicKey author, key, ⟨len, hash, now⟩, _⟩) rfl
          (hput _ ⟨hcon.2, hcon.1⟩) hs
      | _ => rintro ⟨⟩
  | deletePrefix key author now =>
    simp only [left]
    split
    · exact hs
    · rename_i s₁ n h
      revert h
      fun_cases Replica.deletePrefix crypto blake3 info s key author now with
      | case3 _ _ _ secret hsec =>
        subst hns
        exact insertEntry_rule (d := ⟨crypto.publicKey author, key, ⟨0, Hash.empty, now⟩, _⟩) rfl
          (hput _ ⟨rfl, rfl⟩) hs
      | _ => rintro ⟨⟩
  | insertRemoteEntry entry receivedFrom contentStatus now =>
    simp only [left]
    split
    · exact hs
    · rename_i s₁ n h
      revert h
      fun_cases Replica.insertRemoteEntry crypto blake3 info s entry receivedFrom contentStatus now with
      | case2 _ hemp =>
        intro h
        have hsig : ∃ d : DocEntry, entry = d.signed ns := by
          simp only [Replica.insertEntry, hns] at h
          split at h
          · cases h
          · cases h
          · rename_i hvalid
            exact exists_signed_of_valid hvalid
        obtain ⟨d, rfl⟩ := hsig
        exact insertEntry_rule hns (hput d ⟨rfl, hemp⟩) hs h
      | _ => rintro ⟨⟩
  | syncProcessMessage message fromPeer now =>
    simp only [left, hns]
    split
    · exact hs
    · split
      · exact hs
      · exact itemsLeft_rule (fun item hitem v hv d hd hok =>
          hput d ⟨v, mem_values hitem hv, hd, hok⟩) hs

end

/-! ## Empty records -/

/-- Every record has the empty hash exactly if its length is zero. -/
def EmptyRecords (ns : NamespaceId) (s : FsStore) : Prop :=
  ∀ d ∈ docEntries ns s, d.record.hash = Hash.empty ↔ d.record.len = 0

/-- The valid entries of a sync message would pass `validate_empty`. -/
def ReplicaOp.ChecksEmpty (crypto : Crypto) (ns : NamespaceId) : ReplicaOp → Prop
  | .syncProcessMessage message fromPeer now => ∀ v ∈ message.values,
      validateEntry (ε := StoreError) crypto now ns v.1 (.sync fromPeer v.2) = .ok (.ok ()) →
        v.1.entry.validateEmpty = true
  | _ => True

section
variable {crypto : Crypto} {blake3 : Bytes → Bytes32} {ns : NamespaceId} {info : ReplicaInfo}
  {s s' : FsStore}

lemma EmptyRecords.put (hs : EmptyRecords ns s) {d : DocEntry}
    (hd : d.record.hash = Hash.empty ↔ d.record.len = 0) {outcome : InsertOutcome}
    (h : (storeInstance blake3 ns).put s (d.signed ns) = .ok (s', outcome)) :
    EmptyRecords ns s' := by
  by_cases hb : ∃ x ∈ stampsOf ns s, x.blocks d.stamp
  · rw [put_of_blocked hb] at h
    cases h
    exact hs
  · rw [put_of_free hb] at h
    cases h
    intro p hp
    cases mem_docEntries_inserted.mp hp with
    | inl heq =>
      subst heq
      exact hd
    | inr hold => exact hs p hold.1

lemma ReplicaOp.ChecksEmpty.puts {op : ReplicaOp} (hop : op.ChecksEmpty crypto ns) {d : DocEntry}
    (hd : op.Puts crypto ns d) : d.record.hash = Hash.empty ↔ d.record.len = 0 := by
  cases op with
  | insert key author hash len now => exact iff_of_false hd.1 hd.2
  | deletePrefix key author now => exact iff_of_true hd.1 hd.2
  | insertRemoteEntry entry receivedFrom contentStatus now =>
    obtain ⟨rfl, hemp⟩ := hd
    exact Entry.validateEmpty_iff.mp hemp
  | syncProcessMessage message fromPeer now =>
    obtain ⟨v, hv, hsig, hok⟩ := hd
    have hemp := Entry.validateEmpty_iff.mp (hop v hv hok)
    rw [hsig] at hemp
    exact hemp

lemma EmptyRecords.left (hns : info.capability.id crypto = ns) (hs : EmptyRecords ns s)
    {op : ReplicaOp} (hop : op.ChecksEmpty crypto ns) :
    EmptyRecords ns (left crypto blake3 info s op) :=
  left_rule hns (fun _ hd _ _ _ hs h => hs.put (hop.puts hd) h) hs

end

/-- In a run on a replica that starts without records, in which no sync message
carries a valid entry that `validate_empty` would refuse, every record of every state reached has
the empty hash exactly if its length is zero. -/
theorem reaches_emptyRecords (crypto : Crypto) (blake3 : Bytes → Bytes32) (ns : NamespaceId)
    (s₀ s : FsStore) (h₀ : docEntries ns s₀ = ∅)
    (hrun : Reaches crypto blake3 ns (ReplicaOp.ChecksEmpty crypto ns) s₀ s) :
    EmptyRecords ns s := by
  induction hrun with
  | refl =>
    intro d hd
    rw [h₀] at hd
    cases hd
  | step _ hns hop ih => exact ih.left hns hop

def entryMessage (record : Record) : ProtocolMessage :=
  ⟨[.rangeItem ⟨⟨.default, .default⟩,
    [((⟨.new (.zero 32) (.zero 32) [1], record⟩ : Entry).sign .plain (.zero 32) (.zero 32),
      .missing)], true⟩]⟩

def readReplica : ReplicaInfo := ⟨.read (.zero 32), none, false⟩

/-- An entry with content of one byte arrives in a sync message. -/
theorem reaches_emptyRecords_content : EmptyRecords (.zero 32)
    (left .plain (fun _ => .zero 32) readReplica .new
      (.syncProcessMessage (entryMessage ⟨1, .zero 32, 1⟩) (.zero 32) 0)) :=
  reaches_emptyRecords .plain (fun _ => .zero 32) (.zero 32) .new _
    (Set.eq_empty_of_forall_notMem nofun)
    (.step .refl rfl (show ∀ v ∈ _, _ → _ = true by decide +kernel))

/-- An entry with the empty hash and content of five bytes arrives in a sync message, and is
stored. -/
theorem reaches_empty_hash_with_content : ∃ s,
    Reaches .plain (fun _ => .zero 32) (.zero 32) (fun _ => True) .new s ∧
      s.tables.records.rows.map (fun row => (row.1, row.2.len, row.2.hash)) =
        [(⟨.zero 32, .zero 32, [1]⟩, 5, Hash.empty)] :=
  ⟨left .plain (fun _ => .zero 32) readReplica .new
      (.syncProcessMessage (entryMessage ⟨5, Hash.empty, 1⟩) (.zero 32) 0),
    .step .refl rfl trivial, by decide +kernel⟩

end Krikos.Docs
