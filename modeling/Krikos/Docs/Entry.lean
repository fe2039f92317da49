import Krikos.Docs.Ranger
import Krikos.Lib.Bytes

/-!
# Docs.Entry

Records, entries and their identifiers (`krikos-docs/src/sync.rs`).

A `RecordIdentifier` is a byte string: 32 bytes of namespace, 32 bytes of author, and the key. The
accessors slice it at these offsets and panic if it is too short; identifiers that come from the
network have any length. An identifier of at least 64 bytes is the concatenation of its parts
(`RecordIdentifier.exists_new`), and such identifiers compare like the tuples of their parts
(`RecordIdentifier.new_lt_new`).
-/

namespace Krikos.Docs

open Lib

abbrev Bytes32 := FixedBytes 32

abbrev NamespaceId := Bytes32

abbrev AuthorId := Bytes32

abbrev PeerIdBytes := Bytes32

abbrev Hash := Bytes32

/-- `Hash::EMPTY`, the hash of the empty byte string -/
def Hash.empty : Hash :=
  ⟨[175, 19, 73, 185, 245, 249, 161, 166, 160, 64, 77, 234, 54, 220, 201, 73, 155, 203, 37, 201,
    173, 193, 18, 183, 204, 154, 147, 202, 228, 31, 50, 98], rfl⟩

/-! ## Identifiers -/

/-- `RecordsId`, the key of the records table -/
structure RecordsId where
  ns : NamespaceId
  author : AuthorId
  key : Bytes
  deriving DecidableEq

namespace RecordsId

def toTuple (id : RecordsId) : NamespaceId ×ₗ (AuthorId ×ₗ Bytes) :=
  toLex (id.ns, toLex (id.author, id.key))

lemma toTuple_injective : Function.Injective toTuple := by
  intro a b h
  cases a
  cases b
  simpa [toTuple] using h

instance : LinearOrder RecordsId := LinearOrder.lift' toTuple toTuple_injective

variable {a b : RecordsId}

lemma lt_iff : a < b ↔
    a.ns < b.ns ∨ a.ns = b.ns ∧ (a.author < b.author ∨ a.author = b.author ∧ a.key < b.key) := by
  show toTuple a < toTuple b ↔ _
  rw [toTuple, toTuple, Prod.Lex.toLex_lt_toLex, Prod.Lex.toLex_lt_toLex]

lemma le_iff : a ≤ b ↔
    a.ns < b.ns ∨ a.ns = b.ns ∧ (a.author < b.author ∨ a.author = b.author ∧ a.key ≤ b.key) := by
  show toTuple a ≤ toTuple b ↔ _
  rw [toTuple, toTuple, Prod.Lex.toLex_le_toLex, Prod.Lex.toLex_le_toLex]

end RecordsId

structure RecordIdentifier where
  bytes : Bytes
  deriving DecidableEq

namespace RecordIdentifier

instance : LinearOrder RecordIdentifier :=
  LinearOrder.lift' bytes fun a b h => by cases a; cases b; exact congrArg mk h

def new (ns : NamespaceId) (author : AuthorId) (key : Bytes) : RecordIdentifier :=
  ⟨ns.1 ++ author.1 ++ key⟩

def default : RecordIdentifier := new (FixedBytes.zero 32) (FixedBytes.zero 32) []

variable {ε : Type}
variable (id : RecordIdentifier)

def ns : Except (Fault ε) NamespaceId :=
  if h : 32 ≤ id.bytes.length then .ok ⟨id.bytes.take 32, by simp [h]⟩ else .error (.panic .slice)

def author : Except (Fault ε) AuthorId :=
  if h : 64 ≤ id.bytes.length then .ok ⟨(id.bytes.take 64).drop 32, by simp [h]⟩
  else .error (.panic .slice)

def key : Except (Fault ε) Bytes :=
  if 64 ≤ id.bytes.length then .ok (id.bytes.drop 64) else .error (.panic .slice)

def toByteTuple : Except (Fault ε) RecordsId :=
  match id.ns with
  | .error f => .error f
  | .ok ns =>
    match id.author with
    | .error f => .error f
    | .ok author =>
      match id.key with
      | .error f => .error f
      | .ok key => .ok ⟨ns, author, key⟩

def WellFormed : Prop := 64 ≤ id.bytes.length

instance (id : RecordIdentifier) : Decidable id.WellFormed :=
  inferInstanceAs (Decidable (64 ≤ id.bytes.length))

variable {ns : NamespaceId} {author : AuthorId} {key : Bytes}

lemma new_wellFormed (ns : NamespaceId) (author : AuthorId) (key : Bytes) :
    (new ns author key).WellFormed := by
  simp only [WellFormed, new, List.length_append, ns.2, author.2]
  omega

variable {id : RecordIdentifier}

lemma exists_new (h : id.WellFormed) : ∃ ns author key, id = new ns author key := by
  obtain ⟨bytes⟩ := id
  have hlen : 64 ≤ bytes.length := h
  refine ⟨⟨bytes.take 32, by simp; omega⟩, ⟨(bytes.take 64).drop 32, by simp [hlen]⟩,
    bytes.drop 64, congrArg mk ?_⟩
  have htake : bytes.take 32 ++ (bytes.take 64).drop 32 = bytes.take 64 := by
    have := List.take_append_drop 32 (bytes.take 64)
    rwa [List.take_take, Nat.min_eq_left (by omega)] at this
  show bytes = bytes.take 32 ++ (bytes.take 64).drop 32 ++ bytes.drop 64
  rw [htake, List.take_append_drop]

@[simp] lemma ns_new : (new ns author key).ns = (.ok ns : Except (Fault ε) NamespaceId) := by
  have hlen : 32 ≤ (new ns author key).bytes.length := by
    have := new_wellFormed ns author key
    simp only [WellFormed] at this
    omega
  have htake : (new ns author key).bytes.take 32 = ns.1 := by
    simp only [new, List.append_assoc]
    exact List.take_left' ns.2
  simp only [RecordIdentifier.ns, hlen, dite_true, htake]

@[simp] lemma author_new :
    (new ns author key).author = (.ok author : Except (Fault ε) AuthorId) := by
  have hlen : 64 ≤ (new ns author key).bytes.length := new_wellFormed ns author key
  have htake : ((new ns author key).bytes.take 64).drop 32 = author.1 := by
    have h64 : (ns.1 ++ author.1).length = 64 := by simp [ns.2, author.2]
    simp only [new]
    rw [List.take_left' h64]
    exact List.drop_left' ns.2
  simp only [RecordIdentifier.author, hlen, dite_true, htake]

@[simp] lemma key_new : (new ns author key).key = (.ok key : Except (Fault ε) Bytes) := by
  have hlen : 64 ≤ (new ns author key).bytes.length := new_wellFormed ns author key
  have hdrop : (new ns author key).bytes.drop 64 = key := by
    have h64 : (ns.1 ++ author.1).length = 64 := by simp [ns.2, author.2]
    simp only [new]
    exact List.drop_left' h64
  simp only [RecordIdentifier.key, hlen, if_true, hdrop]

@[simp] lemma toByteTuple_new :
    (new ns author key).toByteTuple = (.ok ⟨ns, author, key⟩ : Except (Fault ε) RecordsId) := by
  simp only [toByteTuple, ns_new, author_new, key_new]

lemma author_of_not_wellFormed (h : ¬ id.WellFormed) :
    id.author = (.error (.panic .slice) : Except (Fault ε) AuthorId) := by
  simp only [RecordIdentifier.author, show ¬ 64 ≤ id.bytes.length from h, dite_false]

lemma toByteTuple_of_not_wellFormed (h : ¬ id.WellFormed) :
    id.toByteTuple = (.error (.panic .slice) : Except (Fault ε) RecordsId) := by
  rw [toByteTuple, author_of_not_wellFormed h]
  cases hns : (id.ns : Except (Fault ε) NamespaceId) with
  | ok ns => rfl
  | error f =>
    unfold RecordIdentifier.ns at hns
    split at hns
    · cases hns
    · cases hns; rfl

variable {ns' : NamespaceId} {author' : AuthorId} {key' : Bytes}

lemma new_lt_new : new ns author key < new ns' author' key' ↔
      (⟨ns, author, key⟩ : RecordsId) < ⟨ns', author', key'⟩ := by
  show ns.1 ++ author.1 ++ key < ns'.1 ++ author'.1 ++ key' ↔ _
  rw [RecordsId.lt_iff, List.append_assoc, List.append_assoc,
    Bytes.append_lt_append (ns.2.trans ns'.2.symm),
    Bytes.append_lt_append (author.2.trans author'.2.symm)]
  simp only [Subtype.coe_lt_coe, Subtype.coe_inj]

lemma new_le_new : new ns author key ≤ new ns' author' key' ↔
      (⟨ns, author, key⟩ : RecordsId) ≤ ⟨ns', author', key'⟩ := by
  rw [← not_lt, new_lt_new, not_lt]

lemma new_inj
    (h : new ns author key = new ns' author' key') : ns = ns' ∧ author = author' ∧ key = key' := by
  have ht := congrArg (toByteTuple (ε := Empty)) h
  simp only [toByteTuple_new, Except.ok.injEq, RecordsId.mk.injEq] at ht
  exact ht

end RecordIdentifier

/-! ## Records and entries -/

structure Record where
  len : U64
  hash : Hash
  timestamp : U64
  deriving DecidableEq

namespace Record

/-- What the order of records looks at. -/
def stamp (r : Record) : U64 ×ₗ Hash := toLex (r.timestamp, r.hash)

/-- Compares first the timestamp, then the content hash. -/
instance : LE Record :=
  ⟨fun a b => a.timestamp < b.timestamp ∨ a.timestamp = b.timestamp ∧ a.hash ≤ b.hash⟩

instance : DecidableLE Record := fun a b =>
  inferInstanceAs
    (Decidable (a.timestamp < b.timestamp ∨ a.timestamp = b.timestamp ∧ a.hash ≤ b.hash))

lemma le_iff {a b : Record} : a ≤ b ↔ a.stamp ≤ b.stamp := by
  rw [stamp, stamp, Prod.Lex.toLex_le_toLex]
  rfl

def isEmpty (r : Record) : Bool := r.hash = Hash.empty

end Record

structure EntrySignature where
  authorSignature : FixedBytes 64
  namespaceSignature : FixedBytes 64
  deriving DecidableEq

structure Entry where
  id : RecordIdentifier
  record : Record
  deriving DecidableEq

structure SignedEntry where
  signature : EntrySignature
  entry : Entry
  deriving DecidableEq

instance : RangeEntry SignedEntry RecordIdentifier Record where
  key e := e.entry.id
  value e := e.entry.record

/-! ## Fingerprints -/

def xorBytes (a b : Bytes32) : Bytes32 :=
  ⟨List.zipWith (fun x y => Fin.ofNat 256 (x.val ^^^ y.val)) a.1 b.1, by simp [a.2, b.2]⟩

/-- The empty set has the hash of the empty string, and fingerprints are combined bytewise. -/
instance : Fingerprint Bytes32 where
  empty := Hash.empty
  xor := xorBytes

/-- `as_fingerprint`: the hash of the namespace, author, key, timestamp and content hash -/
def SignedEntry.asFingerprint {ε : Type} (blake3 : Bytes → Bytes32) (e : SignedEntry) :
    Except (Fault ε) Bytes32 :=
  match e.entry.id.toByteTuple with
  | .error f => .error f
  | .ok id => .ok (blake3 (id.ns.1 ++ id.author.1 ++ id.key ++
      U64.toBeBytes e.entry.record.timestamp ++ e.entry.record.hash.1))

end Krikos.Docs
