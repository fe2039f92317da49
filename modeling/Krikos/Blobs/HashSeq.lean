import Krikos.Blobs.TempTag

/-!
# Blobs.HashSeq

Hash sequences (`krikos-blobs/src/hashseq.rs`) and the stream of hashes of an exported blob
(`ExportBaoProgress::hashes_with_index` in `api/blobs.rs`, `HashSeqChunk` in `api/remote.rs`).

An export delivers a blob in leaves of one block each, and a block holds whole hashes, so reading the
blocks one by one lists a stored hash sequence in order (`flatMap_leavesFrom`).
-/

namespace Krikos.Blobs

open Lib

/-- A blob's bytes, a multiple of the hash length. -/
structure HashSeq where
  bytes : Bytes
  aligned : bytes.length % 32 = 0

namespace HashSeq

def new (bytes : Bytes) : Option HashSeq :=
  if h : bytes.length % 32 = 0 then some ⟨bytes, h⟩ else none

def len (s : HashSeq) : Nat := s.bytes.length / 32

def isEmpty (s : HashSeq) : Bool := s.bytes.isEmpty

lemma length_of_not_isEmpty {s : HashSeq} (h : s.isEmpty = false) : 32 ≤ s.bytes.length := by
  have hpos : s.bytes.length ≠ 0 := by
    simpa [isEmpty] using h
  have halig := s.aligned
  omega

lemma aligned_drop (s : HashSeq) : (s.bytes.drop 32).length % 32 = 0 := by
  have halig := s.aligned
  rw [List.length_drop]
  omega

lemma length_first {s : HashSeq} (h : s.isEmpty = false) : (s.bytes.take 32).length = 32 := by
  rw [List.length_take]
  exact Nat.min_eq_left (length_of_not_isEmpty h)

def popFront (s : HashSeq) : Option (Hash × HashSeq) :=
  if h : s.isEmpty = false then
    some (⟨s.bytes.take 32, length_first h⟩, ⟨s.bytes.drop 32, s.aligned_drop⟩)
  else none

lemma popFront_length {s rest : HashSeq} {hash : Hash} (h : s.popFront = some (hash, rest)) :
    rest.bytes.length < s.bytes.length := by
  unfold popFront at h
  split at h
  · rename_i hne
    cases h
    have hlen := length_of_not_isEmpty hne
    show (s.bytes.drop 32).length < s.bytes.length
    rw [List.length_drop]
    omega
  · cases h

/-- The hashes that `HashSeqIter` returns. -/
def iter (s : HashSeq) : List Hash :=
  match hpop : s.popFront with
  | none => []
  | some (hash, rest) =>
    have : rest.bytes.length < s.bytes.length := popFront_length hpop
    hash :: rest.iter
  termination_by s.bytes.length

lemma iter_of_isEmpty {s : HashSeq} (h : s.isEmpty = true) : s.iter = [] := by
  have hpop : s.popFront = none := dif_neg (by simp [h])
  rw [iter]
  split
  · rfl
  · simp_all

lemma iter_of_not_isEmpty {s : HashSeq} (h : s.isEmpty = false) :
    s.iter = ⟨s.bytes.take 32, length_first h⟩ :: iter ⟨s.bytes.drop 32, s.aligned_drop⟩ := by
  have hpop : s.popFront = some (⟨s.bytes.take 32, length_first h⟩,
    ⟨s.bytes.drop 32, s.aligned_drop⟩) := dif_pos h
  rw [iter]
  split
  · simp_all
  · simp_all

/-- Parts that are aligned themselves can be read one after the other. -/
lemma iter_append (s t : HashSeq) (h : (s.bytes ++ t.bytes).length % 32 = 0) :
    iter ⟨s.bytes ++ t.bytes, h⟩ = s.iter ++ t.iter := by
  cases hs : s.isEmpty with
  | true =>
    have hnil : s.bytes = [] := List.isEmpty_iff.mp hs
    rw [iter_of_isEmpty hs]
    simp only [hnil, List.nil_append]
  | false =>
    have hlen := length_of_not_isEmpty hs
    have hne : isEmpty ⟨s.bytes ++ t.bytes, h⟩ = false := by
      simp [isEmpty, List.ne_nil_of_length_pos (by omega : 0 < s.bytes.length)]
    have ih := iter_append ⟨s.bytes.drop 32, s.aligned_drop⟩ t (by
      rw [List.length_append, List.length_drop]
      rw [List.length_append] at h
      omega)
    rw [iter_of_not_isEmpty hne, iter_of_not_isEmpty hs, List.cons_append, ← ih]
    simp only [List.take_append_of_le_length hlen, List.drop_append_of_le_length hlen]
  termination_by s.bytes.length
  decreasing_by
    rw [List.length_drop]
    omega

end HashSeq

/-! ## Exported blobs -/

structure Leaf where
  offset : Nat
  data : Bytes

/-- What an export sends; the hashes of a parent are not read here. -/
inductive EncodedItem where
  | size (size : Nat)
  | parent
  | leaf (leaf : Leaf)
  | error (cause : String)
  | done

structure HashSeqChunk where
  offset : Nat
  chunk : HashSeq

def HashSeqChunk.tryFrom (leaf : Leaf) : Except String HashSeqChunk :=
  match HashSeq.new leaf.data with
  | some chunk => .ok ⟨leaf.offset, chunk⟩
  | none => .error "invalid hash sequence"

def HashSeqChunk.base (c : HashSeqChunk) : Nat := c.offset / 32

def itemHashes : EncodedItem → List (Except String (Nat × Hash))
  | .leaf leaf =>
    match HashSeqChunk.tryFrom leaf with
    | .ok slice => (slice.chunk.iter.zipIdx slice.base).map fun (hash, i) => .ok (i, hash)
    | .error e => [.error e]
  | .error e => [.error e]
  | .size _ => []
  | .parent => []
  | .done => []

variable (items : List EncodedItem)

def hashesWithIndex : List (Except String (Nat × Hash)) :=
  items.flatMap itemHashes

def hashes : List (Except String Hash) :=
  (hashesWithIndex items).map fun x => x.map Prod.snd

def delivered : List Hash :=
  (hashes items).filterMap Except.toOption

/-- The length of a block: 16 chunks of 1024 bytes (`KRIKOS_BLOCK_SIZE`). -/
def blockLen : Nat := 2 ^ 4 * 1024

def leavesFrom (offset : Nat) (data : Bytes) : List Leaf :=
  if data.length ≤ blockLen then [⟨offset, data⟩]
  else ⟨offset, data.take blockLen⟩ :: leavesFrom (offset + blockLen) (data.drop blockLen)
  termination_by data.length
  decreasing_by
    rename_i h
    rw [List.length_drop]
    have hpos : 0 < blockLen := by decide
    omega

def EncodedItem.leaf? : EncodedItem → Option Leaf
  | .leaf sent => some sent
  | _ => none

/-! ## The hashes of the blocks -/

def Leaf.hashes (leaf : Leaf) : List Hash :=
  match HashSeq.new leaf.data with
  | some chunk => chunk.iter
  | none => []

lemma Leaf.hashes_of_aligned {leaf : Leaf} (h : leaf.data.length % 32 = 0) :
    leaf.hashes = HashSeq.iter ⟨leaf.data, h⟩ := by
  rw [Leaf.hashes, HashSeq.new, dif_pos h]

lemma delivered_eq : delivered items = (items.filterMap EncodedItem.leaf?).flatMap Leaf.hashes := by
  induction items with
  | nil => rfl
  | cons item items ih =>
    have hcons : delivered (item :: items) =
        ((itemHashes item).map fun x => x.map Prod.snd).filterMap Except.toOption ++
          delivered items := by
      simp only [delivered, hashes, hashesWithIndex, List.flatMap_cons, List.map_append,
        List.filterMap_append]
    rw [hcons, ih]
    cases item with
    | leaf leaf =>
      simp only [List.filterMap_cons, EncodedItem.leaf?, List.flatMap_cons,
        List.append_cancel_right_eq, itemHashes, HashSeqChunk.tryFrom, Leaf.hashes]
      cases HashSeq.new leaf.data with
      | none => rfl
      | some chunk => simp [List.filterMap_map, Function.comp_def, Except.map, Except.toOption]
    | _ => rfl

/-- A block holds whole hashes. -/
lemma flatMap_leavesFrom (offset : Nat) {data : Bytes} (h : data.length % 32 = 0) :
    (leavesFrom offset data).flatMap Leaf.hashes = HashSeq.iter ⟨data, h⟩ := by
  fun_induction leavesFrom offset data with
  | case1 offset data hle => rw [List.flatMap_singleton, Leaf.hashes_of_aligned h]
  | case2 offset data hgt ih =>
    have htake : (data.take blockLen).length % 32 = 0 := by
      rw [List.length_take, Nat.min_eq_left (by omega)]
      rfl
    have hdrop : (data.drop blockLen).length % 32 = 0 := by
      have hb : blockLen % 32 = 0 := rfl
      rw [List.length_drop]
      omega
    have happ := HashSeq.iter_append ⟨_, htake⟩ ⟨_, hdrop⟩ (by rwa [List.take_append_drop])
    simp only [List.take_append_drop] at happ
    rw [List.flatMap_cons, ih hdrop, happ, Leaf.hashes_of_aligned htake]

end Krikos.Blobs
