import Krikos.Blobs.BaoFile

/-!
# Blobs.Sizes

The sizes file of a partial blob (`store/util/size_info.rs`, `store/fs/bao_file.rs`). Each block
has a slot for the size that was claimed with a leaf of it, and the size of the blob is read from
the last slot. In memory only the size claimed with the last leaf is kept. When it is persisted its
slot is the number of 16-byte units before the leaf, not the number of blocks.
-/

namespace Krikos.Blobs.Fs

open Lib List

def chunkLog : Nat := 4

/-- The block of an offset, and the slot of a leaf that is written to the files. -/
def blockOf (offset : Nat) : Nat := offset >>> (chunkLog + 10)

/-- The sizes file, by its slots of eight bytes. -/
abbrev Slots := List Nat

/-- The content of a batch, and what it adds to the bitfield with the size that it claims. -/
abbrev Batch := List BaoContentItem × Bitfield

structure SizeInfo where
  offset : Nat
  size : Nat

variable (slots : Slots) (info : SizeInfo) (size : Nat) (batch : List BaoContentItem)

/-- `write_all_at` for one slot: what is skipped reads as zero. -/
def Slots.write (slot : Nat) : Slots :=
  (slots ++ replicate (slot + 1 - slots.length) 0).set slot size

def Slots.readSize : Nat := slots.getLast?.getD 0

def SizeInfo.write (offset : Nat) : SizeInfo :=
  if offset ≥ info.offset then ⟨offset, size⟩ else info

def SizeInfo.persist : Slots := Slots.write [] info.size (info.offset >>> chunkLog)

/-- The offsets of the leaves, as the loops of `write_batch` come to them. -/
def leafOffsets : List Nat :=
  batch.filterMap fun item =>
    match item with
    | .leaf leaf => some leaf.offset
    | .parent => none

def SizeInfo.writeBatch : SizeInfo := (leafOffsets batch).foldl (fun info => info.write size) info

def Slots.writeBatch : Slots :=
  (leafOffsets batch).foldl (fun slots offset => slots.write size (blockOf offset)) slots

/-- A blob that is being downloaded, by what it knows of its size. -/
inductive SizedBlob where
  | mem (info : SizeInfo) (bitfield : Bitfield)
  | file (slots : Slots) (bitfield : Bitfield)
  | complete

namespace SizedBlob

def new : SizedBlob := .mem ⟨0, 0⟩ .empty

/-- The blob in files, unless it is complete. -/
def settle (bitfield : Bitfield) : SizedBlob :=
  if bitfield.isComplete then .complete else .file slots bitfield

def writeBatch (maxDataInlined : Nat) : SizedBlob → Batch → SizedBlob
  | .mem info old, (batch, update) =>
    if maxOffset batch ≤ maxDataInlined then
      settle (info.writeBatch update.size batch).persist (old.combine update)
    else settle (info.persist.writeBatch update.size batch) (old.combine update)
  | .file slots old, (batch, update) =>
    settle (slots.writeBatch update.size batch) (old.combine update)
  | .complete, _ => .complete

/-- The size that is read from the sizes file. -/
def readBack : SizedBlob → Option Nat
  | .file slots _ => some slots.readSize
  | .mem _ _ | .complete => none

/-- The offsets of the leaves that were written, with the sizes claimed for them. -/
def claimed (batches : List Batch) : List (Nat × Nat) :=
  batches.flatMap fun batch => (leafOffsets batch.1).map fun offset => (offset, batch.2.size)

/-- A batch that is kept in memory has leaves at the start of the blob only. -/
def Leading (maxDataInlined : Nat) : SizedBlob → Batch → Prop
  | .mem _ _, (batch, _) =>
    maxOffset batch ≤ maxDataInlined → ∀ offset ∈ leafOffsets batch, offset = 0
  | .file _ _, _ | .complete, _ => True

end SizedBlob

variable {slots info size} {written : List (Nat × Nat)} {offset slot : Nat}

namespace Slots

/-- The file ends with a slot of the highest block, or it has at most a slot of the first one. -/
def Sound (slots : Slots) (written : List (Nat × Nat)) : Prop :=
  written = [] ∧ slots.length ≤ 1 ∨
    ∃ offset, (offset, slots.readSize) ∈ written ∧ slots.length = blockOf offset + 1 ∧
      ∀ leaf ∈ written, blockOf leaf.1 ≤ blockOf offset

lemma length_write : (slots.write size slot).length = max slots.length (slot + 1) := by
  simp only [write, length_set, length_append, length_replicate]
  omega

lemma readSize_write :
    (slots.write size slot).readSize = if slots.length ≤ slot + 1 then size else slots.readSize := by
  unfold readSize
  rw [getLast?_eq_getElem?, length_write]
  unfold write
  split
  · rename_i hle
    rw [max_eq_right hle, Nat.add_sub_cancel, getElem?_set_self (by simp; omega)]
    rfl
  · rename_i hlt
    rw [max_eq_left (by omega), getElem?_set_ne (by omega), getElem?_append_left (by omega),
      getLast?_eq_getElem?]

lemma Sound.write (h : slots.Sound written) :
    (slots.write size (blockOf offset)).Sound (written ++ [(offset, size)]) := by
  have hread := @readSize_write slots size (blockOf offset)
  have hlen := @length_write slots size (blockOf offset)
  by_cases hle : slots.length ≤ blockOf offset + 1
  · -- the new leaf is of the highest block
    rw [if_pos hle] at hread
    rw [max_eq_right hle] at hlen
    refine .inr ⟨offset, by simp [hread], hlen,
      forall_mem_append.mpr ⟨fun leaf hleaf => ?_, by simp⟩⟩
    rcases h with ⟨rfl, -⟩ | ⟨other, -, hother, hmax⟩
    · cases hleaf
    · exact (hmax leaf hleaf).trans (by omega)
  · rw [if_neg hle] at hread
    rcases h with ⟨-, hone⟩ | ⟨other, hmem, hother, hmax⟩
    · omega
    · refine .inr ⟨other, by simp [hread, hmem], by omega, forall_mem_append.mpr ⟨hmax, ?_⟩⟩
      simp only [forall_mem_singleton]
      omega

lemma Sound.writeBatch (h : slots.Sound written) : (slots.writeBatch size batch).Sound
      (written ++ (leafOffsets batch).map fun offset => (offset, size)) := by
  unfold Slots.writeBatch
  induction leafOffsets batch generalizing slots written with
  | nil => simpa using h
  | cons offset offsets ih => simpa using ih h.write

end Slots

/-- At the start of the blob the slot that `persist` computes is the one of the block. -/
lemma SizeInfo.persist_writeBatch (hzero : info.offset = 0)
    (hlead : ∀ offset ∈ leafOffsets batch, offset = 0) :
    (info.writeBatch size batch).persist = info.persist.writeBatch size batch := by
  unfold SizeInfo.writeBatch Slots.writeBatch
  generalize leafOffsets batch = offsets at hlead ⊢
  induction offsets generalizing info with
  | nil => rfl
  | cons offset offsets ih =>
    obtain ⟨rfl, hrest⟩ := forall_mem_cons.mp hlead
    have hwrite : info.write size 0 = ⟨0, size⟩ := if_pos hzero.le
    simp only [foldl_cons, hwrite]
    rw [ih rfl hrest]
    simp [SizeInfo.persist, hzero, Slots.write, blockOf]

namespace SizedBlob

def Sound (s : SizedBlob) (written : List (Nat × Nat)) : Prop :=
  match s with
  | .mem info _ => written = [] ∧ info = ⟨0, 0⟩
  | .file slots _ => slots.Sound written
  | .complete => True

lemma sound_settle (h : slots.Sound written) (bitfield : Bitfield) :
    (settle slots bitfield).Sound written := by
  unfold settle
  split
  · trivial
  · exact h

variable {maxDataInlined : Nat} {s : SizedBlob} {batches : List Batch}

lemma sound_writeBatch (h : s.Sound written) {batch : Batch}
    (hlead : Leading maxDataInlined s batch) :
    (s.writeBatch maxDataInlined batch).Sound (written ++ claimed [batch]) := by
  have hfirst : (SizeInfo.persist ⟨0, 0⟩).Sound [] := .inl ⟨rfl, le_rfl⟩
  rw [claimed, flatMap_singleton]
  fun_cases writeBatch maxDataInlined s batch with
  | case1 info old batch update hmem =>
    obtain ⟨rfl, rfl⟩ := h
    rw [SizeInfo.persist_writeBatch batch rfl (hlead hmem)]
    exact sound_settle (hfirst.writeBatch batch) _
  | case2 info old batch update hmem =>
    obtain ⟨rfl, rfl⟩ := h
    exact sound_settle (hfirst.writeBatch batch) _
  | case3 slots old batch update => exact sound_settle (Slots.Sound.writeBatch batch h) _
  | case4 => trivial

lemma sound_run (h : s.Sound written)
    (hlead : Along (writeBatch maxDataInlined) (Leading maxDataInlined) s batches) :
    (run (writeBatch maxDataInlined) s batches).Sound (written ++ claimed batches) := by
  induction batches generalizing s written with
  | nil => simpa [claimed, run] using h
  | cons batch batches ih => simpa [claimed, run] using ih (sound_writeBatch h hlead.1) hlead.2

/-- If the batch in memory has leaves at the start only, the size that is read back was claimed with
a leaf of the highest block. -/
theorem readBack_claimed
    (hlead : Along (writeBatch maxDataInlined) (Leading maxDataInlined) new batches)
    (hread : (run (writeBatch maxDataInlined) new batches).readBack = some size)
    (hleaf : claimed batches ≠ []) :
    ∃ offset, (offset, size) ∈ claimed batches ∧
      ∀ leaf ∈ claimed batches, blockOf leaf.1 ≤ blockOf offset := by
  have hsound := sound_run (s := new) ⟨rfl, rfl⟩ hlead
  cases hs : run (writeBatch maxDataInlined) new batches with
  | file slots bitfield =>
    rw [hs] at hsound hread
    obtain rfl := Option.some.inj hread
    rcases hsound with ⟨hnone, -⟩ | ⟨offset, hmem, -, hmax⟩
    · exact absurd hnone hleaf
    · exact ⟨offset, hmem, hmax⟩
  | mem info bitfield | complete => rw [hs] at hread; cases hread

/-- A leaf of one byte, with the size that ends after it. -/
def lastByte (offset : Nat) : Batch :=
  ([.leaf ⟨offset, [0]⟩], .new ⟨{offset / 1024}, none⟩ (offset + 1))

theorem readBack_claimed_two :
    ∃ offset, (offset, 32769) ∈ claimed [lastByte 16384, lastByte 32768] ∧
      ∀ leaf ∈ claimed [lastByte 16384, lastByte 32768], blockOf leaf.1 ≤ blockOf offset := by
  have hread : (run (writeBatch 1) new [lastByte 16384, lastByte 32768]).readBack = some 32769 := by
    decide +kernel
  refine readBack_claimed ⟨fun hle => absurd hle ?_, ?_, trivial⟩ hread ?_
  · decide
  · exact True.intro
  · decide +kernel

/-- The leaf of the second block is kept in memory. The one of the third block then goes to a slot
far before it. -/
theorem readBack_stale :
    (run (writeBatch 32768) new [lastByte 16384, lastByte 32768]).readBack = some 16385 ∧
      claimed [lastByte 16384, lastByte 32768] = [(16384, 16385), (32768, 32769)] ∧
      blockOf 16384 < blockOf 32768 := by
  decide +kernel

end SizedBlob
end Krikos.Blobs.Fs
