import Krikos.Blobs.Mem

/-!
# Blobs.GcSafety

What a garbage collection run keeps when nothing else writes.

A run keeps what is externally protected and what a tag or temp tag names. It keeps the children
of a hash sequence root only if it reads the sequence, and the mark loop reads a root only if its
hash is not live yet: a root that is externally protected, that was visited before in raw format,
or that an earlier sequence lists is not read (`Reached`). `gc_keeps_referenced` is the exact
condition for a run to keep the children as well.
-/

namespace Krikos.Blobs

open Lib List

/-! ## Reached hashes -/

/-- The hash is live once the given roots are visited, the last one first: it is externally
protected, it is the hash of a visited root, or a sequence lists it that was read because its root
was not reached before. -/
def Reached (listed : Hash → List Hash) (external : Finset Hash) : List HashAndFormat → Hash → Prop
  | [], hash => hash ∈ external
  | root :: earlier, hash =>
    Reached listed external earlier hash ∨ hash = root.hash ∨
      (root.format = .hashSeq ∧ ¬ Reached listed external earlier root.hash ∧
        hash ∈ listed root.hash)

/-- The root is of hash sequence format, and not reached by the roots before it. -/
def IsRead (listed : Hash → List Hash) (external : Finset Hash) (visit : List HashAndFormat)
    (root : HashAndFormat) : Prop :=
  root.format = .hashSeq ∧ ∃ before after, visit = before ++ root :: after ∧
    ¬ Reached listed external before.reverse root.hash

section
variable {listed : Hash → List Hash} {external live : Finset Hash} {visit : List HashAndFormat}
  {root : HashAndFormat} {hash : Hash}

lemma mem_marked : hash ∈ marked listed live root ↔ hash ∈ live ∨ hash = root.hash ∨
      (root.format = .hashSeq ∧ root.hash ∉ live ∧ hash ∈ listed root.hash) := by
  unfold marked reads
  cases hf : root.format with
  | raw =>
    simp only [BlobFormat.isRaw, Bool.not_true, Bool.and_false, Bool.false_eq_true, if_false,
      Finset.mem_insert, reduceCtorEq, false_and, or_false]
    tauto
  | hashSeq =>
    by_cases hlive : root.hash ∈ live
    · simp only [hlive, not_true_eq_false, decide_false, Bool.false_and, Bool.false_eq_true,
        if_false, Finset.mem_insert, false_and, and_false, or_false]
      tauto
    · simp only [hlive, not_false_eq_true, decide_true, BlobFormat.isRaw, Bool.not_false,
        Bool.and_self, if_true, Finset.mem_union, Finset.mem_insert, mem_toFinset, true_and]
      tauto

lemma mem_foldl_marked : hash ∈ visit.foldl (marked listed) external ↔
    Reached listed external visit.reverse hash := by
  induction visit using reverseRecOn generalizing hash with
  | nil => exact Iff.rfl
  | append_singleton before root ih =>
    rw [foldl_append, foldl_cons, foldl_nil, mem_marked, reverse_append,
      reverse_singleton, singleton_append, Reached, ih, ih]

lemma reached_iff : Reached listed external visit.reverse hash ↔
    hash ∈ external ∨ (∃ root ∈ visit, root.hash = hash) ∨
      ∃ root, IsRead listed external visit root ∧ hash ∈ listed root.hash := by
  induction visit using reverseRecOn with
  | nil => simp [Reached, IsRead]
  | append_singleton before last ih =>
    rw [reverse_append, reverse_singleton, singleton_append, Reached, ih]
    constructor
    · rintro ((h | ⟨root, hroot, h⟩ | ⟨root, ⟨hf, pre, post, hspl, hnot⟩, h⟩) | h | ⟨hf, hnot, h⟩)
      · exact .inl h
      · exact .inr (.inl ⟨root, mem_append_left _ hroot, h⟩)
      · refine .inr (.inr ⟨root, ⟨hf, pre, post ++ [last], ?_, hnot⟩, h⟩)
        rw [hspl, append_assoc, cons_append]
      · exact .inr (.inl ⟨last, by simp, h.symm⟩)
      · exact .inr (.inr ⟨last, ⟨hf, before, [], rfl, hnot⟩, h⟩)
    · rintro (h | ⟨root, hroot, h⟩ | ⟨root, ⟨hf, pre, post, hspl, hnot⟩, h⟩)
      · exact .inl (.inl h)
      · rw [mem_append, mem_singleton] at hroot
        cases hroot with
        | inl hroot => exact .inl (.inr (.inl ⟨root, hroot, h⟩))
        | inr hroot =>
          subst hroot
          exact .inr (.inl h.symm)
      · -- the split is at the last root or before it
        rcases eq_nil_or_concat' post with rfl | ⟨post, x, rfl⟩
        · obtain ⟨rfl, hlast⟩ := append_inj' hspl rfl
          cases hlast
          exact .inr (.inr ⟨hf, hnot, h⟩)
        · rw [← cons_append, ← append_assoc] at hspl
          obtain ⟨rfl, _⟩ := append_inj' hspl rfl
          exact .inl (.inr (.inr ⟨root, ⟨hf, pre, post, rfl, hnot⟩, h⟩))

end

/-! ## Runs -/

namespace View
variable {σ : Type} (v : View σ)

/-- The hash is externally protected, named by a tag or temp tag, or a child in the fully stored
hash sequence of a tag or temp tag of that format. -/
def Referenced (s : σ) (external : Finset Hash) (hash : Hash) : Prop :=
  hash ∈ external ∨ (∃ root ∈ v.roots s, root.hash = hash) ∨
    ∃ root ∈ v.roots s, root.format = .hashSeq ∧ hash ∈ v.sequence s root.hash

/-- Every child in the store that nothing else protects is listed by a root that is read. -/
def SequencesRead (order : Order) (s : σ) (external : Finset Hash) : Prop :=
  ∀ root ∈ v.roots s, root.format = .hashSeq → ∀ child ∈ v.sequence s root.hash, v.Has s child →
    child ∈ external ∨ (∃ root ∈ v.roots s, root.hash = child) ∨
      ∃ root, IsRead (v.children s) external (order.visit (v.roots s)) root ∧
        child ∈ v.children s root.hash

end View

section
variable {σ : Type} (b : Backend σ) (order : Order) (s : σ) (external : Finset Hash)

lemma mem_liveSet {hash : Hash} : hash ∈ b.liveSet order s external ↔
    hash ∈ external ∨ (∃ root ∈ b.roots s, root.hash = hash) ∨
      ∃ root, IsRead (b.children s) external (order.visit (b.roots s)) root ∧
        hash ∈ b.children s root.hash := by
  rw [View.liveSet, mem_foldl_marked, reached_iff, b.listed_eq]
  simp only [(order.perm (b.roots s)).mem_iff]

/-- In every run all stored blobs that are referenced are kept if the sequences
with children of their own are read, and a run that ends well keeps them only then. -/
theorem gc_keeps_referenced : (b.SequencesRead order s external →
      ∀ hash, b.Has s hash → b.Referenced s external hash →
        b.Has ((gcRunOnce order external).run b.handle s).1 hash) ∧
    ∀ live, ((gcRunOnce order external).run b.handle s).2 = .ok live →
      (∀ hash, b.Has s hash → b.Referenced s external hash →
        b.Has ((gcRunOnce order external).run b.handle s).1 hash) →
      b.SequencesRead order s external := by
  obtain ⟨hkept, hgone⟩ := run_gcRunOnce b (s := s) order external
  constructor
  · intro hread hash hhas href
    refine hkept hash hhas ((mem_liveSet b order s external).mpr ?_)
    rcases href with h | h | ⟨root, hroot, hf, h⟩
    · exact .inl h
    · exact .inr (.inl h)
    · exact hread root hroot hf hash h hhas
  · intro live hend hsafe root hroot hf child hchild hhas
    refine (mem_liveSet b order s external).mp (hgone live hend child ?_)
    exact hsafe child hhas (.inr (.inr ⟨root, hroot, hf, hchild⟩))

end

/-! ## A run that loses a child -/

namespace Mem

def toyHash (data : Bytes) : Hash :=
  ⟨(Fin.ofNat 256 data.length :: (data ++ replicate 31 0)).take 32, by simp⟩

def toyBao : Bao where
  Partial := Unit
  newPartial := ()
  blake3 := toyHash
  outboard _ := []
  traverse _
    | .complete data _ => (leavesFrom 0 data).map .leaf
    | .incomplete _ => []
  traverse_complete data := by
    rw [filterMap_map]
    exact filterMap_some

def childData : Bytes := [7]

def seqData : Bytes := (toyHash childData).1

/-- A blob and a hash sequence that lists it; the sequence has a tag of each format, and the temp
tags of the imports are dropped. -/
def twoTags : Actor toyBao :=
  let a := (Actor.new toyBao).finishImport ⟨childData, 0, .raw⟩
  let a := a.finishImport ⟨seqData, 0, .hashSeq⟩
  let a := a.handleCommand (.setTag [1] ⟨toyHash seqData, .hashSeq⟩)
  let a := a.handleCommand (.setTag [2] ⟨toyHash seqData, .raw⟩)
  let tempTags := a.tempTags.drop 0 ⟨toyHash childData, .raw⟩
  { a with tempTags := tempTags.drop 0 ⟨toyHash seqData, .hashSeq⟩ }

def plainOrder : Order := ⟨id, fun _ => .refl _⟩

/-- The raw tag is visited first, so the sequence of the other tag is not read. -/
theorem child_of_tagged_sequence_deleted :
    (Actor.backend toyBao).Referenced twoTags ∅ (toyHash childData) ∧
    (Actor.backend toyBao).Has twoTags (toyHash childData) ∧
    ¬ (Actor.backend toyBao).Has
      ((gcRunOnce plainOrder ∅).run (Actor.backend toyBao).handle twoTags).1
      (toyHash childData) := by
  refine ⟨.inr (.inr ⟨⟨toyHash seqData, .hashSeq⟩, ?_, rfl, ?_⟩), ?_, ?_⟩
  · decide +kernel
  · decide +kernel
  · show (twoTags.data.get (toyHash childData)).isSome = true
    decide +kernel
  · show ¬ (((gcRunOnce plainOrder ∅).run Actor.handle twoTags).1.data.get
      (toyHash childData)).isSome = true
    decide +kernel

end Mem
end Krikos.Blobs
