import Mathlib.Data.List.Nodup
import Mathlib.Data.List.Perm.Basic

/-!
# Lib.IndexSet

Sets whose elements have an order. An element is inserted at the end, and removed by moving the
last element into its place (`swapRemove`), or by closing the gap (`shiftRemoveIndex`).
-/

namespace Krikos.Lib

open List

/-- Removes the element at an index by moving the last element into its place. -/
def swapRemove {α : Type} (l : List α) (i : Nat) : List α :=
  match l.getLast? with
  | none => []
  | some last => if i + 1 = l.length then l.dropLast else l.dropLast.set i last

lemma perm_swapRemove {α : Type} {l : List α} {i : Nat} (h : i < l.length) :
    l.Perm (l[i] :: swapRemove l i) := by
  cases eq_nil_or_concat' l with
  | inl hnil =>
    subst hnil
    exact absurd h (Nat.not_lt_zero i)
  | inr hcon =>
    obtain ⟨init, last, rfl⟩ := hcon
    simp only [swapRemove, getLast?_concat, dropLast_concat]
    split
    · rename_i heq
      have hi : i = init.length := by
        rw [length_append, length_singleton] at heq
        omega
      subst hi
      simp only [getElem_concat_length]
      exact perm_append_singleton last init
    · rename_i hne
      have hi : i < init.length := by
        rw [length_append, length_singleton] at hne h
        omega
      rw [getElem_append_left hi, set_eq_take_append_cons_drop, if_pos hi]
      have hspl : init = init.take i ++ init[i] :: init.drop (i + 1) := by
        rw [getElem_cons_drop, take_append_drop]
      calc init ++ [last]
          _ = (init.take i ++ init[i] :: init.drop (i + 1)) ++ [last] := by rw [← hspl]
          _ |>.Perm (last :: (init.take i ++ init[i] :: init.drop (i + 1))) :=
            perm_append_singleton _ _
          _ |>.Perm (last :: init[i] :: (init.take i ++ init.drop (i + 1))) :=
            perm_middle.cons _
          _ |>.Perm (init[i] :: last :: (init.take i ++ init.drop (i + 1))) :=
            List.Perm.swap _ _ _
          _ |>.Perm (init[i] :: (init.take i ++ last :: init.drop (i + 1))) :=
            perm_middle.symm.cons _

structure IndexSet (α : Type) where
  items : List α
  nodup : items.Nodup

namespace IndexSet
variable {α : Type} [DecidableEq α] {s : IndexSet α} {a b : α} {i : Nat}

def empty : IndexSet α := ⟨[], nodup_nil⟩

def len (s : IndexSet α) : Nat := s.items.length

def contains (s : IndexSet α) (a : α) : Bool := decide (a ∈ s.items)

def insert (s : IndexSet α) (a : α) : IndexSet α :=
  if h : a ∈ s.items then s
  else ⟨s.items ++ [a], s.nodup.append (nodup_singleton a) (by simpa using h)⟩

def removeIndex (s : IndexSet α) (i : Nat) : IndexSet α :=
  if h : i < s.items.length then
    ⟨swapRemove s.items i, ((perm_swapRemove h).nodup_iff.mp s.nodup).of_cons⟩
  else s

def remove (s : IndexSet α) (a : α) : IndexSet α := s.removeIndex (s.items.idxOf a)

def shiftRemoveIndex (s : IndexSet α) (i : Nat) : IndexSet α :=
  ⟨s.items.eraseIdx i, s.nodup.sublist (eraseIdx_sublist ..)⟩

def iterWithout (s : IndexSet α) (a : α) : List α := s.items.filter fun b => b ≠ a

lemma contains_eq_false : s.contains a = false ↔ a ∉ s.items := decide_eq_false_iff_not

lemma mem_insert : b ∈ (s.insert a).items ↔ b ∈ s.items ∨ b = a := by
  unfold insert
  split
  · rename_i h
    constructor
    · exact Or.inl
    · rintro (hb | rfl)
      · exact hb
      · exact h
  · simp

omit [DecidableEq α] in
lemma mem_removeIndex (h : i < s.items.length) :
    b ∈ (s.removeIndex i).items ↔ b ∈ s.items ∧ b ≠ s.items[i] := by
  have hperm := perm_swapRemove h
  have hnot : s.items[i] ∉ swapRemove s.items i :=
    (nodup_cons.mp (hperm.nodup_iff.mp s.nodup)).1
  rw [removeIndex, dif_pos h, hperm.mem_iff, mem_cons]
  constructor
  · intro hb
    exact ⟨.inr hb, fun heq => hnot (heq ▸ hb)⟩
  · rintro ⟨heq | hb, hne⟩
    · exact absurd heq hne
    · exact hb

lemma mem_remove : b ∈ (s.remove a).items ↔ b ∈ s.items ∧ b ≠ a := by
  unfold remove
  by_cases h : a ∈ s.items
  · have hlt := idxOf_lt_length_of_mem h
    rw [mem_removeIndex hlt, getElem_idxOf hlt]
  · have hge : ¬ s.items.idxOf a < s.items.length := by
      rw [idxOf_lt_length_iff]
      exact h
    rw [removeIndex, dif_neg hge]
    constructor
    · intro hb
      exact ⟨hb, fun heq => h (heq ▸ hb)⟩
    · exact And.left

lemma len_insert_le : (s.insert a).len ≤ s.len + 1 := by
  unfold insert
  split
  · exact Nat.le_succ _
  · simp [len]

omit [DecidableEq α] in
lemma len_removeIndex (h : i < s.items.length) : (s.removeIndex i).len + 1 = s.len := by
  rw [removeIndex, dif_pos h]
  exact (perm_swapRemove h).length_eq.symm

omit [DecidableEq α] in
lemma len_removeIndex_le : (s.removeIndex i).len ≤ s.len := by
  by_cases h : i < s.items.length
  · exact Nat.le_of_succ_le (Nat.le_of_eq (len_removeIndex h))
  · have hsame : s.removeIndex i = s := dif_neg h
    exact Nat.le_of_eq (congrArg len hsame)

end IndexSet
end Krikos.Lib
