import Mathlib.Data.List.Rotate
import Mathlib.Data.List.Sort
import Mathlib.Tactic.Order

/-!
# Lib.Clockwise

A linear order read as a circle: starting at `x` and going up, then around to the elements below
`x`. `Clockwise x a b` says that `a` comes strictly before `b` on that walk. An arc `[x, y)` of the
circle is the set of `t` with `Clockwise x t y`.

A strictly increasing list, rotated to start at the first element at or above `x`, is in clockwise
order from `x` (`pairwise_rotate`), so the part of it on an arc that starts at `x` is an initial
segment (`filter_eq_take`).
-/

namespace Krikos.Lib

open List

variable {K : Type*} [LinearOrder K] {x y a b p f t : K}

/-- Going up from `x` and then around, `a` comes strictly before `b`. -/
def Clockwise (x a b : K) : Prop := (x ≤ a ∧ b < x) ∨ ((x ≤ a ↔ x ≤ b) ∧ a < b)

instance (x a b : K) : Decidable (Clockwise x a b) := inferInstanceAs (Decidable (_ ∨ _))

namespace Clockwise

lemma irrefl : ¬ Clockwise x a a := by
  rintro (⟨h1, h2⟩ | ⟨_, h⟩)
  · exact absurd h2 (not_lt.mpr h1)
  · exact lt_irrefl a h

lemma ne (h : Clockwise x a b) : a ≠ b := fun he => irrefl (he ▸ h)

lemma trans (h₁ : Clockwise x a b) (h₂ : Clockwise x b t) : Clockwise x a t := by
  rcases h₁ with ⟨h1, h2⟩ | ⟨h1, h2⟩ <;> rcases h₂ with ⟨h3, h4⟩ | ⟨h3, h4⟩
  · exact absurd h2 (not_lt.mpr h3)
  · exact .inl ⟨h1, not_le.mp fun h => absurd (h3.mpr h) (not_le.mpr h2)⟩
  · exact .inl ⟨h1.mpr h3, h4⟩
  · exact .inr ⟨h1.trans h3, h2.trans h4⟩

lemma asymm (h : Clockwise x a b) : ¬ Clockwise x b a := fun h' => irrefl (h.trans h')

/-- Nothing comes before the start of the walk. -/
lemma ne_start (h : Clockwise x a b) : x ≠ b := by
  rintro rfl
  rcases h with ⟨_, h⟩ | ⟨h1, h2⟩
  · exact lt_irrefl x h
  · exact absurd (h1.mpr le_rfl) (not_le.mpr h2)

lemma start (h : x ≠ b) : Clockwise x x b := by
  unfold Clockwise
  grind

/-- An arc is cut at a point `p` on it into `[x, p)` and `[p, y)`. -/
lemma split (hp : Clockwise x p y) : Clockwise p t y ↔ ¬ Clockwise x t p ∧ Clockwise x t y := by
  unfold Clockwise at *
  grind

/-- For points that come at or after `f`, the walk from `f` is the walk from `x`. -/
lemma rebase (ht : t = f ∨ Clockwise x f t) (hp : Clockwise x f p) :
    Clockwise f t p ↔ Clockwise x t p := by
  unfold Clockwise at *
  grind

/-- The two arcs between two points are complementary. -/
lemma swap (h : a ≠ b) : Clockwise b t a ↔ ¬ Clockwise a t b := by
  unfold Clockwise
  grind

end Clockwise

/-- A strictly increasing list, rotated to start at the first element at or above `x`. -/
lemma pairwise_rotate {l : List K} (hl : l.Pairwise (· < ·)) (x : K) :
    (l.rotate (l.findIdx fun k => decide (x ≤ k))).Pairwise (Clockwise x) := by
  set i := l.findIdx fun k => decide (x ≤ k) with hi
  have hle : i ≤ l.length := findIdx_le_length
  rw [rotate_eq_drop_append_take hle, pairwise_append]
  have hlow : ∀ a ∈ l.take i, ¬ x ≤ a := by
    intro a ha
    obtain ⟨j, hj, rfl⟩ := mem_iff_getElem.mp ha
    rw [length_take] at hj
    rw [getElem_take]
    have := not_of_lt_findIdx (show j < l.findIdx fun k => decide (x ≤ k) by omega)
    simpa using this
  have hhigh : ∀ a ∈ l.drop i, x ≤ a := by
    intro a ha
    obtain ⟨j, hj, rfl⟩ := mem_iff_getElem.mp ha
    rw [length_drop] at hj
    rw [getElem_drop]
    have hlt : i < l.length := by omega
    have h0 : x ≤ l[i] := by
      have := @findIdx_getElem _ (fun k => decide (x ≤ k)) l hlt
      simpa using this
    rcases Nat.eq_zero_or_pos j with rfl | hj0
    · simpa using h0
    · exact h0.trans (pairwise_iff_getElem.mp hl i (i + j) hlt (by omega) (by omega)).le
  refine ⟨?_, ?_, fun a ha b hb => .inl ⟨hhigh a ha, not_le.mp (hlow b hb)⟩⟩
  · refine ((hl.sublist (drop_sublist i l)).imp_of_mem ?_)
    intro a b ha hb hab
    exact .inr ⟨by simp [hhigh a ha, hhigh b hb], hab⟩
  · refine ((hl.sublist (take_sublist i l)).imp_of_mem ?_)
    intro a b ha hb hab
    exact .inr ⟨by simp [hlow a ha, hlow b hb], hab⟩

/-- In a list ordered by an asymmetric relation, the elements before the `j`-th are the first
`j`. -/
lemma filter_eq_take {α : Type*} {R : α → α → Prop} [DecidableRel R]
    (hasy : ∀ a b, R a b → ¬ R b a) {l : List α} (hl : l.Pairwise R) {j : Nat}
    (hj : j < l.length) : l.filter (fun a => decide (R a l[j])) = l.take j := by
  have hirr : ∀ a, ¬ R a a := fun a h => hasy a a h h
  have hspl := congrArg (filter fun a => decide (R a l[j])) (take_append_drop j l)
  rw [filter_append] at hspl
  have h1 : (l.take j).filter (fun a => decide (R a l[j])) = l.take j := by
    rw [filter_eq_self]
    intro a ha
    obtain ⟨i, hi, rfl⟩ := mem_iff_getElem.mp ha
    rw [length_take] at hi
    rw [getElem_take]
    exact decide_eq_true (pairwise_iff_getElem.mp hl i j (by omega) hj (by omega))
  have h2 : (l.drop j).filter (fun a => decide (R a l[j])) = [] := by
    rw [filter_eq_nil_iff]
    intro a ha
    obtain ⟨i, hi, rfl⟩ := mem_iff_getElem.mp ha
    rw [length_drop] at hi
    rw [getElem_drop, decide_eq_true_iff]
    rcases Nat.eq_zero_or_pos i with rfl | h0
    · exact hirr _
    · exact hasy _ _ (pairwise_iff_getElem.mp hl j (j + i) hj (by omega) (by omega))
  rw [← hspl, h1, h2, append_nil]

end Krikos.Lib
