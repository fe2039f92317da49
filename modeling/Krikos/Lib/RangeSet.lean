import Mathlib.Data.List.Sort
import Mathlib.Data.List.Dedup

/-!
# Lib.RangeSet

Sets that change at finitely many boundaries. A value is in the set if an odd number of boundaries is
at or below it.
-/

namespace Krikos.Lib
variable {α : Type} [LinearOrder α]

/-- The number of points at or below `x`. -/
def countLE (x : α) (points : List α) : Nat := points.countP fun p => decide (p ≤ x)

@[simp] lemma countLE_nil (x : α) : countLE x [] = 0 := rfl

lemma countLE_cons (x p : α) (points : List α) :
    countLE x (p :: points) = countLE x points + if p ≤ x then 1 else 0 := by
  simp [countLE, List.countP_cons]

lemma countLE_eq_zero {x : α} {points : List α} (h : ∀ p ∈ points, x < p) :
    countLE x points = 0 := by
  refine List.countP_eq_zero.mpr fun p hp => ?_
  simpa using h p hp

lemma countLE_congr {x y : α} {points : List α}
    (h : ∀ p ∈ points, p ≤ x ↔ p ≤ y) : countLE x points = countLE y points := by
  refine List.countP_congr fun p hp => ?_
  simp [h p hp]

structure RangeSet (α : Type) [LinearOrder α] where
  boundaries : List α
  sorted : boundaries.Pairwise (· < ·)

namespace RangeSet

def contains (s : RangeSet α) (x : α) : Bool := decide (countLE x s.boundaries % 2 = 1)

def empty : RangeSet α := ⟨[], .nil⟩

/-- All values from `start` on. -/
def from_ (start : α) : RangeSet α := ⟨[start], List.pairwise_singleton _ _⟩

def all [Zero α] : RangeSet α := from_ 0

lemma sorted_pair {start stop : α} (h : start < stop) : [start, stop].Pairwise (· < ·) := by
  simpa using h

/-- The values from `start` on and below `stop`. -/
def range (start stop : α) : RangeSet α :=
  if h : start < stop then ⟨[start, stop], sorted_pair h⟩ else empty

def isEmpty (s : RangeSet α) : Bool := s.boundaries.isEmpty

@[simp] lemma contains_empty (x : α) : (empty : RangeSet α).contains x = false := rfl

@[simp] lemma contains_from (start x : α) : (from_ start).contains x = decide (start ≤ x) := by
  by_cases h : start ≤ x
  · simp [from_, contains, countLE_cons, h]
  · simp [from_, contains, countLE_cons, h]

@[simp] lemma contains_range (start stop x : α) :
    (range start stop).contains x = decide (start ≤ x ∧ x < stop) := by
  unfold range
  split
  · rename_i h
    simp only [contains, countLE_cons, countLE_nil, decide_eq_decide]
    by_cases hstop : stop ≤ x
    · simp [hstop, h.le.trans hstop]
    · by_cases hstar : start ≤ x
      · simp [hstop, hstar, not_le.mp hstop]
      · simp [hstop, hstar]
  · rename_i h
    rw [contains_empty, eq_comm, decide_eq_false_iff_not]
    exact fun hx => h (hx.1.trans_lt hx.2)

/-! ## Operations -/

/-- The points at which a function changes. -/
def toggles (f : α → Bool) : Bool → List α → List α
  | _, [] => []
  | on, p :: points => if f p = on then toggles f on points else p :: toggles f (f p) points

omit [LinearOrder α] in
lemma toggles_sublist (f : α → Bool) (on : Bool) (points : List α) :
    (toggles f on points).Sublist points := by
  induction points generalizing on with
  | nil => exact .slnil
  | cons p points ih =>
    unfold toggles
    split
    · exact (ih on).cons p
    · exact (ih (f p)).cons_cons p

lemma odd_toggles {f : α → Bool} {x : α} {on : Bool} {points : List α}
    (hsor : points.Pairwise (· < ·)) (hstar : (∀ p ∈ points, x < p) → f x = on)
    (hstep : ∀ p ∈ points, p ≤ x → (∀ q ∈ points, q ≤ p ∨ x < q) → f x = f p) :
    countLE x (toggles f on points) % 2 = 1 ↔ f x ≠ on := by
  induction points generalizing on with
  | nil => simp [toggles, hstar (fun p hp => by cases hp)]
  | cons p points ih =>
    have hlat : ∀ q ∈ points, p < q := fun q hq => List.rel_of_pairwise_cons hsor hq
    by_cases hpx : p ≤ x
    · have htail : countLE x (toggles f (f p) points) % 2 = 1 ↔ f x ≠ f p := by
        refine ih hsor.of_cons (fun hall => ?_) fun q hq hqx hgap => ?_
        · refine hstep p List.mem_cons_self hpx fun q hq => ?_
          rcases List.mem_cons.mp hq with rfl | hq
          · exact .inl le_rfl
          · exact .inr (hall q hq)
        · refine hstep q (List.mem_cons_of_mem _ hq) hqx fun r hr => ?_
          rcases List.mem_cons.mp hr with rfl | hr
          · exact .inl (hlat q hq).le
          · exact hgap r hr
      unfold toggles
      split
      · rename_i hsame
        rw [hsame] at htail
        exact htail
      · rename_i hdiff
        have hbool : f x ≠ on ↔ ¬ f x ≠ f p := by
          rw [not_ne_iff, Bool.eq_not_iff.mpr hdiff, ← Bool.eq_not_iff]
        rw [countLE_cons, if_pos hpx, hbool, ← htail]
        omega
    · have hall : ∀ q ∈ p :: points, x < q := by
        intro q hq
        rcases List.mem_cons.mp hq with rfl | hq
        · exact not_le.mp hpx
        · exact (not_le.mp hpx).trans (hlat q hq)
      rw [countLE_eq_zero fun q hq => hall q ((toggles_sublist f on _).subset hq)]
      simp [hstar hall]

variable (a b : RangeSet α)

/-- All the boundaries of two sets, in order. -/
def points : List α :=
  ((a.boundaries ++ b.boundaries).dedup).insertionSort (· ≤ ·)

lemma mem_points {a b : RangeSet α} {p : α} :
    p ∈ points a b ↔ p ∈ a.boundaries ∨ p ∈ b.boundaries := by
  simp [points]

lemma sorted_points : (points a b).Pairwise (· < ·) := by
  have hle : (points a b).Pairwise (· ≤ ·) := List.pairwise_insertionSort _ _
  have hne : (points a b).Nodup := (List.perm_insertionSort _ _).nodup_iff.mpr (List.nodup_dedup _)
  exact (hle.and hne).imp fun h => lt_of_le_of_ne h.1 h.2

/-- The set of the values for which `op` holds of the memberships in two sets. -/
def combine (op : Bool → Bool → Bool) (a b : RangeSet α) : RangeSet α :=
  ⟨toggles (fun x => op (a.contains x) (b.contains x)) false (points a b),
    (sorted_points a b).sublist (toggles_sublist _ _ _)⟩

lemma contains_congr {s : RangeSet α} {x y : α} (hle : x ≤ y)
    (h : ∀ p ∈ s.boundaries, p ≤ x ∨ y < p) : s.contains y = s.contains x := by
  unfold contains
  rw [countLE_congr fun p hp => ?_]
  rcases h p hp with hpx | hpy
  · exact ⟨fun _ => hpx, fun _ => hpx.trans hle⟩
  · exact ⟨fun hpy' => absurd hpy' (not_le.mpr hpy), fun hpx => hpx.trans hle⟩

lemma contains_combine {op : Bool → Bool → Bool} (hop : op false false = false) (a b : RangeSet α)
    (x : α) : (combine op a b).contains x = op (a.contains x) (b.contains x) := by
  have hodd := @odd_toggles _ _ (fun x => op (a.contains x) (b.contains x)) x false _
    (sorted_points a b) (fun hall => ?_) fun p hp hpx hgap => ?_
  · show decide (_ % 2 = 1) = _
    rw [Bool.eq_iff_iff, decide_eq_true_iff, ← Bool.ne_false_iff]
    exact hodd
  · have ha : a.contains x = false := by
      simp [contains, countLE_eq_zero fun p hp => hall p (mem_points.mpr (.inl hp))]
    have hb : b.contains x = false := by
      simp [contains, countLE_eq_zero fun p hp => hall p (mem_points.mpr (.inr hp))]
    simp only [ha, hb, hop]
  · simp only [contains_congr hpx fun q hq => hgap q (mem_points.mpr (.inl hq)),
      contains_congr hpx fun q hq => hgap q (mem_points.mpr (.inr hq))]

def union : RangeSet α := combine (· || ·) a b

@[simp] lemma contains_union (x : α) :
    (union a b).contains x = (a.contains x || b.contains x) := contains_combine rfl a b x

end RangeSet
end Krikos.Lib
