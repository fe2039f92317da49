import Mathlib

/-!
# Lib.Sorted

Lists that are strictly sorted by a key: the binary search of the standard library on them, and
what insertion, removal and sorting do.
-/

namespace Krikos.Lib

open List

variable {α κ : Type} [LinearOrder κ] {key : α → κ} {k : κ} {a b : α} {l m : List α} {i : Nat}

/-- Strictly sorted by the key, hence without two elements of one key. -/
def SortedBy (key : α → κ) (l : List α) : Prop := l.Pairwise fun a b => key a < key b

/-- `binary_search_by_key`: the position of the key, or the position to insert it at. -/
def search (key : α → κ) (k : κ) : List α → Except Nat Nat
  | [] => .error 0
  | a :: l =>
    if key a = k then .ok 0
    else if key a < k then
      match search key k l with
      | .ok i => .ok (i + 1)
      | .error i => .error (i + 1)
    else .error 0

/-- The element that `binary_search_by_key` finds. -/
def lookup (key : α → κ) (k : κ) (l : List α) : Option α :=
  match search key k l with
  | .ok i => l[i]?
  | .error _ => none

lemma search_ok (h : search key k l = .ok i) : ∃ a, l[i]? = some a ∧ key a = k := by
  fun_induction search key k l generalizing i with
  | case2 a l hk =>
    cases h
    exact ⟨a, by simp, hk⟩
  | case3 a l hne hlt j hj ih =>
    cases h
    simpa using ih hj
  | _ => cases h

lemma mem_of_search_ok (h : search key k l = .ok i) : ∃ a ∈ l, key a = k := by
  obtain ⟨a, ha, hk⟩ := search_ok h
  exact ⟨a, mem_of_getElem? ha, hk⟩

lemma le_length_of_search_error (h : search key k l = .error i) : i ≤ l.length := by
  fun_induction search key k l generalizing i with
  | case1 | case5 =>
    cases h
    exact Nat.zero_le _
  | case4 a l hne hlt j hj ih =>
    cases h
    exact Nat.succ_le_succ (ih hj)
  | _ => cases h

/-- A key that is not found stands at the position where it would be inserted. -/
lemma search_error (hl : SortedBy key l) (h : search key k l = .error i) :
    ∃ before rest, l = before ++ rest ∧ before.length = i ∧
      (∀ a ∈ before, key a < k) ∧ ∀ a ∈ rest, k < key a := by
  induction l generalizing i with
  | nil =>
    obtain rfl : 0 = i := by simpa [search] using h
    exact ⟨[], [], rfl, rfl, by simp, by simp⟩
  | cons a l ih =>
    obtain ⟨ha, hl⟩ := pairwise_cons.mp hl
    simp only [search] at h
    split at h
    · simp at h
    · rename_i hne
      split at h
      · rename_i hlt
        split at h
        · simp at h
        · rename_i j hj
          obtain rfl : j + 1 = i := by simpa using h
          obtain ⟨before, rest, rfl, hlen, hbef, hrest⟩ := ih hl hj
          refine ⟨a :: before, rest, rfl, by simp [hlen], ?_, hrest⟩
          simpa [hlt] using hbef
      · rename_i hle
        obtain rfl : 0 = i := by simpa using h
        have hk : k < key a := lt_of_le_of_ne (not_lt.mp hle) (Ne.symm hne)
        refine ⟨[], a :: l, rfl, rfl, by simp, ?_⟩
        simp only [mem_cons, forall_eq_or_imp]
        exact ⟨hk, fun b hb => hk.trans (ha b hb)⟩

lemma not_mem_of_search_error (hl : SortedBy key l) (h : search key k l = .error i) (ha : a ∈ l) :
    key a ≠ k := by
  obtain ⟨before, rest, rfl, -, hbef, hrest⟩ := search_error hl h
  rcases mem_append.mp ha with ha | ha
  · exact (hbef a ha).ne
  · exact (hrest a ha).ne'

lemma insertIdx_search (hl : SortedBy key l) (h : search key (key a) l = .error i) :
    SortedBy key (l.insertIdx i a) ∧ (l.insertIdx i a).Perm (a :: l) ∧
      l.Sublist (l.insertIdx i a) := by
  obtain ⟨before, rest, rfl, rfl, hbef, hrest⟩ := search_error hl h
  have hshap : (before ++ rest).insertIdx before.length a = before ++ a :: rest := by
    clear hl h hbef
    induction before with
    | nil => rfl
    | cons b before ih => simp [ih]
  obtain ⟨hb, hr, hbr⟩ := pairwise_append.mp hl
  rw [hshap]
  refine ⟨pairwise_append.mpr ⟨hb, pairwise_cons.mpr ⟨hrest, hr⟩, ?_⟩,
    perm_middle, (sublist_cons_self a rest).append_left before⟩
  intro b hb' c hc
  rcases mem_cons.mp hc with rfl | hc
  · exact hbef b hb'
  · exact hbr b hb' c hc

/-- The removal of a key: the element and the rest. -/
def takeOut (key : α → κ) (k : κ) (l : List α) : Option (α × List α) :=
  match search key k l with
  | .ok i => l[i]?.map fun a => (a, l.eraseIdx i)
  | .error _ => none

def insertNew {ε : Type} (key : α → κ) (e : ε) (a : α) (l : List α) : Except ε (List α) :=
  match search key (key a) l with
  | .ok _ => .error e
  | .error i => .ok (l.insertIdx i a)

lemma takeOut_eq_some (h : takeOut key k l = some (a, m)) :
    key a = k ∧ l.Perm (a :: m) ∧ m.Sublist l := by
  unfold takeOut at h
  split at h
  · rename_i i hi
    obtain ⟨b, hb, hk⟩ := search_ok hi
    rw [hb] at h
    obtain ⟨rfl, rfl⟩ : b = a ∧ l.eraseIdx i = m := by simpa using h
    obtain ⟨hlt, rfl⟩ := List.getElem?_eq_some_iff.mp hb
    exact ⟨hk, (List.getElem_cons_eraseIdx_perm hlt).symm, List.eraseIdx_sublist l i⟩
  · cases h

lemma insertNew_ok {ε : Type} {e : ε} (hl : SortedBy key l) (h : insertNew key e a l = .ok m) :
    SortedBy key m ∧ m.Perm (a :: l) ∧ l.Sublist m ∧ ∀ b ∈ l, key b ≠ key a := by
  unfold insertNew at h
  split at h
  · cases h
  · rename_i i hi
    obtain rfl : l.insertIdx i a = m := Except.ok.inj h
    obtain ⟨hsor, hperm, hsub⟩ := insertIdx_search hl hi
    exact ⟨hsor, hperm, hsub, fun b hb => not_mem_of_search_error hl hi hb⟩

lemma mem_of_lookup (h : lookup key k l = some a) : a ∈ l ∧ key a = k := by
  unfold lookup at h
  split at h
  · rename_i i hi
    obtain ⟨b, hb, hk⟩ := search_ok hi
    obtain rfl : b = a := by
      rw [hb] at h
      exact Option.some.inj h
    exact ⟨mem_of_getElem? hb, hk⟩
  · cases h

lemma lookup_eq_none (hl : SortedBy key l) (h : lookup key k l = none) (ha : a ∈ l) :
    key a ≠ k := by
  unfold lookup at h
  split at h
  · rename_i i hi
    obtain ⟨b, hb, -⟩ := search_ok hi
    rw [hb] at h
    cases h
  · rename_i i hi
    exact not_mem_of_search_error hl hi ha

lemma SortedBy.nodup (hl : SortedBy key l) : (l.map key).Nodup :=
  pairwise_map.mpr (hl.imp fun h => h.ne)

lemma SortedBy.eq_of_key (hl : SortedBy key l) (ha : a ∈ l) (hb : b ∈ l) (h : key a = key b) :
    a = b :=
  inj_on_of_nodup_map hl.nodup ha hb h

lemma lookup_eq_some (hl : SortedBy key l) : lookup key k l = some a ↔ a ∈ l ∧ key a = k := by
  refine ⟨mem_of_lookup, fun ⟨ha, hk⟩ => ?_⟩
  cases h : lookup key k l with
  | none => exact absurd hk (lookup_eq_none hl h ha)
  | some b =>
    obtain ⟨hb, hk'⟩ := mem_of_lookup h
    rw [hl.eq_of_key hb ha (hk'.trans hk.symm)]

/-- Two sorted lists of the same elements are one list. -/
lemma SortedBy.eq_of_perm (hl : SortedBy key l) (hm : SortedBy key m) (h : l.Perm m) : l = m :=
  h.eq_of_pairwise (fun _ _ _ _ hab hba => absurd hba hab.asymm) hl hm

lemma SortedBy.eq_of_mem_iff (hl : SortedBy key l) (hm : SortedBy key m)
    (h : ∀ a, a ∈ l ↔ a ∈ m) : l = m :=
  hl.eq_of_perm hm ((perm_ext_iff_of_nodup hl.nodup.of_map hm.nodup.of_map).mpr h)

def sortByKey (key : α → κ) (l : List α) : List α := l.insertionSort fun a b => key a ≤ key b

lemma perm_sortByKey : (sortByKey key l).Perm l := perm_insertionSort _ l

lemma sortedBy_sortByKey (h : (l.map key).Nodup) : SortedBy key (sortByKey key l) := by
  have hle : (sortByKey key l).Pairwise fun a b => key a ≤ key b :=
    @pairwise_insertionSort α (fun a b => key a ≤ key b) _
      ⟨fun a b => le_total (key a) (key b)⟩ ⟨fun _ _ _ => le_trans⟩ l
  have hne : (sortByKey key l).Pairwise fun a b => key a ≠ key b :=
    pairwise_map.mp ((perm_sortByKey.map key).nodup_iff.mpr h)
  exact (hle.and hne).imp fun ⟨h, h'⟩ => lt_of_le_of_ne h h'

/-- An element of one of two related lists has its counterpart in the other. -/
lemma exists_of_forall₂ {β : Type} {r : α → β → Prop} {m : List β} (h : List.Forall₂ r l m)
    (ha : a ∈ l) : ∃ b ∈ m, r a b := by
  induction h with
  | nil => cases ha
  | cons hr _ ih =>
    rcases mem_cons.mp ha with rfl | ha
    · exact ⟨_, mem_cons_self, hr⟩
    · obtain ⟨b, hb, hr⟩ := ih ha
      exact ⟨b, mem_cons_of_mem _ hb, hr⟩

/-! ## Order statistics -/

/-- The value is the `n`-th smallest of the list: at least `n` elements are not above it, and fewer
than `n` are below. -/
def HasRank (n : Nat) (value : κ) (values : List κ) : Prop :=
  n ≤ values.countP (· ≤ value) ∧ values.countP (· < value) < n

lemma hasRank_insertionSort {values : List κ} {n : Nat} (hn : n ≠ 0) (hle : n ≤ values.length)
    (default : κ) : HasRank n ((values.insertionSort (· ≤ ·)).getD (n - 1) default) values := by
  have hperm : (values.insertionSort (· ≤ ·)).Perm values := perm_insertionSort _ values
  have hsor : (values.insertionSort (· ≤ ·)).Pairwise (· ≤ ·) :=
    pairwise_insertionSort _ values
  generalize values.insertionSort (· ≤ ·) = sorted at hperm hsor
  have hlt : n - 1 < sorted.length := by
    rw [hperm.length_eq]
    omega
  rw [getD_eq_getElem _ _ hlt]
  unfold HasRank
  rw [← hperm.countP_eq, ← hperm.countP_eq]
  have hind := pairwise_iff_getElem.mp hsor
  constructor
  · have htake : (sorted.take n).countP (· ≤ sorted[n - 1]) = (sorted.take n).length := by
      refine countP_eq_length.mpr fun a ha => ?_
      obtain ⟨j, hj, rfl⟩ := mem_iff_getElem.mp ha
      rw [length_take] at hj
      rw [getElem_take, decide_eq_true_eq]
      rcases Nat.lt_or_ge j (n - 1) with hlt' | hge
      · exact hind _ _ _ hlt hlt'
      · obtain rfl : j = n - 1 := by omega
        exact le_rfl
    have hcoun := (take_sublist n sorted).countP_le (p := (· ≤ sorted[n - 1]))
    rw [htake, length_take] at hcoun
    omega
  · have hdrop : (sorted.drop (n - 1)).countP (· < sorted[n - 1]) = 0 := by
      refine countP_eq_zero.mpr fun a ha => ?_
      obtain ⟨j, hj, rfl⟩ := mem_iff_getElem.mp ha
      rw [getElem_drop, decide_eq_true_eq, not_lt]
      rcases Nat.eq_zero_or_pos j with rfl | hpos
      · exact le_rfl
      · exact hind _ _ hlt _ (Nat.lt_add_of_pos_right hpos)
    have hspl := @countP_append _ (· < sorted[n - 1]) (sorted.take (n - 1)) (sorted.drop (n - 1))
    rw [take_append_drop, hdrop] at hspl
    have htake := countP_le_length (p := (· < sorted[n - 1])) (l := sorted.take (n - 1))
    rw [length_take] at htake
    omega

end Krikos.Lib
