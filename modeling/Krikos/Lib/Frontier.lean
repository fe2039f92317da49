import Mathlib.Data.Set.Finite.Lattice
import Mathlib.Order.Preorder.Finite

/-!
# Lib.Frontier

Sets that keep only their maximal elements while elements arrive one at a time.

`le e p` reads "`p` is at or above `e`". An arriving element is dropped when a stored element
*blocks* it; otherwise it *clears* some stored elements and is added. When blocking and clearing
are both exactly `le`, no stored element is ever below another (`settleAll_incomparable`).
`settleAll_perm_iff` says, for an arbitrary `blocks` and `clears` around `le`, exactly which
collections end as their maxima in every order of arrival.
-/

namespace Krikos.Lib

open List

variable {α : Type*}

/-- The elements of `S` that no other element of `S` is above. -/
def maxima (le : α → α → Prop) (S : Set α) : Set α :=
  {m | m ∈ S ∧ ∀ p ∈ S, le m p → p = m}

open Classical in
/-- One arrival: dropped if some stored element blocks it, otherwise added after clearing. -/
noncomputable def settle (blocks clears : α → α → Prop) (S : Set α) (e : α) : Set α :=
  if ∃ p ∈ S, blocks p e then S else insert e {s ∈ S | ¬ clears e s}

noncomputable def settleAll (blocks clears : α → α → Prop) (S : Set α) (l : List α) : Set α :=
  l.foldl (settle blocks clears) S

/-- `le` is a partial order. -/
structure Above (le : α → α → Prop) : Prop where
  refl : ∀ a, le a a
  trans : ∀ {a b c}, le a b → le b c → le a c
  antisymm : ∀ {a b}, le a b → le b a → a = b

/-- What an arrival rule has to do with the order it approximates: only elements above block, an
element blocks whatever lies below something it blocks, elements below are always cleared, and
an element that is cleared without being below does not block its clearer. -/
structure Rules (le blocks clears : α → α → Prop) : Prop extends Above le where
  blocks_le : ∀ {p e}, blocks p e → le e p
  blocks_mono : ∀ {p f d}, blocks p f → le d f → blocks p d
  clears_of_le : ∀ {s e}, le s e → clears e s
  le_of_clears : ∀ {s e}, clears e s → blocks s e → le s e

namespace Above
variable {le : α → α → Prop} (h : Above le)

include h

lemma exists_maxima {S : Set α} (hS : S.Finite) {a : α} (ha : a ∈ S) :
    ∃ m ∈ maxima le S, le a m := by
  let _ : PartialOrder α :=
    { le := le, le_refl := h.refl, le_trans := fun _ _ _ => h.trans,
      le_antisymm := fun _ _ => h.antisymm }
  obtain ⟨m, ham, hm⟩ := hS.exists_le_maximal ha
  exact ⟨m, ⟨hm.prop, fun p hp hle => h.antisymm (hm.le_of_ge hp hle) hle⟩, ham⟩

/-- A subset of `U` that contains the maxima of `U` and has no element below another is the set of
maxima. -/
lemma eq_maxima {S U : Set α} (hU : U.Finite) (hsub : S ⊆ U) (hsup : maxima le U ⊆ S)
    (hanti : ∀ s ∈ S, ∀ p ∈ S, le s p → p = s) : S = maxima le U := by
  apply Set.Subset.antisymm _ hsup
  intro s hs
  obtain ⟨m, hm, hle⟩ := h.exists_maxima hU (hsub hs)
  rw [← hanti s hs m (hsup hm) hle]
  exact hm

end Above

section
variable {le blocks clears : α → α → Prop} {S U : Set α} {e : α} {l : List α}

lemma settle_of_blocked (hb : ∃ p ∈ S, blocks p e) : settle blocks clears S e = S := by
  rw [settle, if_pos hb]

lemma settle_of_free (hb : ¬ ∃ p ∈ S, blocks p e) :
    settle blocks clears S e = insert e {s ∈ S | ¬ clears e s} := by
  rw [settle, if_neg hb]

lemma settle_subset : settle blocks clears S e ⊆ insert e S := by
  by_cases hb : ∃ p ∈ S, blocks p e
  · rw [settle_of_blocked hb]; exact Set.subset_insert _ _
  · rw [settle_of_free hb]; exact Set.insert_subset_insert (Set.sep_subset _ _)

lemma settleAll_subset (l : List α) : settleAll blocks clears S l ⊆ S ∪ {x | x ∈ l} := by
  induction l generalizing S with
  | nil => intro x hx; exact .inl hx
  | cons e l ih =>
    intro x hx
    rcases ih hx with hx | hx
    · rcases settle_subset hx with rfl | hx
      · exact .inr (mem_cons_self ..)
      · exact .inl hx
    · exact .inr (mem_cons_of_mem _ hx)

lemma mem_of_mem_settleAll_empty {x : α} (h : x ∈ settleAll blocks clears ∅ l) : x ∈ l := by
  rcases settleAll_subset l h with h | h
  · exact absurd h (Set.notMem_empty x)
  · exact h

/-- An element that nothing clears stays. -/
lemma mem_settle_of_mem {m : α} (hm : m ∈ S) (hc : clears e m → e = m) :
    m ∈ settle blocks clears S e := by
  by_cases hb : ∃ p ∈ S, blocks p e
  · rw [settle_of_blocked hb]; exact hm
  · rw [settle_of_free hb]
    by_cases he : clears e m
    · rw [hc he]; exact Set.mem_insert _ _
    · exact Set.mem_insert_of_mem _ ⟨hm, he⟩

/-- An arriving element ends up stored unless a stored element blocks it. -/
lemma mem_settle_self (hb : ∀ p ∈ S, blocks p e → p = e) : e ∈ settle blocks clears S e := by
  by_cases hex : ∃ p ∈ S, blocks p e
  · obtain ⟨p, hp, hpe⟩ := hex
    rw [settle_of_blocked ⟨p, hp, hpe⟩, ← hb p hp hpe]
    exact hp
  · rw [settle_of_free hex]; exact Set.mem_insert _ _

lemma settleAll_cons (l : List α) : settleAll blocks clears S (e :: l) =
      settleAll blocks clears (settle blocks clears S e) l := rfl

lemma settleAll_append (l₁ l₂ : List α) : settleAll blocks clears S (l₁ ++ l₂) =
      settleAll blocks clears (settleAll blocks clears S l₁) l₂ := foldl_append

lemma mem_settleAll_of_mem {m : α} (hm : m ∈ S)
    (hc : ∀ e ∈ l, clears e m → e = m) : m ∈ settleAll blocks clears S l := by
  induction l generalizing S with
  | nil => exact hm
  | cons e l ih =>
    exact ih (mem_settle_of_mem hm (hc e (mem_cons_self ..)))
      fun x hx => hc x (mem_cons_of_mem _ hx)

/-- An element of the sequence that nothing blocks and nothing clears is stored at the end. -/
lemma mem_settleAll {m : α} (hl : m ∈ l) (hb : ∀ p ∈ S ∪ {x | x ∈ l}, blocks p m → p = m)
    (hc : ∀ e ∈ l, clears e m → e = m) : m ∈ settleAll blocks clears S l := by
  obtain ⟨l₁, l₂, rfl⟩ := append_of_mem hl
  rw [settleAll_append, settleAll_cons]
  refine mem_settleAll_of_mem (mem_settle_self fun p hp => hb p ?_) fun e he =>
    hc e (by simp [he])
  rcases settleAll_subset l₁ hp with hp | hp
  · exact .inl hp
  · exact .inr (mem_append_left _ hp)

/-- Once a blocker of `d` that clears `d` is in for good, `d` is out for good. -/
lemma not_mem_settleAll {d m : α} (hmS : m ∈ S) (hdS : d ∉ S) (hb : blocks m d)
    (hc : ∀ e ∈ l, clears e m → e = m) : d ∉ settleAll blocks clears S l := by
  induction l generalizing S with
  | nil => exact hdS
  | cons e l ih =>
    rw [settleAll_cons]
    refine ih (mem_settle_of_mem hmS (hc e (mem_cons_self ..))) ?_
      fun x hx => hc x (mem_cons_of_mem _ hx)
    intro hd
    rcases settle_subset hd with rfl | hd'
    · rw [settle_of_blocked ⟨m, hmS, hb⟩] at hd
      exact hdS hd
    · exact hdS hd'

/-- Blocking and clearing along the order keeps the stored elements incomparable. -/
lemma settle_incomparable (hS : ∀ s ∈ S, ∀ p ∈ S, le s p → p = s) :
    ∀ s ∈ settle (fun p e => le e p) (fun e s => le s e) S e,
      ∀ p ∈ settle (fun p e => le e p) (fun e s => le s e) S e, le s p → p = s := by
  by_cases hb : ∃ p ∈ S, le e p
  · rw [settle_of_blocked hb]; exact hS
  · rw [settle_of_free hb]
    rintro s (rfl | ⟨hs, hse⟩) p (rfl | ⟨hp, hpe⟩) hle
    · rfl
    · exact absurd ⟨p, hp, hle⟩ hb
    · exact absurd hle hse
    · exact hS s hs p hp hle

lemma settleAll_incomparable (l : List α) (hS : ∀ s ∈ S, ∀ p ∈ S, le s p → p = s) :
    ∀ s ∈ settleAll (fun p e => le e p) (fun e s => le s e) S l,
      ∀ p ∈ settleAll (fun p e => le e p) (fun e s => le s e) S l, le s p → p = s := by
  induction l generalizing S with
  | nil => exact hS
  | cons e l ih => exact ih (settle_incomparable hS)

end

section
variable {le blocks clears : α → α → Prop} {l : List α}

lemma exists_blocking_maximum (R : Rules le blocks clears)
    (h : ∀ d ∈ l, d ∉ maxima le {x | x ∈ l} → ∃ p ∈ l, p ≠ d ∧ blocks p d) {d : α} (hd : d ∈ l)
    (hmax : d ∉ maxima le {x | x ∈ l}) : ∃ m ∈ maxima le {x | x ∈ l}, m ≠ d ∧ blocks m d := by
  -- among the blockers of `d`, a topmost one has no blocker of its own, hence is a maximum
  have hfin : {p | p ∈ l ∧ blocks p d}.Finite := (finite_toSet l).subset fun p hp => hp.1
  obtain ⟨p, hp, _, hpd⟩ := h d hd hmax
  obtain ⟨m, ⟨⟨hml, hmd⟩, htop⟩, _⟩ := R.exists_maxima hfin (show p ∈ _ from ⟨hp, hpd⟩)
  have hm : m ∈ maxima le {x | x ∈ l} := by
    by_contra hcon
    obtain ⟨q, hq, hne, hqm⟩ := h m hml hcon
    exact hne (htop q ⟨hq, R.blocks_mono hqm (R.blocks_le hmd)⟩ (R.blocks_le hqm))
  exact ⟨m, hm, fun he => hmax (he ▸ hm), hmd⟩

/-- The order of arrival in which `d` comes last stores `d` unless something else blocks it. -/
lemma exists_perm_mem_of_unblocked [DecidableEq α] {d : α} (hd : d ∈ l)
    (h : ∀ p ∈ l, blocks p d → p = d) :
    ∃ l' : List α, l'.Perm l ∧ d ∈ settleAll blocks clears ∅ l' := by
  have hp := perm_cons_erase hd
  refine ⟨l.erase d ++ [d], (perm_append_singleton d _).trans hp.symm, ?_⟩
  rw [settleAll_append, settleAll_cons]
  exact mem_settle_self fun p hpS => h p (mem_of_mem_erase (mem_of_mem_settleAll_empty hpS))

lemma settleAll_replicate (m : α) (n : Nat) :
    settleAll blocks clears ∅ (replicate (n + 1) m) = {m} := by
  induction n with
  | zero =>
    show settle blocks clears ∅ m = {m}
    rw [settle_of_free (by simp)]
    simp
  | succ n ih =>
    rw [replicate_succ', settleAll_append, ih]
    show settle blocks clears {m} m = {m}
    by_cases hb : blocks m m
    · exact settle_of_blocked ⟨m, rfl, hb⟩
    · rw [settle_of_free (by simpa using hb)]
      ext x
      constructor
      · rintro (rfl | ⟨rfl, _⟩)
        · rfl
        · rfl
      · rintro rfl
        exact Set.mem_insert _ _

/-- The order of arrival in which `m` comes first and a clearer `e` second loses `m`. -/
lemma exists_perm_not_mem_of_cleared [DecidableEq α] {m e : α} (hm : m ∈ l)
    (he : e ∈ l) (hne : e ≠ m) (hc : clears e m) (hb : ¬ blocks m e) :
    ∃ l' : List α, l'.Perm l ∧ m ∉ settleAll blocks clears ∅ l' := by
  have heM : e ∈ l.filter (fun x => !decide (x = m)) := mem_filter.mpr ⟨he, by simp [hne]⟩
  have hperm : (l.filter (fun x => decide (x = m)) ++
      e :: (l.filter fun x => !decide (x = m)).erase e).Perm l :=
    ((perm_cons_erase heM).symm.append_left _).trans (filter_append_perm _ l)
  refine ⟨_, hperm, ?_⟩
  have hcoun : l.filter (fun x => decide (x = m)) = replicate (l.count m) m :=
    filter_beq m
  obtain ⟨n, hn⟩ := Nat.exists_eq_succ_of_ne_zero
    (Nat.pos_iff_ne_zero.mp (count_pos_iff.mpr hm))
  have h2 : settle blocks clears {m} e = {e} := by
    rw [settle_of_free (by simpa using hb)]
    ext x
    constructor
    · rintro (rfl | ⟨rfl, hx⟩)
      · rfl
      · exact absurd hc hx
    · rintro rfl; exact Set.mem_insert _ _
  rw [settleAll_append, settleAll_cons, hcoun, hn, settleAll_replicate, h2]
  intro hmem
  rcases settleAll_subset _ hmem with h | h
  · exact hne h.symm
  · exact absurd (mem_filter.mp (mem_of_mem_erase h)).2 (by simp)

/-- **Order independence, exactly.** A collection ends as its maxima in every order of arrival if
and only if every element that is not a maximum is blocked by another one and no maximum is cleared
by another one. -/
lemma settleAll_perm_iff (R : Rules le blocks clears) (l : List α) :
    (∀ l' : List α, l'.Perm l → settleAll blocks clears ∅ l' = maxima le {x | x ∈ l}) ↔
      (∀ d ∈ l, d ∉ maxima le {x | x ∈ l} → ∃ p ∈ l, p ≠ d ∧ blocks p d) ∧
        (∀ m ∈ maxima le {x | x ∈ l}, ∀ e ∈ l, clears e m → e = m) := by
  classical
  constructor
  · intro h
    constructor
    · intro d hd hmax
      by_contra hcon
      push Not at hcon
      obtain ⟨l', hp, hmem⟩ := exists_perm_mem_of_unblocked hd
        (fun p hp hb => by_contra fun hne => hcon p hp hne hb)
      exact hmax (h l' hp ▸ hmem)
    · intro m hm e he hc
      by_contra hne
      have hb : ¬ blocks m e := fun hb => hne (hm.2 e he (R.le_of_clears hc hb))
      obtain ⟨l', hp, hmem⟩ := exists_perm_not_mem_of_cleared hm.1 he hne hc hb
      exact hmem (h l' hp ▸ hm)
  · rintro ⟨hbloc, hclear⟩ l' hp
    have hmem : ∀ {x}, x ∈ l' ↔ x ∈ l := hp.mem_iff
    ext x
    constructor
    · intro hx
      have hxl : x ∈ l := hmem.mp (mem_of_mem_settleAll_empty hx)
      by_contra hmax
      obtain ⟨m, hm, hne, hb⟩ := exists_blocking_maximum R hbloc hxl hmax
      -- from the moment `m` arrives it stays, and `x` is out: cleared, or blocked later on
      obtain ⟨l₁, l₂, rfl, hfir⟩ := eq_append_cons_of_mem (hmem.mpr hm.1)
      have hc : ∀ e ∈ l₂, clears e m → e = m := fun e he =>
        hclear m hm e (hmem.mp (by simp [he]))
      rw [settleAll_append, settleAll_cons] at hx
      refine not_mem_settleAll ?_ ?_ hb hc hx
      · exact mem_settle_self fun p hpS hpb => hm.2 p
          (hmem.mp (mem_append_left _ (mem_of_mem_settleAll_empty hpS))) (R.blocks_le hpb)
      · intro hxs
        by_cases hex : ∃ p ∈ settleAll blocks clears ∅ l₁, blocks p m
        · obtain ⟨p, hpS, hpb⟩ := hex
          have hpl := mem_of_mem_settleAll_empty hpS
          have hpm : p = m :=
            hm.2 p (hmem.mp (mem_append_left _ hpl)) (R.blocks_le hpb)
          exact hfir (hpm ▸ hpl)
        · rw [settle_of_free hex] at hxs
          rcases hxs with rfl | ⟨_, hnc⟩
          · exact hne rfl
          · exact hnc (R.clears_of_le (R.blocks_le hb))
    · intro hx
      refine mem_settleAll (hmem.mpr hx.1) (fun p hp' hb => ?_) fun e he hc =>
        hclear x hx e (hmem.mp he) hc
      rcases hp' with h | h
      · exact absurd h (Set.notMem_empty p)
      · exact hx.2 p (hmem.mp h) (R.blocks_le hb)

/-- An order of arrival of the images comes from an order of arrival. -/
lemma exists_perm_map {β : Type*} {f : β → α} {l : List β} {l' : List α}
    (h : l'.Perm (l.map f)) : ∃ l₁ : List β, l₁.Perm l ∧ l₁.map f = l' := by
  induction l' generalizing l with
  | nil => exact ⟨[], by simpa using h.symm, rfl⟩
  | cons a l' ih =>
    obtain ⟨b, hb, rfl⟩ := mem_map.mp (h.subset (mem_cons_self ..))
    obtain ⟨s, t, rfl⟩ := append_of_mem hb
    have hmid : (s ++ b :: t).Perm (b :: (s ++ t)) := perm_middle
    obtain ⟨l₁, hl₁, hmap⟩ := ih (l := s ++ t) (h.trans (hmid.map f)).cons_inv
    exact ⟨b :: l₁, (hl₁.cons b).trans hmid.symm, by rw [map_cons, hmap]⟩

end
end Krikos.Lib
