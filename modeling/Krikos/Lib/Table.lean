import Mathlib.Data.List.Sort

/-!
# Lib.Table

Ordered key-value tables: finite maps whose rows are listed in strictly increasing key order. A
table is determined by its rows as a set (`Table.ext_mem`), and every operation is described by
what it does to that set.
-/

namespace Krikos.Lib

open List

inductive Bound (K : Type) where
  | included (k : K)
  | excluded (k : K)
  | unbounded

/-- A range of keys, given by its two ends. -/
structure Bounds (K : Type) where
  start : Bound K
  stop : Bound K

namespace Bound
variable {K : Type} [LinearOrder K]

/-- The key is within the bound, taken as a lower end. -/
def admitsFrom : Bound K → K → Bool
  | .included s, k => s ≤ k
  | .excluded s, k => s < k
  | .unbounded, _ => true

/-- The key is within the bound, taken as an upper end. -/
def admitsTo : Bound K → K → Bool
  | .included e, k => k ≤ e
  | .excluded e, k => k < e
  | .unbounded, _ => true

end Bound

def Bounds.contains {K : Type} [LinearOrder K] (b : Bounds K) (k : K) : Bool :=
  b.start.admitsFrom k && b.stop.admitsTo k

lemma Bounds.contains_iff {K : Type} [LinearOrder K] {b : Bounds K} {k : K} :
    b.contains k = true ↔ b.start.admitsFrom k = true ∧ b.stop.admitsTo k = true :=
  Bool.and_eq_true_iff

structure Table (K V : Type) [LinearOrder K] where
  rows : List (K × V)
  sorted : rows.Pairwise fun a b => a.1 < b.1

namespace Table
variable {K V : Type} [LinearOrder K] {t : Table K V} {k k' : K} {v v' : V}

instance [DecidableEq V] : DecidableEq (Table K V) := fun a b =>
  decidable_of_iff (a.rows = b.rows) ⟨fun h => by cases a; cases b; cases h; rfl, congrArg rows⟩

def empty : Table K V := ⟨[], List.Pairwise.nil⟩

@[simp] lemma rows_empty : (empty : Table K V).rows = [] := rfl

lemma eq_of_mem (h : (k, v) ∈ t.rows) (h' : (k, v') ∈ t.rows) : v = v' := by
  have hnd : (t.rows.map Prod.fst).Nodup := pairwise_map.mpr (t.sorted.imp ne_of_lt)
  exact congrArg Prod.snd (inj_on_of_nodup_map hnd h h' rfl)

lemma ext_mem {t' : Table K V} (h : ∀ k v, (k, v) ∈ t.rows ↔ (k, v) ∈ t'.rows) : t = t' := by
  obtain ⟨rows, sorted⟩ := t
  obtain ⟨rows', sorted'⟩ := t'
  have hnd : rows.Nodup := sorted.imp fun hlt he => (ne_of_lt hlt) (congrArg Prod.fst he)
  have hnd' : rows'.Nodup := sorted'.imp fun hlt he => (ne_of_lt hlt) (congrArg Prod.fst he)
  have hperm : rows.Perm rows' := (perm_ext_iff_of_nodup hnd hnd').mpr fun a => h a.1 a.2
  have heq : rows = rows' := hperm.eq_of_pairwise
    (fun a b _ _ hab hba => absurd hab (lt_asymm hba)) sorted sorted'
  cases heq
  rfl

lemma keys_nodup (t : Table K V) : (t.rows.map Prod.fst).Nodup :=
  pairwise_map.mpr (t.sorted.imp fun h => ne_of_lt h)

def get (t : Table K V) (k : K) : Option V := (t.rows.find? fun row => row.1 = k).map Prod.snd

lemma get_eq_some : t.get k = some v ↔ (k, v) ∈ t.rows := by
  unfold get
  rw [Option.map_eq_some_iff]
  constructor
  · rintro ⟨row, hrow, rfl⟩
    have hk : row.1 = k := by simpa using find?_some hrow
    rw [← hk]
    exact mem_of_find?_eq_some hrow
  · intro h
    cases hf : t.rows.find? fun row => row.1 = k with
    | none =>
      rw [find?_eq_none] at hf
      exact absurd (decide_eq_true rfl) (hf (k, v) h)
    | some row =>
      have hk : row.1 = k := by simpa using find?_some hf
      have hrow : (k, row.2) ∈ t.rows := by rw [← hk]; exact mem_of_find?_eq_some hf
      exact ⟨row, rfl, eq_of_mem hrow h⟩

lemma get_eq_none : t.get k = none ↔ ∀ v, (k, v) ∉ t.rows := by
  constructor
  · intro h v hv
    rw [get_eq_some.mpr hv] at h
    cases h
  · intro h
    cases hg : t.get k with
    | none => rfl
    | some v => exact absurd (get_eq_some.mp hg) (h v)

/-- Adds a row, replacing the one at its key. -/
def insert (t : Table K V) (k : K) (v : V) : Table K V where
  rows := t.rows.filter (fun row => row.1 < k) ++ (k, v) :: t.rows.filter (fun row => k < row.1)
  sorted := by
    have hlow : ∀ a ∈ t.rows.filter (fun row => row.1 < k), a.1 < k := by simp
    have hhigh : ∀ b ∈ t.rows.filter (fun row => k < row.1), k < b.1 := by simp
    refine pairwise_append.mpr ⟨t.sorted.filter _, ?_, ?_⟩
    · exact pairwise_cons.mpr ⟨hhigh, t.sorted.filter _⟩
    · intro a ha b hb
      cases mem_cons.mp hb with
      | inl hb => rw [hb]; exact hlow a ha
      | inr hb => exact (hlow a ha).trans (hhigh b hb)

lemma mem_insert : (k', v') ∈ (t.insert k v).rows ↔
    (k' = k ∧ v' = v) ∨ (k' ≠ k ∧ (k', v') ∈ t.rows) := by
  simp only [insert, mem_append, mem_cons, mem_filter, decide_eq_true_eq, Prod.mk.injEq]
  constructor
  · rintro (⟨h, hlt⟩ | h | ⟨h, hlt⟩)
    · exact .inr ⟨hlt.ne, h⟩
    · exact .inl h
    · exact .inr ⟨hlt.ne', h⟩
  · rintro (h | ⟨hne, h⟩)
    · exact .inr (.inl h)
    · cases lt_or_gt_of_ne hne with
      | inl hlt => exact .inl ⟨h, hlt⟩
      | inr hlt => exact .inr (.inr ⟨h, hlt⟩)

lemma get_insert_self : (t.insert k v).get k = some v :=
  get_eq_some.mpr (mem_insert.mpr (.inl ⟨rfl, rfl⟩))

lemma get_insert_of_ne (hne : k' ≠ k) : (t.insert k v).get k' = t.get k' := by
  apply Option.ext
  intro u
  rw [get_eq_some, get_eq_some, mem_insert]
  exact ⟨fun h => (h.resolve_left fun hc => hne hc.1).2, fun h => .inr ⟨hne, h⟩⟩

lemma isSome_insert (h : (t.get k').isSome = true) : ((t.insert k v).get k').isSome = true := by
  by_cases hk : k' = k
  · rw [hk, get_insert_self]
    rfl
  · rwa [get_insert_of_ne hk]

def removeIf (t : Table K V) (p : K × V → Bool) : Table K V where
  rows := t.rows.filter fun row => !p row
  sorted := t.sorted.filter _

@[simp] lemma mem_removeIf {p : K × V → Bool} :
    (k, v) ∈ (t.removeIf p).rows ↔ (k, v) ∈ t.rows ∧ p (k, v) = false := by
  simp [removeIf]

def remove (t : Table K V) (k : K) : Table K V := t.removeIf fun row => row.1 = k

lemma mem_remove : (k', v') ∈ (t.remove k).rows ↔ (k', v') ∈ t.rows ∧ k' ≠ k := by
  simp [remove]

lemma get_remove_self : (t.remove k).get k = none :=
  get_eq_none.mpr fun _ h => (mem_remove.mp h).2 rfl

lemma get_remove_of_ne (hne : k' ≠ k) : (t.remove k).get k' = t.get k' := by
  apply Option.ext
  intro u
  rw [get_eq_some, get_eq_some, mem_remove]
  exact and_iff_left hne

/-- The rows whose key satisfies the predicate, in key order. -/
def range (t : Table K V) (p : K → Bool) : List (K × V) := t.rows.filter fun row => p row.1

@[simp] lemma mem_range {p : K → Bool} {row : K × V} :
    row ∈ t.range p ↔ row ∈ t.rows ∧ p row.1 = true := mem_filter

lemma range_sorted (p : K → Bool) : (t.range p).Pairwise fun a b => a.1 < b.1 :=
  t.sorted.filter _

/-! ## Tables that agree on some keys -/

/-- The tables have the same rows at the keys of the predicate. -/
def Agree (p : K → Prop) (t t' : Table K V) : Prop :=
  ∀ k v, p k → ((k, v) ∈ t.rows ↔ (k, v) ∈ t'.rows)

namespace Agree
variable {p : K → Prop} {t' t'' : Table K V}

lemma refl (t : Table K V) : Agree p t t := fun _ _ _ => Iff.rfl

lemma trans (h : Agree p t t') (h' : Agree p t' t'') : Agree p t t'' :=
  fun k v hk => (h k v hk).trans (h' k v hk)

lemma insert (h : Agree p t t') (hk : ¬ p k) : Agree p (t.insert k v) t' := by
  intro k₁ v₁ hk₁
  have hne : k₁ ≠ k := fun heq => hk (heq ▸ hk₁)
  rw [mem_insert, ← h k₁ v₁ hk₁]
  simp [hne]

lemma removeIf (h : Agree p t t') {q : K × V → Bool} (hq : ∀ row, q row = true → ¬ p row.1) :
    Agree p (t.removeIf q) t' := by
  intro k₁ v₁ hk₁
  have hnot : q (k₁, v₁) = false := Bool.eq_false_iff.mpr fun htrue => hq _ htrue hk₁
  rw [mem_removeIf, ← h k₁ v₁ hk₁]
  exact and_iff_left hnot

lemma remove (h : Agree p t t') (hk : ¬ p k) : Agree p (t.remove k) t' := by
  apply h.removeIf
  intro row hrow
  rw [of_decide_eq_true hrow]
  exact hk

lemma get_eq (h : Agree p t t') (hk : p k) : t.get k = t'.get k := by
  apply Option.ext
  intro v
  rw [get_eq_some, get_eq_some]
  exact h k v hk

lemma range_eq (h : Agree p t t') {q : K → Bool} (hq : ∀ k, q k = true → p k) :
    t.range q = t'.range q := by
  have heq : t.removeIf (fun row => !q row.1) = t'.removeIf (fun row => !q row.1) := by
    apply ext_mem
    intro k v
    simp only [mem_removeIf, Bool.not_eq_false']
    constructor
    · rintro ⟨hrow, hk⟩
      exact ⟨(h k v (hq k hk)).mp hrow, hk⟩
    · rintro ⟨hrow, hk⟩
      exact ⟨(h k v (hq k hk)).mpr hrow, hk⟩
  simpa [Table.removeIf, range] using congrArg rows heq

end Agree
end Table
end Krikos.Lib
