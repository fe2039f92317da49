import Krikos.Lib.Bytes
import Krikos.Lib.Table

/-!
# Blobs.TempTag

Temp tags (`krikos-blobs/src/util/temp_tag.rs`): for every scope, how many raw and how many hash
sequence temp tags a hash has. A listing shows exactly the contents with a tag in some scope
(`TempTags.mem_list`), and creating, dropping and releasing tags is counting
(`TempTags.counter_create`, `counter_drop`, `counter_endScope`).
-/

namespace Krikos.Blobs

open Lib Table

abbrev Hash := FixedBytes 32

lemma length_emptyHash : ([175, 19, 73, 185, 245, 249, 161, 166, 160, 64, 77, 234, 54, 220, 201,
    73, 155, 203, 37, 201, 173, 193, 18, 183, 204, 154, 147, 202, 228, 31, 50, 98] :
    Bytes).length = 32 := rfl

/-- `Hash::EMPTY`, the hash of the empty byte string -/
def Hash.empty : Hash := ⟨_, length_emptyHash⟩

inductive BlobFormat where
  | raw
  | hashSeq
  deriving DecidableEq, Repr

def BlobFormat.isRaw : BlobFormat → Bool
  | .raw => true
  | .hashSeq => false

def BlobFormat.isHashSeq : BlobFormat → Bool
  | .raw => false
  | .hashSeq => true

structure HashAndFormat where
  hash : Hash
  format : BlobFormat
  deriving DecidableEq

/-- A scope's number; `Scope::GLOBAL` is zero. -/
abbrev Scope := Nat

/-! ## Counters -/

/-- The counters are `u64`; an overflow, which panics in `inc`, takes 2^64 live temp tags. -/
structure TempCounters where
  raw : Nat
  hashSeq : Nat

namespace TempCounters

def default : TempCounters := ⟨0, 0⟩

variable (c : TempCounters)

def counter : BlobFormat → Nat
  | .raw => c.raw
  | .hashSeq => c.hashSeq

def inc : BlobFormat → TempCounters
  | .raw => { c with raw := c.raw + 1 }
  | .hashSeq => { c with hashSeq := c.hashSeq + 1 }

def dec : BlobFormat → TempCounters
  | .raw => { c with raw := c.raw - 1 }
  | .hashSeq => { c with hashSeq := c.hashSeq - 1 }

def isEmpty : Bool := c.raw == 0 && c.hashSeq == 0

variable {c : TempCounters} {f g : BlobFormat}

lemma counter_inc : (c.inc f).counter g = c.counter g + if f = g then 1 else 0 := by
  cases f <;> cases g <;> rfl

lemma counter_dec : (c.dec f).counter g = c.counter g - if f = g then 1 else 0 := by
  cases f <;> cases g <;> rfl

lemma counter_of_isEmpty (h : c.isEmpty = true) : c.counter f = 0 := by
  simp only [isEmpty, Bool.and_eq_true, beq_iff_eq] at h
  cases f with
  | raw => exact h.1
  | hashSeq => exact h.2

end TempCounters

structure TempCounterMap where
  map : Table Hash TempCounters

namespace TempCounterMap

def default : TempCounterMap := ⟨.empty⟩

def inc (m : TempCounterMap) (value : HashAndFormat) : TempCounterMap :=
  ⟨m.map.insert value.hash (((m.map.get value.hash).getD .default).inc value.format)⟩

def dec (m : TempCounterMap) (value : HashAndFormat) : TempCounterMap :=
  match m.map.get value.hash with
  | none => m
  | some counters =>
    let counters := counters.dec value.format
    if counters.isEmpty then ⟨m.map.remove value.hash⟩ else ⟨m.map.insert value.hash counters⟩

def keysOf (row : Hash × TempCounters) : List HashAndFormat :=
  (if row.2.raw > 0 then [⟨row.1, .raw⟩] else []) ++
    (if row.2.hashSeq > 0 then [⟨row.1, .hashSeq⟩] else [])

def keys (m : TempCounterMap) : List HashAndFormat := m.map.rows.flatMap keysOf

def counter (m : TempCounterMap) (value : HashAndFormat) : Nat :=
  ((m.map.get value.hash).getD .default).counter value.format

variable {m : TempCounterMap} {r value : HashAndFormat}

lemma counter_inc : (m.inc value).counter r = m.counter r + if value = r then 1 else 0 := by
  unfold inc counter
  by_cases hh : r.hash = value.hash
  · rw [hh, get_insert_self, Option.getD_some, TempCounters.counter_inc]
    have hiff : value.format = r.format ↔ value = r := by
      cases value
      cases r
      simp_all
    simp only [hiff]
  · rw [get_insert_of_ne hh]
    have hne : value ≠ r := fun h => hh (by rw [h])
    simp [hne]

lemma counter_dec : (m.dec value).counter r = m.counter r - if value = r then 1 else 0 := by
  have hiff (hh : r.hash = value.hash) : value.format = r.format ↔ value = r := by
    cases value
    cases r
    simp_all
  unfold dec
  cases hg : m.map.get value.hash with
  | none =>
    by_cases hv : value = r
    · subst hv
      simp only [counter, hg, Option.getD_none]
      cases value.format <;> rfl
    · simp [hv]
  | some counters =>
    dsimp only
    by_cases hh : r.hash = value.hash
    · have hcoun := counters.counter_dec (f := value.format) (g := r.format)
      simp only [hiff hh] at hcoun
      split
      · rename_i hemp
        rw [TempCounters.counter_of_isEmpty hemp] at hcoun
        simp only [counter, hh, get_remove_self, hg, Option.getD_some, Option.getD_none]
        rw [← hcoun]
        cases r.format <;> rfl
      · simp only [counter, hh, get_insert_self, hg, Option.getD_some]
        exact hcoun
    · have hne : value ≠ r := fun h => hh (by rw [h])
      simp only [hne, if_false, Nat.sub_zero, counter]
      split
      · rw [get_remove_of_ne hh]
      · rw [get_insert_of_ne hh]

lemma mem_keysOf {row : Hash × TempCounters} :
    r ∈ keysOf row ↔ r.hash = row.1 ∧ 0 < row.2.counter r.format := by
  obtain ⟨hash, format⟩ := r
  unfold keysOf
  cases format <;> by_cases hraw : 0 < row.2.raw <;> by_cases hseq : 0 < row.2.hashSeq <;>
    simp [hraw, hseq, TempCounters.counter]

lemma mem_keys : r ∈ m.keys ↔ 0 < m.counter r := by
  unfold keys counter
  rw [List.mem_flatMap]
  constructor
  · rintro ⟨row, hrow, hr⟩
    obtain ⟨hhash, hpos⟩ := mem_keysOf.mp hr
    have hg : m.map.get r.hash = some row.2 := by
      rw [hhash]
      exact get_eq_some.mpr hrow
    rw [hg]
    exact hpos
  · intro hpos
    cases hg : m.map.get r.hash with
    | none =>
      rw [hg] at hpos
      cases hf : r.format <;> rw [hf] at hpos <;> exact absurd hpos (Nat.lt_irrefl 0)
    | some counters =>
      rw [hg] at hpos
      exact ⟨_, get_eq_some.mp hg, mem_keysOf.mpr ⟨rfl, hpos⟩⟩

end TempCounterMap

/-! ## Scopes -/

structure TempTags where
  scopes : Table Scope TempCounterMap
  nextScope : Nat

namespace TempTags

def default : TempTags := ⟨.empty, 0⟩

variable (t : TempTags) (scope : Scope)

def scopeOf : TempCounterMap := (t.scopes.get scope).getD .default

def createScope : TempTags × Scope :=
  let id := t.nextScope + 1
  (⟨t.scopes.insert id (t.scopeOf id), id⟩, id)

def endScope : TempTags := { t with scopes := t.scopes.remove scope }

def list : List HashAndFormat := t.scopes.rows.flatMap fun row => row.2.keys

/-- The tag itself is the pair of the scope and the content. -/
def create (content : HashAndFormat) : TempTags :=
  { t with scopes := t.scopes.insert scope ((t.scopeOf scope).inc content) }

/-- `TempTagScope::on_drop`: a tag whose scope is gone has nothing to upgrade to. -/
def drop (content : HashAndFormat) : TempTags :=
  match t.scopes.get scope with
  | none => t
  | some counters => { t with scopes := t.scopes.insert scope (counters.dec content) }

def counter (t : TempTags) (scope : Scope) (content : HashAndFormat) : Nat :=
  (t.scopeOf scope).counter content

variable {t : TempTags} {scope scope' : Scope} {r content : HashAndFormat}

lemma counter_default : default.counter scope r = 0 := by
  cases hf : r.format <;> simp [counter, scopeOf, default, TempCounterMap.counter,
    TempCounterMap.default, TempCounters.default, TempCounters.counter, Table.get, hf]

lemma counter_congr {t' : TempTags} (h : t'.scopes.get scope = t.scopes.get scope) :
    t'.counter scope r = t.counter scope r := by
  simp only [counter, scopeOf, h]

lemma counter_insert {counters : TempCounterMap} {next : Nat} :
    (⟨t.scopes.insert scope counters, next⟩ : TempTags).counter scope r = counters.counter r := by
  simp only [counter, scopeOf, get_insert_self, Option.getD_some]

lemma counter_create : (t.create scope content).counter scope' r =
    t.counter scope' r + if (scope, content) = (scope', r) then 1 else 0 := by
  by_cases hs : scope' = scope
  · subst hs
    simp only [create, counter_insert, TempCounterMap.counter_inc, Prod.mk.injEq, true_and]
    rfl
  · have hne : (scope, content) ≠ (scope', r) := fun h => hs (congrArg Prod.fst h).symm
    rw [counter_congr (t := t) (get_insert_of_ne hs), if_neg hne, Nat.add_zero]

lemma counter_drop : (t.drop scope content).counter scope' r =
    t.counter scope' r - if (scope, content) = (scope', r) then 1 else 0 := by
  unfold drop
  cases hg : t.scopes.get scope with
  | none =>
    by_cases hs : (scope, content) = (scope', r)
    · cases hs
      have hdef : t.scopes.get scope = default.scopes.get scope := hg
      rw [counter_congr hdef, counter_default]
      exact (Nat.zero_sub _).symm
    · simp [hs]
  | some counters =>
    by_cases hs : scope' = scope
    · subst hs
      simp only [counter_insert, TempCounterMap.counter_dec, Prod.mk.injEq, true_and]
      simp only [counter, scopeOf, hg, Option.getD_some]
    · have hne : (scope, content) ≠ (scope', r) := fun h => hs (congrArg Prod.fst h).symm
      rw [if_neg hne, Nat.sub_zero]
      exact counter_congr (get_insert_of_ne hs)

lemma counter_endScope (h : scope' ≠ scope) :
    (t.endScope scope).counter scope' r = t.counter scope' r :=
  counter_congr (get_remove_of_ne h)

lemma counter_createScope : t.createScope.1.counter scope r = t.counter scope r := by
  by_cases hs : scope = t.nextScope + 1
  · subst hs
    simp only [createScope, counter_insert]
    rfl
  · exact counter_congr (get_insert_of_ne hs)

lemma mem_list : r ∈ t.list ↔ ∃ scope, 0 < t.counter scope r := by
  unfold list counter scopeOf
  rw [List.mem_flatMap]
  constructor
  · rintro ⟨⟨scope, counters⟩, hrow, hr⟩
    refine ⟨scope, ?_⟩
    rw [Table.get_eq_some.mpr hrow]
    exact TempCounterMap.mem_keys.mp hr
  · rintro ⟨scope, hpos⟩
    cases hg : t.scopes.get scope with
    | none =>
      rw [hg] at hpos
      cases hf : r.format <;> simp [TempCounterMap.counter, TempCounterMap.default, Table.get,
        TempCounters.default, TempCounters.counter, hf] at hpos
    | some counters =>
      rw [hg] at hpos
      exact ⟨_, Table.get_eq_some.mp hg, TempCounterMap.mem_keys.mpr hpos⟩

end TempTags
end Krikos.Blobs
