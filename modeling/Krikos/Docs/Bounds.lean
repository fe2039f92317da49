import Krikos.Docs.Entry
import Krikos.Lib.Table

/-!
# Docs.Bounds

Ranges of the records tables (`store/fs/bounds.rs`).

All namespaces share one table, so a namespace is a range of keys; it ends at the next namespace,
which `incrementByOne` computes. `contains_ofNamespace` says that this range is exact, and
`contains_clampToNamespace` that clamping intersects with it. The range of a key prefix ends at
the incremented prefix; it has other keys in it, too, if the increment carries
(`exists_inPrefixRange`), and is exact otherwise (`inPrefixRange_iff`).
-/

namespace Krikos.Docs

open Lib Bound List

/-! ## The next byte string -/

/-- The loop of `increment_by_one`, from the last byte to the first. -/
def incrementReversed : Bytes → Option Bytes
  | [] => none
  | c :: rest =>
    if c ≠ 255 then some ((c + 1) :: rest)
    else
      match incrementReversed rest with
      | some rest => some (0 :: rest)
      | none => none

/-- Increments the last byte that is not 255 and zeroes the bytes after it; `none` if all bytes
are 255. -/
def incrementByOne (value : Bytes) : Option Bytes :=
  match incrementReversed value.reverse with
  | some value => some value.reverse
  | none => none

lemma incrementReversed_append (v : Bytes) (b : Byte) : incrementReversed (v ++ [b]) =
      match incrementReversed v with
      | some w => some (w ++ [b])
      | none => if b = 255 then none else some (replicate v.length 0 ++ [b + 1]) := by
  induction v with
  | nil =>
    by_cases hb : b = 255
    · simp [incrementReversed, hb]
    · simp [incrementReversed, hb]
  | cons c v ih =>
    by_cases hc : c = 255
    · subst hc
      simp only [cons_append, incrementReversed, ne_eq, not_true, if_false, ih]
      cases hv : incrementReversed v with
      | some w => rfl
      | none =>
        by_cases hb : b = 255
        · simp [hb]
        · simp [hb, replicate_succ]
    · simp [incrementReversed, hc]

/-- The same computation from the first byte to the last. -/
lemma incrementByOne_cons (b : Byte) (v : Bytes) : incrementByOne (b :: v) =
      match incrementByOne v with
      | some w => some (b :: w)
      | none => if b = 255 then none else some ((b + 1) :: replicate v.length 0) := by
  simp only [incrementByOne, reverse_cons, incrementReversed_append]
  cases hv : incrementReversed v.reverse with
  | some w => simp
  | none =>
    by_cases hb : b = 255
    · simp [hb]
    · simp [hb]

variable {v w t : Bytes}

lemma incrementByOne_cases {b : Byte} (h : incrementByOne (b :: v) = some w) :
    (∃ w', incrementByOne v = some w' ∧ w = b :: w') ∨
      (incrementByOne v = none ∧ b < b + 1 ∧ w = (b + 1) :: replicate v.length 0) := by
  rw [incrementByOne_cons] at h
  cases hv : incrementByOne v with
  | some w' =>
    simp only [hv, Option.some.injEq] at h
    exact .inl ⟨w', rfl, h.symm⟩
  | none =>
    by_cases hb : b = 255
    · simp [hv, hb] at h
    · simp only [hv, hb, if_false, Option.some.injEq] at h
      exact .inr ⟨rfl, Fin.lt_add_one_iff.mpr (lt_of_le_of_ne (Fin.le_last b) hb), h.symm⟩

lemma incrementByOne_none {b : Byte} (h : incrementByOne (b :: v) = none) :
    b = 255 ∧ incrementByOne v = none := by
  rw [incrementByOne_cons] at h
  cases hv : incrementByOne v with
  | some w' => simp [hv] at h
  | none =>
    by_cases hb : b = 255
    · exact ⟨hb, rfl⟩
    · simp [hv, hb] at h

lemma incrementByOne_length (h : incrementByOne v = some w) : w.length = v.length := by
  induction v generalizing w with
  | nil => cases h
  | cons b v ih =>
    obtain ⟨w', hw', rfl⟩ | ⟨_, _, rfl⟩ := incrementByOne_cases h
    · simp [ih hw']
    · simp

lemma lt_incrementByOne (hp : v <+: t) (h : incrementByOne v = some w) : t < w := by
  induction v generalizing t w with
  | nil => cases h
  | cons b v ih =>
    obtain ⟨u, rfl⟩ := hp
    obtain ⟨w', hw', rfl⟩ | ⟨_, hlt, rfl⟩ := incrementByOne_cases h
    · exact Bytes.cons_lt_cons.mpr (.inr ⟨rfl, ih (prefix_append v u) hw'⟩)
    · exact Bytes.cons_lt_cons.mpr (.inl hlt)

lemma prefix_of_incrementByOne_none (h : incrementByOne v = none) (hle : v ≤ t) : v <+: t := by
  induction v generalizing t with
  | nil => exact nil_prefix
  | cons b v ih =>
    obtain ⟨rfl, hv⟩ := incrementByOne_none h
    cases t with
    | nil => exact absurd hle (not_le.mpr (nil_lt_cons _ _))
    | cons c t =>
      cases Bytes.cons_le_cons.mp hle with
      | inl hlt => exact absurd hlt (not_lt.mpr (Fin.le_last c))
      | inr heq => exact cons_prefix_cons.mpr ⟨heq.1, ih hv heq.2⟩

variable {n : Nat}

lemma prefix_zeros (h : t < replicate n 0) : t <+: replicate n 0 := by
  induction t generalizing n with
  | nil => exact nil_prefix
  | cons c t ih =>
    cases n with
    | zero => exact absurd h (not_lt_nil _)
    | succ n =>
      rw [replicate_succ] at h ⊢
      cases Bytes.cons_lt_cons.mp h with
      | inl hlt => exact absurd hlt (not_lt.mpr (Fin.zero_le c))
      | inr heq => exact cons_prefix_cons.mpr ⟨heq.1, ih heq.2⟩

/-- Between a string and its increment are the strings under it, and what the carry leaves: the
strings that the increment begins with. -/
lemma prefix_or_prefix_of_lt (h : incrementByOne v = some w) (hle : v ≤ t)
    (hlt : t < w) : v <+: t ∨ t <+: w := by
  induction v generalizing t w with
  | nil => cases h
  | cons b v ih =>
    cases t with
    | nil => exact .inr nil_prefix
    | cons c t =>
      obtain ⟨w', hw', rfl⟩ | ⟨hv, hbb, rfl⟩ := incrementByOne_cases h
      · rcases Bytes.cons_le_cons.mp hle with hbc | ⟨rfl, hvt⟩
        · rcases Bytes.cons_lt_cons.mp hlt with hcb | ⟨rfl, _⟩
          · exact absurd hbc (lt_asymm hcb)
          · exact absurd hbc (lt_irrefl c)
        · rcases Bytes.cons_lt_cons.mp hlt with hcb | ⟨_, htw⟩
          · exact absurd hcb (lt_irrefl b)
          · rcases ih hw' hvt htw with hp | hp
            · exact .inl (cons_prefix_cons.mpr ⟨rfl, hp⟩)
            · exact .inr (cons_prefix_cons.mpr ⟨rfl, hp⟩)
      · rcases Bytes.cons_lt_cons.mp hlt with hcb | ⟨rfl, htw⟩
        · have hcb : c ≤ b := Fin.le_def.mpr (by
            have hval : (b + 1).val = (b.val + 1) % 256 := rfl
            rw [Fin.lt_def] at hcb hbb
            omega)
          rcases Bytes.cons_le_cons.mp hle with hbc | ⟨rfl, hvt⟩
          · exact absurd hbc (not_lt.mpr hcb)
          · exact .inl (cons_prefix_cons.mpr ⟨rfl, prefix_of_incrementByOne_none hv hvt⟩)
        · exact .inr (cons_prefix_cons.mpr ⟨rfl, prefix_zeros htw⟩)

lemma eq_of_lt_incrementByOne (hlen : t.length = v.length)
    (h : incrementByOne v = some w) (hle : v ≤ t) (hlt : t < w) : t = v := by
  rcases prefix_or_prefix_of_lt h hle hlt with hp | hp
  · exact (hp.eq_of_length hlen.symm).symm
  · have heq : t = w := hp.eq_of_length (hlen.trans (incrementByOne_length h).symm)
    exact absurd hlt (heq ▸ lt_irrefl t)

lemma incrementByOne_concat (u : Bytes) (b : Byte) : incrementByOne (u ++ [b]) =
      if b = 255 then (incrementByOne u).map (· ++ [0]) else some (u ++ [b + 1]) := by
  simp only [incrementByOne, reverse_append, reverse_singleton, singleton_append, incrementReversed]
  by_cases hb : b = 255
  · simp only [hb, ne_eq, not_true, if_false, if_true]
    cases incrementReversed u.reverse with
    | none => rfl
    | some w => simp
  · simp [hb]

lemma incrementByOne_eq_none : incrementByOne v = none ↔ ∀ b ∈ v, b = 255 := by
  induction v with
  | nil => simp [incrementByOne, incrementReversed]
  | cons b v ih =>
    rw [forall_mem_cons, ← ih, incrementByOne_cons]
    cases incrementByOne v with
    | some w | none => simp

def incrementFixed {n : Nat} (value : FixedBytes n) : Option (FixedBytes n) :=
  match h : incrementByOne value.1 with
  | some w => some ⟨w, (incrementByOne_length h).trans value.2⟩
  | none => none

lemma incrementFixed_some {v w : FixedBytes n} (h : incrementFixed v = some w) :
    incrementByOne v.1 = some w.1 := by
  unfold incrementFixed at h
  split at h
  · rename_i w' hw'
    cases h
    exact hw'
  · cases h

lemma incrementFixed_none {v : FixedBytes n} (h : incrementFixed v = none) :
    incrementByOne v.1 = none := by
  unfold incrementFixed at h
  split at h
  · cases h
  · rename_i hv
    exact hv

lemma incrementFixed_lt_iff {v w t : FixedBytes n} (h : incrementFixed v = some w) :
    v ≤ t ∧ t < w ↔ t = v := by
  constructor
  · rintro ⟨hle, hlt⟩
    exact Subtype.ext
      (eq_of_lt_incrementByOne (t.2.trans v.2.symm) (incrementFixed_some h) hle hlt)
  · rintro rfl
    exact ⟨le_rfl, lt_incrementByOne prefix_rfl (incrementFixed_some h)⟩

lemma incrementFixed_le_iff {v t : FixedBytes n} (h : incrementFixed v = none) : v ≤ t ↔ t = v := by
  constructor
  · intro hle
    have hp := prefix_of_incrementByOne_none (incrementFixed_none h) hle
    exact Subtype.ext (hp.eq_of_length (v.2.trans t.2.symm)).symm
  · rintro rfl
    exact le_rfl

/-! ## Bounds on the records table -/

inductive KeyFilter where
  | any
  | exact (key : Bytes)
  | keyPrefix (key : Bytes)

abbrev RecordsBounds := Bounds RecordsId

namespace RecordsBounds
variable (ns : NamespaceId)

def first : RecordsId := ⟨ns, FixedBytes.zero 32, []⟩

def namespaceStart : Bound RecordsId := .included (first ns)

def namespaceEnd : Bound RecordsId :=
  match incrementFixed ns with
  | some nsEnd => .excluded (first nsEnd)
  | none => .unbounded

def ofNamespace : RecordsBounds := ⟨namespaceStart ns, namespaceEnd ns⟩

def fromStart (stop : Bound RecordsId) : RecordsBounds :=
  ⟨namespaceStart ns, stop⟩

def toEnd (start : Bound RecordsId) : RecordsBounds :=
  ⟨start, namespaceEnd ns⟩

def authorKey (author : AuthorId) (keyMatcher : KeyFilter) : RecordsBounds :=
  let key :=
    match keyMatcher with
    | .any => []
    | .exact key => key
    | .keyPrefix key => key
  let start : RecordsId := ⟨ns, author, key⟩
  let stop : Bound RecordsId :=
    match keyMatcher with
    | .exact _ => .included start
    | _ =>
      match incrementByOne key with
      | some keyEnd => .excluded ⟨ns, author, keyEnd⟩
      | none =>
        match incrementFixed author with
        | some authorEnd => .excluded ⟨ns, authorEnd, []⟩
        | none => namespaceEnd ns
  ⟨.included start, stop⟩

def authorPrefix (author : AuthorId) (key : Bytes) : RecordsBounds :=
  authorKey ns author (.keyPrefix key)

/-- The tighter of a lower end and the start of the namespace. -/
def clampStart : Bound RecordsId → Bound RecordsId
  | .included remote => .included (max remote (first ns))
  | .excluded remote => if first ns ≤ remote then .excluded remote else namespaceStart ns
  | .unbounded => namespaceStart ns

/-- The tighter of an upper end and the end of the namespace. -/
def clampEnd (stop : Bound RecordsId) : Bound RecordsId :=
  match stop, namespaceEnd ns with
  | .excluded remote, .excluded nsEnd => .excluded (min remote nsEnd)
  | .included remote, .excluded nsEnd =>
    if remote < nsEnd then .included remote else .excluded nsEnd
  | .excluded remote, .unbounded => .excluded remote
  | .included remote, .unbounded => .included remote
  | _, nsEnd => nsEnd

def isEmpty : RecordsBounds → Bool
  | ⟨.included s, .excluded e⟩ => e ≤ s
  | ⟨.excluded s, .excluded e⟩ => e ≤ s
  | ⟨.excluded s, .included e⟩ => e ≤ s
  | ⟨.included s, .included e⟩ => e < s
  | _ => false

/-- Intersects with a namespace; inverted bounds become a range that selects nothing. -/
def clampToNamespace (b : RecordsBounds) (ns : NamespaceId) : RecordsBounds :=
  let clamped : RecordsBounds := ⟨clampStart ns b.start, clampEnd ns b.stop⟩
  if isEmpty clamped then ⟨.included (first ns), .excluded (first ns)⟩ else clamped

variable {ns : NamespaceId} {author : AuthorId} {id : RecordsId} {b : RecordsBounds} {key t : Bytes}

lemma lt_first_iff : id < first ns ↔ id.ns < ns := by
  rw [RecordsId.lt_iff]
  refine ⟨?_, Or.inl⟩
  rintro (h | ⟨_, h | ⟨_, h⟩⟩)
  · exact h
  · exact absurd h (not_lt.mpr (FixedBytes.zero_le id.author))
  · exact absurd h (not_lt_nil _)

lemma first_le_iff : first ns ≤ id ↔ ns ≤ id.ns := by
  rw [← not_lt, lt_first_iff, not_lt]

lemma admitsFrom_namespaceStart : (namespaceStart ns).admitsFrom id = true ↔ ns ≤ id.ns := by
  simp only [namespaceStart, admitsFrom, decide_eq_true_eq, first_le_iff]

lemma contains_ofNamespace : (ofNamespace ns).contains id = true ↔ id.ns = ns := by
  rw [Bounds.contains_iff, ofNamespace, admitsFrom_namespaceStart]
  cases hinc : incrementFixed ns with
  | some nsEnd =>
    simp only [namespaceEnd, hinc, admitsTo, decide_eq_true_eq, lt_first_iff]
    exact incrementFixed_lt_iff hinc
  | none =>
    simp only [namespaceEnd, hinc, admitsTo, and_true]
    exact incrementFixed_le_iff hinc

/-! ### Clamping -/

lemma admitsFrom_clampStart {start : Bound RecordsId} : (clampStart ns start).admitsFrom id = true ↔
      start.admitsFrom id = true ∧ (namespaceStart ns).admitsFrom id = true := by
  cases start with
  | included remote =>
    simp only [clampStart, namespaceStart, admitsFrom, decide_eq_true_eq, max_le_iff]
  | excluded remote =>
    simp only [clampStart, namespaceStart]
    split
    · rename_i hle
      simp only [admitsFrom, decide_eq_true_eq]
      exact ⟨fun h => ⟨h, hle.trans h.le⟩, And.left⟩
    · rename_i hlt
      simp only [admitsFrom, decide_eq_true_eq]
      exact ⟨fun h => ⟨(not_le.mp hlt).trans_le h, h⟩, And.right⟩
  | unbounded => simp only [clampStart, admitsFrom, true_and]

lemma admitsTo_clampEnd {stop : Bound RecordsId} : (clampEnd ns stop).admitsTo id = true ↔
      stop.admitsTo id = true ∧ (namespaceEnd ns).admitsTo id = true := by
  cases hinc : incrementFixed ns with
  | none =>
    have hend : namespaceEnd ns = .unbounded := by simp only [namespaceEnd, hinc]
    cases stop with
    | included remote | excluded remote | unbounded =>
      simp only [clampEnd, hend, admitsTo, and_true]
  | some nsEnd =>
    have hend : namespaceEnd ns = .excluded (first nsEnd) := by simp only [namespaceEnd, hinc]
    cases stop with
    | included remote =>
      simp only [clampEnd, hend]
      split
      · rename_i hlt
        simp only [admitsTo, decide_eq_true_eq]
        exact ⟨fun h => ⟨h, h.trans_lt hlt⟩, And.left⟩
      · rename_i hle
        simp only [admitsTo, decide_eq_true_eq]
        exact ⟨fun h => ⟨h.le.trans (not_lt.mp hle), h⟩, And.right⟩
    | excluded remote => simp only [clampEnd, hend, admitsTo, decide_eq_true_eq, lt_min_iff]
    | unbounded => simp only [clampEnd, hend, admitsTo, true_and]

lemma not_contains_of_isEmpty (h : isEmpty b = true) : ¬ b.contains id = true := by
  rw [Bounds.contains_iff]
  intro hc
  unfold isEmpty at h
  split at h <;> simp only [admitsFrom, admitsTo, decide_eq_true_eq] at h hc
  · exact absurd (hc.1.trans_lt hc.2) (not_lt.mpr h)
  · exact absurd (hc.1.trans hc.2) (not_lt.mpr h)
  · exact absurd (hc.1.trans_le hc.2) (not_lt.mpr h)
  · exact absurd (hc.1.trans hc.2) (not_le.mpr h)
  · cases h

lemma contains_clampToNamespace :
    (clampToNamespace b ns).contains id = true ↔ b.contains id = true ∧ id.ns = ns := by
  have hclam : (⟨clampStart ns b.start, clampEnd ns b.stop⟩ : RecordsBounds).contains id = true ↔
      b.contains id = true ∧ id.ns = ns := by
    rw [← contains_ofNamespace, Bounds.contains_iff, Bounds.contains_iff, Bounds.contains_iff,
      admitsFrom_clampStart, admitsTo_clampEnd]
    exact and_and_and_comm
  simp only [clampToNamespace]
  split
  · rename_i hemp
    have hno : ¬ (⟨.included (first ns), .excluded (first ns)⟩ : RecordsBounds).contains id = true :=
      not_contains_of_isEmpty (by simp [isEmpty])
    exact iff_of_false hno fun h => not_contains_of_isEmpty hemp (hclam.mpr h)
  · exact hclam

/-- The start lies after the end. -/
def inverted : RecordsBounds → Bool
  | ⟨.included s, .included e⟩ | ⟨.included s, .excluded e⟩
  | ⟨.excluded s, .included e⟩ | ⟨.excluded s, .excluded e⟩ => e < s
  | _ => false

lemma inverted_of_not_isEmpty (h : isEmpty b = false) : inverted b = false := by
  unfold inverted
  split
  · exact h
  · exact decide_eq_false fun hlt => of_decide_eq_false h hlt.le
  · exact decide_eq_false fun hlt => of_decide_eq_false h hlt.le
  · exact decide_eq_false fun hlt => of_decide_eq_false h hlt.le
  · rfl

lemma inverted_clampToNamespace (b : RecordsBounds) (ns : NamespaceId) :
    inverted (clampToNamespace b ns) = false := by
  simp only [clampToNamespace]
  split
  · exact decide_eq_false (lt_irrefl _)
  · rename_i hemp
    exact inverted_of_not_isEmpty (Bool.eq_false_iff.mpr hemp)

lemma inverted_ofNamespace (ns : NamespaceId) : inverted (ofNamespace ns) = false := by
  cases hinc : incrementFixed ns with
  | none => simp only [ofNamespace, namespaceStart, namespaceEnd, hinc, inverted]
  | some nsEnd =>
    simp only [ofNamespace, namespaceStart, namespaceEnd, hinc, inverted, decide_eq_false_iff_not,
      not_lt, first_le_iff]
    exact ((incrementFixed_lt_iff hinc).mpr rfl).2.le

/-! ### Key prefixes -/

/-- Keys from `key` up to the incremented `key`. -/
def inPrefixRange (key t : Bytes) : Bool :=
  decide (key ≤ t) &&
    match incrementByOne key with
    | some keyEnd => decide (t < keyEnd)
    | none => true

lemma inPrefixRange_of_prefix (h : key <+: t) : inPrefixRange key t = true := by
  rw [inPrefixRange, decide_eq_true (Bytes.le_of_prefix h), Bool.true_and]
  cases hinc : incrementByOne key with
  | some keyEnd => exact decide_eq_true (lt_incrementByOne h hinc)
  | none => rfl

/-- The increment of the prefix carries: it ends in 255, and other bytes are before that. -/
def Carries (key : Bytes) : Prop := key.getLast? = some 255 ∧ ∃ b ∈ key, b ≠ 255

/-- The range of a prefix is exact unless its increment carries. -/
lemma inPrefixRange_iff (h : ¬ Carries key) : inPrefixRange key t = true ↔ key <+: t := by
  refine ⟨fun hin => ?_, inPrefixRange_of_prefix⟩
  rw [inPrefixRange, Bool.and_eq_true, decide_eq_true_eq] at hin
  obtain ⟨hle, hlt⟩ := hin
  cases hinc : incrementByOne key with
  | none => exact prefix_of_incrementByOne_none hinc hle
  | some w =>
    rw [hinc] at hlt
    have hlt : t < w := of_decide_eq_true hlt
    refine (prefix_or_prefix_of_lt hinc hle hlt).resolve_right fun hp => ?_
    obtain rfl | ⟨u, b, rfl⟩ := eq_nil_or_concat' key
    · cases hinc
    · rw [incrementByOne_concat] at hinc
      split at hinc
      · rename_i hb
        refine h ⟨by simp [hb], ?_⟩
        by_contra hall
        have hnone : incrementByOne u = none :=
          incrementByOne_eq_none.mpr fun c hc => by_contra fun hne => hall ⟨c, by simp [hc], hne⟩
        rw [hnone] at hinc
        cases hinc
      · -- without a carry what the increment begins with is at or below the prefix
        cases hinc
        rcases prefix_concat_iff.mp hp with heq | hp
        · exact lt_irrefl _ (heq ▸ hlt)
        · have heq : t = u ++ [b] :=
            le_antisymm (Bytes.le_of_prefix (hp.trans (prefix_append u [b]))) hle
          have hlen := (heq ▸ hp).length_le
          simp at hlen

/-- A carry leaves a string in the range that is shorter than the prefix. -/
lemma exists_inPrefixRange (h : Carries key) : ∃ t, inPrefixRange key t = true ∧ ¬ key <+: t := by
  obtain ⟨hlast, c, hc, hne⟩ := h
  obtain ⟨u, rfl⟩ := getLast?_eq_some_iff.mp hlast
  have hcu : c ∈ u := by simpa [hne] using hc
  cases hinc : incrementByOne u with
  | none => exact absurd (incrementByOne_eq_none.mp hinc c hcu) hne
  | some w =>
    have hlen := incrementByOne_length hinc
    refine ⟨w, ?_, fun hp => ?_⟩
    · have hlt : u < w := lt_incrementByOne prefix_rfl hinc
      have hle : u ++ [255] < w ++ [] := (Bytes.append_lt_append hlen.symm).mpr (.inl hlt)
      have hup : w ++ [] < w ++ [0] :=
        (Bytes.append_lt_append rfl).mpr (.inr ⟨rfl, nil_lt_cons _ _⟩)
      rw [append_nil] at hle hup
      rw [inPrefixRange, incrementByOne_concat, if_pos rfl, hinc]
      simp [hle.le, hup]
    · have hle := hp.length_le
      simp only [length_append, length_singleton] at hle
      omega

lemma contains_authorPrefix : (authorPrefix ns author key).contains id = true ↔
      id.ns = ns ∧ id.author = author ∧ inPrefixRange key id.key = true := by
  rw [Bounds.contains_iff]
  simp only [authorPrefix, authorKey, admitsFrom, decide_eq_true_eq, inPrefixRange,
    Bool.and_eq_true]
  cases hkey : incrementByOne key with
  | some keyEnd =>
    simp only [admitsTo, decide_eq_true_eq, RecordsId.le_iff, RecordsId.lt_iff]
    grind
  | none =>
    cases haut : incrementFixed author with
    | some authorEnd =>
      have hnext := incrementFixed_lt_iff (t := id.author) haut
      have hnil := not_lt_nil id.key
      simp only [admitsTo, decide_eq_true_eq, RecordsId.le_iff, RecordsId.lt_iff]
      grind
    | none =>
      have hlast := incrementFixed_le_iff (t := id.author) haut
      have hns := @contains_ofNamespace ns id
      rw [Bounds.contains_iff, ofNamespace, admitsFrom_namespaceStart] at hns
      simp only [RecordsId.le_iff]
      grind

end RecordsBounds
end Krikos.Docs
