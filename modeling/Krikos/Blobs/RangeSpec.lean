import Krikos.Lib.Bytes
import Krikos.Lib.Check
import Krikos.Lib.RangeSet

/-!
# Blobs.RangeSpec

Range sequences (`krikos-blobs/src/protocol/range_spec.rs`): which chunks of a blob and of the blobs
that it lists are selected. A sequence names the blobs at which the chunk set changes. On the wire it
has the distances between these blobs, and for each chunk set the widths of its spans.

The iterator over the selected blobs makes one turn for each blob up to the last transition.
-/

namespace Krikos.Blobs.Protocol

open Lib

abbrev ChunkRanges := RangeSet U64

def MAX_RANGE_TRANSITIONS : Nat := 4096

def MAX_RANGE_BOUNDARIES_PER_BLOB : Nat := 4096

/-- Alternating spans, the first one not selected. -/
abbrev RangeSpec := List U64

abbrev RangeSpecSeq := List (U64 × RangeSpec)

/-! ## Chunk sets on the wire -/

namespace RangeSpec

/-- The sums wrap around. -/
def toChunkRangesLoop (current : U64) (on : Bool) (ranges : ChunkRanges) : RangeSpec → ChunkRanges
  | width :: rest =>
    let next := current + width
    toChunkRangesLoop next (!on) (if on then ranges.union (.range current next) else ranges) rest
  | [] => if on then ranges.union (.from_ current) else ranges

def toChunkRanges (spec : RangeSpec) : ChunkRanges := toChunkRangesLoop 0 false .empty spec

def spanEnds (current : Nat) : RangeSpec → List Nat
  | [] => []
  | width :: rest => (current + width.val) :: spanEnds (current + width.val) rest

/-- Some sum of `to_chunk_ranges` does not fit into 64 bits. -/
def overflows (current : U64) : RangeSpec → Bool
  | [] => false
  | width :: rest => decide (2 ^ 64 ≤ current.val + width.val) || overflows (current + width) rest

lemma val_add {a b : U64} (h : a.val + b.val < 2 ^ 64) : (a + b).val = a.val + b.val := by
  rw [Fin.val_add, Nat.mod_eq_of_lt h]

variable {spec : RangeSpec}

lemma le_of_mem_spanEnds {current e : Nat} (h : e ∈ spanEnds current spec) : current ≤ e := by
  induction spec generalizing current with
  | nil => cases h
  | cons width rest ih =>
    rcases List.mem_cons.mp h with rfl | h
    · exact Nat.le_add_right _ _
    · have hle := ih h
      omega

lemma overflows_iff {current : U64} :
    overflows current spec = false ↔ current.val + (spec.map Fin.val).sum < 2 ^ 64 := by
  induction spec generalizing current with
  | nil => simp [overflows]
  | cons width rest ih =>
    simp only [overflows, Bool.or_eq_false_iff, decide_eq_false_iff_not, Nat.not_le, List.map_cons,
      List.sum_cons]
    by_cases h : current.val + width.val < 2 ^ 64
    · rw [ih, val_add h]
      omega
    · omega

lemma contains_toChunkRangesLoop {current : U64} {on : Bool} {ranges : ChunkRanges}
    (h : overflows current spec = false) (x : U64) :
    (toChunkRangesLoop current on ranges spec).contains x = (ranges.contains x ||
      (decide (current ≤ x) && (on ^^ decide (countLE x.val (spanEnds current.val spec) % 2 = 1)))) := by
  induction spec generalizing current on ranges with
  | nil => cases on <;> simp [toChunkRangesLoop, spanEnds]
  | cons width rest ih =>
    simp only [overflows, Bool.or_eq_false_iff, decide_eq_false_iff_not, Nat.not_le] at h
    have hnext := val_add h.1
    have hle : current ≤ current + width := Fin.le_def.mpr (by omega)
    rw [toChunkRangesLoop, ih h.2, spanEnds, countLE_cons, hnext]
    by_cases hx : current + width ≤ x
    · have hx' : current.val + width.val ≤ x.val := hnext ▸ Fin.le_def.mp hx
      have hcx : current ≤ x := hle.trans hx
      have hran : (RangeSet.range current (current + width)).contains x = false := by
        simp [not_lt.mpr hx]
      have hflip : decide ((countLE x.val (spanEnds (current.val + width.val) rest) + 1) % 2 = 1) =
          !decide (countLE x.val (spanEnds (current.val + width.val) rest) % 2 = 1) := by
        rw [← decide_not, decide_eq_decide]
        omega
      cases on <;> simp [hx, hx', hcx, hflip, not_lt.mpr hx]
    · have hx' : ¬ current.val + width.val ≤ x.val := fun hle' => hx (Fin.le_def.mpr (hnext ▸ hle'))
      have hzero : countLE x.val (spanEnds (current.val + width.val) rest) = 0 :=
        countLE_eq_zero fun e he => Nat.lt_of_lt_of_le (Nat.not_le.mp hx') (le_of_mem_spanEnds he)
      cases on <;> simp [hx, hx', hzero, not_le.mp hx]

/-- Without an overflow, the chunks with an odd number of span ends at or below them are selected. -/
lemma contains_toChunkRanges (h : overflows 0 spec = false) (x : U64) :
    spec.toChunkRanges.contains x = decide (countLE x.val (spanEnds 0 spec) % 2 = 1) := by
  rw [toChunkRanges, contains_toChunkRangesLoop h]
  simp

end RangeSpec

/-! ## Sequences -/

/-- Each blob from an offset on, up to the next offset, has the chunk set there. -/
abbrev ChunkRangesSeq := List (U64 × ChunkRanges)

def tooManyTransitions : String := "request contains too many range transitions"

def tooManyBoundaries : String := "request contains too many range boundaries"

def checkedAdd (a b : U64) : Option U64 := if a.val + b.val < 2 ^ 64 then some (a + b) else none

namespace ChunkRangesSeq

def tryFromLoop (offset : U64) : RangeSpecSeq → Except String ChunkRangesSeq
  | [] => .ok []
  | (delta, spec) :: rest => do
    reject (MAX_RANGE_BOUNDARIES_PER_BLOB < spec.length) tooManyBoundaries
    let offset ← okOr (checkedAdd offset delta) "range transition offset overflow"
    let res ← tryFromLoop offset rest
    return (offset, spec.toChunkRanges) :: res

/-- The transitions and chunk sets of a sequence are limited, whoever made it. -/
def validate (seq : ChunkRangesSeq) : Except String Unit := do
  reject (MAX_RANGE_TRANSITIONS < seq.length) tooManyTransitions
  reject (∃ t ∈ seq, MAX_RANGE_BOUNDARIES_PER_BLOB < t.2.boundaries.length) tooManyBoundaries

/-- `none` is an underflow of the second offset. -/
def asSingle : ChunkRangesSeq → Option (Option (U64 × ChunkRanges))
  | [(o₁, v₁), (o₂, v₂)] =>
    if o₂.val = 0 then none
    else some (if o₁.val = o₂.val - 1 ∧ v₂.isEmpty = true then some (o₁, v₁) else none)
  | _ => some none

def isBlob (seq : ChunkRangesSeq) : Option Bool :=
  seq.asSingle.map fun single => single.any fun t => t.1 = 0

def tryFrom (wire : RangeSpecSeq) : Except String ChunkRangesSeq := do
  reject (MAX_RANGE_TRANSITIONS < wire.length) tooManyTransitions
  tryFromLoop 0 wire

end ChunkRangesSeq

/-- `ChunkRangesSeqIterInfinite`; the offset, a `u64`, is the number of items so far. -/
structure ChunkRangesSeqIterInfinite where
  current : ChunkRanges
  offset : Nat
  remaining : ChunkRangesSeq

namespace ChunkRangesSeqIterInfinite

/-- Takes the transitions up to the offset. -/
def settle (offset : Nat) (current : ChunkRanges) : ChunkRangesSeq → ChunkRanges × ChunkRangesSeq
  | (o, r) :: rest => if offset < o.val then (current, (o, r) :: rest) else settle offset r rest
  | [] => (current, [])

def next (it : ChunkRangesSeqIterInfinite) : ChunkRanges × ChunkRangesSeqIterInfinite :=
  let (current, remaining) := settle it.offset it.current it.remaining
  (current, ⟨current, it.offset + 1, remaining⟩)

end ChunkRangesSeqIterInfinite

def ChunkRangesSeq.iterInfinite (seq : ChunkRangesSeq) : ChunkRangesSeqIterInfinite := ⟨.empty, 0, seq⟩

structure NonEmptyRequestRangeSpecIter where
  inner : ChunkRangesSeqIterInfinite
  count : U64

/-- One turn of the loop in `NonEmptyRequestRangeSpecIter::next` -/
inductive Turn where
  | yielded (count : U64) (ranges : ChunkRanges)
  | skipped
  | finished

namespace NonEmptyRequestRangeSpecIter

/-- Advances the inner iterator once. -/
def turn (it : NonEmptyRequestRangeSpecIter) : Turn × NonEmptyRequestRangeSpecIter :=
  let (curr, inner) := it.inner.next
  match checkedAdd it.count 1 with
  | none => (.finished, { it with inner := inner })
  | some count =>
    if !curr.isEmpty then (.yielded it.count curr, ⟨inner, count⟩)
    else if inner.remaining.isEmpty then (.finished, ⟨inner, count⟩)
    else (.skipped, ⟨inner, count⟩)

end NonEmptyRequestRangeSpecIter

def ChunkRangesSeq.iterNonEmptyInfinite (seq : ChunkRangesSeq) : NonEmptyRequestRangeSpecIter :=
  ⟨seq.iterInfinite, 0⟩

/-! ## Decoded sequences -/

namespace ChunkRangesSeq

lemma checkedAdd_eq_some {a b c : U64} (h : checkedAdd a b = some c) : c.val = a.val + b.val := by
  unfold checkedAdd at h
  split at h
  · rename_i hfits
    cases h
    exact RangeSpec.val_add hfits
  · cases h

end ChunkRangesSeq

namespace ChunkRangesSeqIterInfinite
variable {l rest : ChunkRangesSeq} {c r : ChunkRanges} {i j : Nat} {o : U64}

lemma settle_cons_lt (h : i < o.val) : settle i c ((o, r) :: rest) = (c, (o, r) :: rest) :=
  if_pos h

lemma settle_cons_le (h : o.val ≤ i) : settle i c ((o, r) :: rest) = settle i r rest :=
  if_neg (Nat.not_lt.mpr h)

lemma settle_settle (h : i ≤ j) : settle j (settle i c l).1 (settle i c l).2 = settle j c l := by
  induction l generalizing c with
  | nil => rfl
  | cons head rest ih =>
    obtain ⟨o, r⟩ := head
    by_cases ho : i < o.val
    · rw [settle_cons_lt ho]
    · rw [settle_cons_le (Nat.not_lt.mp ho), settle_cons_le ((Nat.not_lt.mp ho).trans h), ih]

lemma settle_after {c' : ChunkRanges} (h : i ≤ j) (hset : settle i c l = (c', rest)) :
    settle j c' rest = settle j c l := by
  have hstep := settle_settle (c := c) (l := l) h
  rwa [hset] at hstep

lemma settle_rest : (settle i c l).2 = [] ↔ ∀ t ∈ l, t.1.val ≤ i := by
  induction l generalizing c with
  | nil => simp [settle]
  | cons head rest ih =>
    obtain ⟨o, r⟩ := head
    rw [List.forall_mem_cons]
    by_cases ho : i < o.val
    · rw [settle_cons_lt ho]
      simp [Nat.not_le.mpr ho]
    · rw [settle_cons_le (Nat.not_lt.mp ho), ih]
      simp [Nat.not_lt.mp ho]

end ChunkRangesSeqIterInfinite

namespace ChunkRangesSeq
variable {seq : ChunkRangesSeq} {c : ChunkRanges}

/-- What a turn at an index does: it ends at the last index and where nothing more is selected. -/
lemma turn_cases {n : Nat} {count : U64} (hcoun : count.val = n) {c' : ChunkRanges}
    {rest : ChunkRangesSeq} (hset : ChunkRangesSeqIterInfinite.settle n c seq = (c', rest)) :
    (¬ n + 1 < 2 ^ 64 ∨ c'.isEmpty = true ∧ rest = []) ∧
      (∃ it, NonEmptyRequestRangeSpecIter.turn ⟨⟨c, n, seq⟩, count⟩ = (.finished, it)) ∨
    ∃ next : U64, next.val = n + 1 ∧
      (c'.isEmpty = false ∧ NonEmptyRequestRangeSpecIter.turn ⟨⟨c, n, seq⟩, count⟩ =
          (.yielded count c', ⟨⟨c', n + 1, rest⟩, next⟩) ∨
        c'.isEmpty = true ∧ rest ≠ [] ∧ NonEmptyRequestRangeSpecIter.turn ⟨⟨c, n, seq⟩, count⟩ =
          (.skipped, ⟨⟨c', n + 1, rest⟩, next⟩)) := by
  unfold NonEmptyRequestRangeSpecIter.turn
  simp only [ChunkRangesSeqIterInfinite.next, hset]
  cases hnext : checkedAdd count 1 with
  | none =>
    refine .inl ⟨.inl fun hlt => ?_, _, rfl⟩
    rw [checkedAdd, if_pos (by rw [hcoun]; exact hlt)] at hnext
    cases hnext
  | some next =>
    have hval : next.val = n + 1 := by
      rw [checkedAdd_eq_some hnext, hcoun]
      rfl
    cases hemp : c'.isEmpty with
    | false => exact .inr ⟨next, hval, .inl ⟨rfl, rfl⟩⟩
    | true =>
      cases rest with
      | nil => exact .inl ⟨.inr ⟨rfl, rfl⟩, _, rfl⟩
      | cons head rest => exact .inr ⟨next, hval, .inr ⟨rfl, List.cons_ne_nil _ _, rfl⟩⟩

end ChunkRangesSeq
end Krikos.Blobs.Protocol
