import Krikos.Blobs.HashSeq
import Krikos.Blobs.RangeSpec
import Krikos.Lib.Wire

/-!
# Blobs.Provider

Requests as a provider reads them (`krikos-blobs/src/protocol.rs`, `util/stream.rs`), and the loop
that serves a get request (`handle_get_impl` in `provider.rs`).

The number of transitions and of span widths in a request is limited, but neither the widths nor the
offsets are: the sums of widths can overflow, and the loop makes a turn for each blob before a
remote offset, selected or not.
-/

namespace Krikos.Blobs.Protocol

open Lib

/-! ## Requests -/

def MAX_MESSAGE_SIZE : Nat := 1024 * 1024

def MAX_BLOBS_PER_REQUEST : Nat := 4096

/-- A request with range sequences as on the wire, or decoded ones. A push request is a get request
that data follows. -/
inductive Request (σ : Type) where
  | get (hash : Hash) (ranges : σ)
  | observe (hash : Hash) (ranges : RangeSpec)
  | push (hash : Hash) (ranges : σ)
  | getMany (hashes : List Hash) (ranges : σ)

namespace Request
variable {σ : Type}

def seq? : Request σ → Option σ
  | get _ ranges | push _ ranges | getMany _ ranges => some ranges
  | observe _ _ => none

def spec? : Request σ → Option RangeSpec
  | observe _ ranges => some ranges
  | _ => none

/-- Decoding includes the conversion of range sequences (`serde(try_from)`). -/
def decode : Request RangeSpecSeq → Except String (Request ChunkRangesSeq)
  | get hash ranges => do return get hash (← ChunkRangesSeq.tryFrom ranges)
  | observe hash ranges => .ok (observe hash ranges)
  | push hash ranges => do return push hash (← ChunkRangesSeq.tryFrom ranges)
  | getMany hashes ranges => do return getMany hashes (← ChunkRangesSeq.tryFrom ranges)

def validate : Request ChunkRangesSeq → Except String Unit
  | get _ ranges | push _ ranges => ranges.validate
  | observe _ ranges => reject (MAX_RANGE_BOUNDARIES_PER_BLOB < ranges.length) tooManyBoundaries
  | getMany hashes ranges => do
    reject (MAX_BLOBS_PER_REQUEST < hashes.length) "get-many request contains too many hashes"
    ranges.validate

lemma put_u64_pos (n : U64) : 0 < (Wire.u64.put n).length := Wire.putVarint_pos n.val

def rangeSpecWire : Wire RangeSpec := .list .u64 put_u64_pos

def rangeSpecSeqWire : Wire RangeSpecSeq :=
  .list (Wire.u64.pair rangeSpecWire) (Wire.pair_pos put_u64_pos)

lemma put_hash_pos (hash : Hash) : 0 < ((Wire.fixed 32).put hash).length := by
  show 0 < hash.val.length
  rw [hash.property]
  decide

def getWire : Wire (Hash × RangeSpecSeq) := (Wire.fixed 32).pair rangeSpecSeqWire

def observeWire : Wire (Hash × RangeSpec) := (Wire.fixed 32).pair rangeSpecWire

def getManyWire : Wire (List Hash × RangeSpecSeq) :=
  (Wire.list (.fixed 32) put_hash_pos).pair rangeSpecSeqWire

variable {α : Type} (w : Wire α)

/-- `postcard::from_bytes`, which leaves further bytes alone -/
def fromBytes (data : Bytes) : Except String α :=
  (okOr (w.get data) "failed to deserialize").map Prod.fst

variable (stream : Bytes)

def readToEndAs : Except String α := do
  reject (MAX_MESSAGE_SIZE < stream.length) "unexpected data"
  fromBytes w stream

/-- `read_varint_u64`: ten groups of seven bits at most, lowest first -/
def readVarintU64 (shift result : Nat) : Nat → Bytes → Except String (Nat × Bytes)
  | 0, _ => .error "Varint is too large for u64"
  | _ + 1, [] => .error "unexpected end of file"
  | groups + 1, byte :: rest =>
    let result := result ||| ((byte.val % 128) <<< shift) % 2 ^ 64
    if byte.val < 128 then .ok (result, rest)
    else readVarintU64 (shift + 7) result groups rest

def readLengthPrefixed : Except String α := do
  let (n, rest) ← readVarintU64 0 0 10 stream
  reject (MAX_MESSAGE_SIZE < n) "length prefix too large"
  fromBytes w (rest.take n)

def readWire : Bytes → Except String (Request RangeSpecSeq)
  | [] => .error "unexpected end of file"
  | requestType :: stream =>
    match requestType.val with
    | 0 => do let r ← readToEndAs getWire stream; return get r.1 r.2
    | 1 => do let r ← readToEndAs observeWire stream; return observe r.1 r.2
    | 8 => do let r ← readLengthPrefixed getWire stream; return push r.1 r.2
    | 9 => do let r ← readToEndAs getManyWire stream; return getMany r.1 r.2
    | _ => .error "failed to deserialize request type"

def readAsync : Except String (Request ChunkRangesSeq) := do
  let wire ← readWire stream
  let request ← wire.decode
  request.validate
  return request

end Request

/-! ## Sums of span widths and offsets -/

/-- The spans of a chunk set are converted without an overflow, and a chunk is selected if an odd
number of span ends, as unbounded numbers, is at or below it. -/
def RangeSpec.Exact (spec : RangeSpec) (ranges : ChunkRanges) : Prop :=
  RangeSpec.overflows 0 spec = false ∧
    ∀ x : U64, ranges.contains x = true ↔ countLE x.val (RangeSpec.spanEnds 0 spec) % 2 = 1

def ChunkRangesSeqIterInfinite.advance (it : ChunkRangesSeqIterInfinite) :
    Nat → ChunkRangesSeqIterInfinite
  | 0 => it
  | n + 1 => advance it.next.2 n

/-- The iterator after some turns, unless one of them finished it. -/
def NonEmptyRequestRangeSpecIter.advance (it : NonEmptyRequestRangeSpecIter) :
    Nat → Option NonEmptyRequestRangeSpecIter
  | 0 => some it
  | n + 1 =>
    match it.turn with
    | (.finished, _) => none
    | (_, it) => advance it n

/-- Neither decoding a sequence nor `n` steps of its iterators leave the 64-bit numbers. -/
structure ChunkRangesSeq.Exact (wire : RangeSpecSeq) (seq : ChunkRangesSeq) (n : Nat) : Prop where
  sets : List.Forall₂ (fun t u => RangeSpec.Exact t.2 u.2) wire seq
  isBlob : seq.isBlob ≠ none
  infinite : ∀ k < n, (seq.iterInfinite.advance k).offset + 1 < 2 ^ 64
  nonEmpty : ∀ k < n, ∀ it, seq.iterNonEmptyInfinite.advance k = some it →
    it.inner.offset + 1 < 2 ^ 64

def RangeSpec.Fits (spec : RangeSpec) : Prop := (spec.map Fin.val).sum < 2 ^ 64

/-- The spans fit, not both of two transitions are at the first blob, and there are fewer steps than
64-bit numbers. -/
def RangeSpecSeq.Fits (wire : RangeSpecSeq) (n : Nat) : Prop :=
  (∀ t ∈ wire, RangeSpec.Fits t.2) ∧ (∀ spec spec', wire ≠ [(0, spec), (0, spec')]) ∧ n < 2 ^ 64

lemma RangeSpec.exact_iff {spec : RangeSpec} : spec.Exact spec.toChunkRanges ↔ spec.Fits := by
  unfold Exact Fits
  rw [overflows_iff, Fin.val_zero, Nat.zero_add]
  refine ⟨And.left, fun h => ⟨h, fun x => ?_⟩⟩
  rw [contains_toChunkRanges (overflows_iff.mpr (by rwa [Fin.val_zero, Nat.zero_add])),
    decide_eq_true_eq]

lemma ChunkRangesSeqIterInfinite.offset_advance (it : ChunkRangesSeqIterInfinite) (n : Nat) :
    (it.advance n).offset = it.offset + n := by
  induction n generalizing it with
  | zero => rfl
  | succ n ih =>
    rw [advance, ih]
    show it.offset + 1 + n = it.offset + (n + 1)
    omega

lemma NonEmptyRequestRangeSpecIter.offset_turn (it : NonEmptyRequestRangeSpecIter) :
    it.turn.2.inner.offset = it.inner.offset + 1 := by
  unfold turn
  simp only
  split
  · rfl
  · split
    · rfl
    · split
      · rfl
      · rfl

lemma NonEmptyRequestRangeSpecIter.offset_advance {it it' : NonEmptyRequestRangeSpecIter} {n : Nat}
    (h : it.advance n = some it') : it'.inner.offset = it.inner.offset + n := by
  induction n generalizing it with
  | zero =>
    cases h
    rfl
  | succ n ih =>
    have hturn := it.offset_turn
    unfold advance at h
    split at h
    · cases h
    · rename_i it₁ _ heq
      rw [heq] at hturn
      rw [ih h, hturn]
      omega

namespace ChunkRangesSeq
variable {wire : RangeSpecSeq} {seq : ChunkRangesSeq}

lemma sets_of_tryFromLoop {offset : U64} (h : tryFromLoop offset wire = .ok seq) :
    List.Forall₂ (fun t u => u.2 = RangeSpec.toChunkRanges t.2 ∧ offset ≤ u.1) wire seq := by
  induction wire generalizing offset seq with
  | nil =>
    cases h
    exact .nil
  | cons head rest ih =>
    obtain ⟨delta, spec⟩ := head
    simp only [tryFromLoop, bind_ok, reject_ok, okOr_ok, pure_ok] at h
    obtain ⟨-, -, next, hnext, res, hres, rfl⟩ := h
    have hle : offset ≤ next := Fin.le_def.mpr (by rw [checkedAdd_eq_some hnext]; omega)
    exact .cons ⟨rfl, hle⟩ ((ih hres).imp fun t u hu => ⟨hu.1, hle.trans hu.2⟩)

/-- The second offset is subtracted from if there are two transitions. -/
lemma isBlob_iff (h : tryFrom wire = .ok seq) :
    seq.isBlob ≠ none ↔ ∀ spec spec', wire ≠ [(0, spec), (0, spec')] := by
  simp only [tryFrom, bind_ok, reject_ok] at h
  obtain ⟨-, -, h⟩ := h
  rcases wire with _ | ⟨⟨d, a⟩, _ | ⟨⟨d', a'⟩, _ | ⟨t, wire⟩⟩⟩
  · cases h
    simp [isBlob, asSingle]
  · simp only [tryFromLoop, bind_ok, pure_ok] at h
    obtain ⟨-, -, next, -, res, hres, rfl⟩ := h
    cases hres
    simp [isBlob, asSingle]
  · simp only [tryFromLoop, bind_ok, okOr_ok, pure_ok] at h
    obtain ⟨-, -, next, hnext, res, ⟨-, -, next', hnext', res', hres', rfl⟩, rfl⟩ := h
    cases hres'
    have hsum : next'.val = d.val + d'.val := by
      rw [checkedAdd_eq_some hnext', checkedAdd_eq_some hnext, Fin.val_zero, Nat.zero_add]
    by_cases hzero : next'.val = 0
    · have hd : d = 0 := Fin.ext (show d.val = 0 by omega)
      have hd' : d' = 0 := Fin.ext (show d'.val = 0 by omega)
      simp [isBlob, asSingle, hzero, hd, hd']
    · have hne : ¬ (d = 0 ∧ d' = 0) := by
        rintro ⟨rfl, rfl⟩
        exact hzero hsum
      simp only [isBlob, asSingle, hzero, if_false, Option.map_some, ne_eq, reduceCtorEq,
        not_false_eq_true, true_iff, List.cons.injEq, Prod.mk.injEq, and_true]
      exact fun spec spec' heq => hne ⟨heq.1.1, heq.2.1⟩
  · have hlen := (sets_of_tryFromLoop h).length_eq
    rcases seq with _ | ⟨u, _ | ⟨u', _ | ⟨u'', seq⟩⟩⟩
    · simp at hlen
    · simp at hlen
    · simp at hlen
    · simp [isBlob, asSingle]

lemma exact_iff (h : tryFrom wire = .ok seq) (n : Nat) : Exact wire seq n ↔ wire.Fits n := by
  have hloop := h
  simp only [tryFrom, bind_ok, reject_ok] at hloop
  obtain ⟨-, -, hloop⟩ := hloop
  have hsets : List.Forall₂ (fun t u => RangeSpec.Exact t.2 u.2) wire seq ↔
      ∀ t ∈ wire, RangeSpec.Fits t.2 := by
    have hfor := sets_of_tryFromLoop hloop
    clear h hloop
    induction hfor with
    | nil => simp
    | cons hu _ ih =>
      rw [List.forall₂_cons, List.forall_mem_cons, hu.1, RangeSpec.exact_iff]
      exact and_congr_right fun _ => ih
  have hsteps : (∀ k < n, k + 1 < 2 ^ 64) ↔ n < 2 ^ 64 := by
    constructor
    · intro hall
      by_contra hlt
      have hlast := hall (2 ^ 64 - 1) (by omega)
      omega
    · intro hlt k hk
      omega
  have hoff : ∀ k, (seq.iterInfinite.advance k).offset = k := fun k => by
    rw [ChunkRangesSeqIterInfinite.offset_advance]
    exact Nat.zero_add k
  constructor
  · intro hexact
    refine ⟨hsets.mp hexact.sets, (isBlob_iff h).mp hexact.isBlob, hsteps.mp fun k hk => ?_⟩
    have hstep := hexact.infinite k hk
    rwa [hoff] at hstep
  · rintro ⟨hfits, hsin, hn⟩
    refine ⟨hsets.mpr hfits, (isBlob_iff h).mpr hsin, fun k hk => ?_, fun k hk it hit => ?_⟩
    · rw [hoff]
      exact hsteps.mpr hn k hk
    · rw [NonEmptyRequestRangeSpecIter.offset_advance hit]
      have hstep := hsteps.mpr hn k hk
      show 0 + k + 1 < 2 ^ 64
      omega

end ChunkRangesSeq

namespace Request

lemma seq_of_decode {wire : Request RangeSpecSeq} {request : Request ChunkRangesSeq}
    (h : wire.decode = .ok request) : wire.spec? = request.spec? ∧
      ∀ ranges ∈ wire.seq?, ∃ seq ∈ request.seq?, ChunkRangesSeq.tryFrom ranges = .ok seq := by
  cases wire with
  | observe hash ranges =>
    cases h
    exact ⟨rfl, nofun⟩
  | get _ ranges | push _ ranges | getMany _ ranges =>
    simp only [decode, bind_ok, pure_ok] at h
    obtain ⟨seq, hseq, rfl⟩ := h
    refine ⟨rfl, fun r hr => ⟨seq, rfl, ?_⟩⟩
    cases hr
    exact hseq

/-- Reading a request and evaluating its ranges is exact if the widths of its spans
fit together, its offsets are not both zero, and there are fewer than 2^64 steps. -/
theorem ranges_exact_iff (stream : Bytes) (wire : Request RangeSpecSeq)
    (request : Request ChunkRangesSeq) (hwire : readWire stream = .ok wire)
    (hread : readAsync stream = .ok request) (n : Nat) :
    ((∀ ranges ∈ wire.seq?, ∀ seq ∈ request.seq?, ChunkRangesSeq.Exact ranges seq n) ∧
      ∀ spec ∈ request.spec?, RangeSpec.Exact spec spec.toChunkRanges) ↔
    (∀ ranges ∈ wire.seq?, RangeSpecSeq.Fits ranges n) ∧
      ∀ spec ∈ wire.spec?, RangeSpec.Fits spec := by
  simp only [readAsync, hwire, bind_ok, Except.ok.injEq, pure_ok] at hread
  obtain ⟨wire', rfl, request', hdecode, -, -, rfl⟩ := hread
  obtain ⟨hspec, hseq⟩ := seq_of_decode hdecode
  rw [hspec]
  refine and_congr ?_ (forall₂_congr fun spec _ => RangeSpec.exact_iff)
  refine forall₂_congr fun ranges hranges => ?_
  obtain ⟨seq, hmem, hfrom⟩ := hseq ranges hranges
  rw [Option.mem_def.mp hmem]
  simp only [Option.mem_def, Option.some.injEq, forall_eq']
  exact ChunkRangesSeq.exact_iff hfrom n

def getStream (ranges : Bytes) : Bytes := 0 :: List.replicate 32 0 ++ ranges

/-- A request for two chunks of the first blob, and for the same ones of the two after it. -/
theorem ranges_exact_two :
    readWire (getStream [2, 0, 2, 1, 2, 3, 0]) = .ok (.get (.zero 32) [(0, [1, 2]), (3, [])]) ∧
    readAsync (getStream [2, 0, 2, 1, 2, 3, 0]) =
      .ok (.get (.zero 32) [(0, .range 1 3), (3, .empty)]) ∧
    ChunkRangesSeq.Exact [(0, [1, 2]), (3, [])] [(0, .range 1 3), (3, .empty)] 1000 := by
  have hwire : readWire (getStream [2, 0, 2, 1, 2, 3, 0]) =
      .ok (.get (.zero 32) [(0, [1, 2]), (3, [])]) := rfl
  refine ⟨hwire, rfl, ?_⟩
  have hexact := (ranges_exact_iff _ _ _ hwire rfl 1000).mpr ?_
  · exact hexact.1 _ rfl _ rfl
  · refine ⟨fun ranges hranges => ?_, nofun⟩
    cases hranges
    refine ⟨?_, fun _ _ heq => by simp at heq, by decide⟩
    unfold RangeSpec.Fits
    decide

/-- Two widths whose sum does not fit, and two transitions at the first blob. -/
theorem ranges_not_exact :
    readAsync (getStream [1, 0, 2, 255, 255, 255, 255, 255, 255, 255, 255, 255, 1, 1]) =
      .ok (.get (.zero 32) [(0, .range (2 ^ 64 - 1) 0)]) ∧
    ¬ ChunkRangesSeq.Exact [(0, [2 ^ 64 - 1, 1])] [(0, .range (2 ^ 64 - 1) 0)] 0 ∧
    readAsync (getStream [2, 0, 1, 0, 0, 0]) = .ok (.get (.zero 32) [(0, .all), (0, .empty)]) ∧
    ¬ ChunkRangesSeq.Exact [(0, [0]), (0, [])] [(0, .all), (0, .empty)] 0 := by
  refine ⟨rfl, fun h => ?_, rfl, fun h => h.isBlob rfl⟩
  have hfirst := (List.forall₂_cons.mp h.sets).1.1
  exact absurd hfirst (by decide)

end Request

/-! ## Serving a get request -/

/-- The turns of the iterator that `handle_get_impl` makes, if sending a blob succeeds or not as
given; the root is complete and lists the children. -/
def handleGet (children : HashSeq) (sent : U64 → Bool) : Nat → NonEmptyRequestRangeSpecIter → Nat
  | 0, _ => 0
  | fuel + 1, it =>
    match it.turn with
    | (.finished, _) => 1
    | (.skipped, it) => handleGet children sent fuel it + 1
    | (.yielded offset _, it) =>
      -- There is no child for the offset, or its blob cannot be sent.
      if offset.val ≠ 0 ∧ children.len ≤ offset.val - 1 then 1
      else if sent offset then handleGet children sent fuel it + 1
      else 1

namespace ChunkRangesSeq

open ChunkRangesSeqIterInfinite

variable {c : ChunkRanges} {l : ChunkRangesSeq} {children : HashSeq} {count : U64} {n m fuel : Nat}

/-- The loop ends at the index: its blob is selected and is not a child, or no blob is selected from
the index on. -/
def Stops (c : ChunkRanges) (l : ChunkRangesSeq) (children : HashSeq) (i : Nat) : Prop :=
  (settle i c l).1.isEmpty = false ∧ children.len < i ∨
    (settle i c l).1.isEmpty = true ∧ (settle i c l).2 = []

lemma handleGet_le (sent : U64 → Bool) (hcoun : count.val = n) (hle : n ≤ m)
    (hstop : Stops c l children m) : handleGet children sent fuel ⟨⟨c, n, l⟩, count⟩ ≤ m - n + 1 := by
  induction fuel generalizing n c l count with
  | zero => exact Nat.zero_le _
  | succ fuel ih =>
    obtain ⟨⟨c', rest⟩, hset⟩ : ∃ p, settle n c l = p := ⟨_, rfl⟩
    have hrest : ∀ next : U64, next.val = n + 1 → n < m →
        handleGet children sent fuel ⟨⟨c', n + 1, rest⟩, next⟩ + 1 ≤ m - n + 1 := by
      intro next hnext hlt
      have hstop' : Stops c' rest children m := by
        unfold Stops
        rw [settle_after hle hset]
        exact hstop
      have hle' := ih hnext hlt hstop'
      omega
    unfold handleGet
    rcases turn_cases hcoun hset with
      ⟨-, it, hturn⟩ | ⟨next, hnext, ⟨hsome, hturn⟩ | ⟨hnone, hmore, hturn⟩⟩
    · rw [hturn]
      exact Nat.le_add_left 1 _
    · rw [hturn]
      simp only
      split
      · exact Nat.le_add_left 1 _
      · rename_i hchil
        split
        · refine hrest next hnext (Nat.lt_of_le_of_ne hle fun heq => ?_)
          subst heq
          rcases hstop with hstop | hstop
          · omega
          · rw [hset, hsome] at hstop
            cases hstop.1
        · exact Nat.le_add_left 1 _
    · rw [hturn]
      refine hrest next hnext (Nat.lt_of_le_of_ne hle fun heq => ?_)
      subst heq
      rcases hstop with hstop | hstop
      · rw [hset, hnone] at hstop
        cases hstop.1
      · rw [hset] at hstop
        exact hmore hstop.2

lemma handleGet_eq (hcoun : count.val = n) (hfits : n + m < 2 ^ 64)
    (hgoes : ∀ i, n ≤ i → i < n + m → ¬ Stops c l children i) :
    handleGet children (fun _ => true) (m + 1) ⟨⟨c, n, l⟩, count⟩ = m + 1 := by
  induction m generalizing n c l count with
  | zero =>
    unfold handleGet
    simp only [handleGet, Nat.zero_add, ite_self]
    split
    · rfl
    · rfl
    · rfl
  | succ m ih =>
    obtain ⟨⟨c', rest⟩, hset⟩ : ∃ p, settle n c l = p := ⟨_, rfl⟩
    have hnow := hgoes n le_rfl (by omega)
    unfold Stops at hnow
    rw [hset] at hnow
    have hrest : ∀ next : U64, next.val = n + 1 →
        handleGet children (fun _ => true) (m + 1) ⟨⟨c', n + 1, rest⟩, next⟩ = m + 1 := by
      intro next hnext
      refine ih hnext (by omega) fun i hi hlt => ?_
      have hgo := hgoes i (by omega) (by omega)
      unfold Stops at hgo ⊢
      rwa [settle_after (by omega) hset]
    unfold handleGet
    rcases turn_cases hcoun hset with
      ⟨hend, it, hturn⟩ | ⟨next, hnext, ⟨hsome, hturn⟩ | ⟨-, -, hturn⟩⟩
    · rcases hend with hend | hend
      · omega
      · exact absurd (.inr hend) hnow
    · have hchil : ¬ (count.val ≠ 0 ∧ children.len ≤ count.val - 1) := by
        intro hout
        exact hnow (.inl ⟨hsome, by omega⟩)
      rw [hturn]
      simp only [if_neg hchil, if_true, hrest next hnext]
    · rw [hturn]
      simp only [hrest next hnext]

/-- A get request takes at most two more turns than it has transitions and the root
has children, if its last offset is not far beyond them or a blob right after them is selected. -/
theorem handleGet_turns_iff (seq : ChunkRangesSeq) (children : HashSeq) :
    (∀ sent fuel, handleGet children sent fuel seq.iterNonEmptyInfinite ≤
      seq.length + children.len + 2) ↔
    (∀ t ∈ seq, t.1.val ≤ seq.length + children.len + 1) ∨
      ∃ i, children.len < i ∧ i ≤ seq.length + children.len + 1 ∧
        (settle i .empty seq).1.isEmpty = false := by
  constructor
  · intro hturns
    by_contra hnot
    rw [not_or] at hnot
    obtain ⟨hfar, hnone⟩ := hnot
    have hlast : seq.length + children.len + 2 < 2 ^ 64 := by
      by_contra hlarge
      refine hfar fun t _ => ?_
      have hlt := t.1.isLt
      omega
    have heq := @handleGet_eq .empty seq children 0 0 (seq.length + children.len + 2) rfl
      (by omega) fun i _ hi hstops => ?_
    · have hle := hturns (fun _ => true) (seq.length + children.len + 3)
      rw [iterNonEmptyInfinite, iterInfinite, heq] at hle
      omega
    · rcases hstops with ⟨hsome, hout⟩ | ⟨-, hend⟩
      · exact hnone ⟨i, hout, by omega, hsome⟩
      · refine hfar fun t ht => ?_
        have hle := settle_rest.mp hend t ht
        omega
  · intro hcond sent fuel
    have hstops : ∃ i ≤ seq.length + children.len + 1, Stops .empty seq children i := by
      rcases hcond with hnear | ⟨i, hout, hi, hsome⟩
      · refine ⟨_, le_rfl, ?_⟩
        cases hempty : (settle (seq.length + children.len + 1) .empty seq).1.isEmpty with
        | false => exact .inl ⟨hempty, by omega⟩
        | true => exact .inr ⟨hempty, settle_rest.mpr hnear⟩
      · exact ⟨i, hi, .inl ⟨hsome, hout⟩⟩
    obtain ⟨i, hi, hstops⟩ := hstops
    have hle := @handleGet_le .empty seq children 0 0 i fuel sent rfl (Nat.zero_le i) hstops
    rw [iterNonEmptyInfinite, iterInfinite]
    omega

/-- One transition far away, and a root without children. -/
theorem handleGet_turns_far : tryFrom [(2 ^ 40, [0])] = .ok [(2 ^ 40, .all)] ∧
    ¬ ∀ sent fuel, handleGet ⟨[], rfl⟩ sent fuel (iterNonEmptyInfinite [(2 ^ 40, .all)]) ≤ 3 := by
  refine ⟨rfl, fun h => ?_⟩
  exact absurd (h (fun _ => true) 4) (by decide)

end ChunkRangesSeq
end Krikos.Blobs.Protocol
