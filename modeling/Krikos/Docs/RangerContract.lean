import Krikos.Docs.Ranger
import Krikos.Lib.Clockwise
import Krikos.Lib.Frontier

/-!
# Docs.RangerContract

The contract of the storage trait and what the provided methods do on stores that meet it.

`ReadsRanges` is the reading half: whenever `getRange` returns, it has returned exactly the stored
entries of the range, in key order. `Contract` adds that the methods return, and what the writing
methods do. One lemma for each provided method then describes it on a store that meets the
contract, in terms of the set of stored entries; `put` is `Lib.settle` for the order `below`.
-/

namespace Krikos.Docs

open RangeEntry Lib List Range SyncConfig

/-! ## Ranges as arcs -/

namespace Range
variable {K : Type} [LinearOrder K] {r : Range K} {t : K}

lemma isAll_iff : r.isAll = true ↔ r.x = r.y := by simp [isAll]

lemma contains_of_eq (h : r.x = r.y) : r.contains t = true := by
  simp [contains, h]

lemma contains_iff (h : r.x ≠ r.y) : r.contains t = true ↔ Clockwise r.x t r.y := by
  rcases lt_or_gt_of_ne h with hlt | hlt
  · rw [contains, compare_lt_iff_lt.mpr hlt]
    simp only [Bool.and_eq_true, decide_eq_true_eq, Clockwise]
    grind
  · rw [contains, compare_gt_iff_gt.mpr hlt]
    simp only [Bool.or_eq_true, decide_eq_true_eq, Clockwise]
    grind

end Range

/-! ## Lists without errors -/

section
variable {E K V ε : Type} [RangeEntry E K V] [LinearOrder K]

@[simp] lemma collect_ok (l : List E) : collect (l.map (Except.ok (ε := ε))) = .ok l := by
  induction l with
  | nil => rfl
  | cons a l ih => simp [collect, ih]

lemma startIndex_ok (x : K) (l : List E) : Store.startIndex x (l.map (Except.ok (ε := ε))) =
      .ok (l.findIdx fun e => decide (x ≤ key e)) := by
  induction l with
  | nil => rfl
  | cons a l ih =>
    by_cases h : x ≤ key a
    · simp [Store.startIndex, findIdx_cons, h]
    · simp [Store.startIndex, findIdx_cons, h, ih]

omit [LinearOrder K] in
lemma newerPrefix_ok [LE V] [DecidableLE V] (v : V) (l : List E) :
    Store.newerPrefix v (l.map (Except.ok (ε := ε))) =
      .ok (decide (∃ p ∈ l, v ≤ value p)) := by
  induction l with
  | nil => simp [Store.newerPrefix]
  | cons a l ih =>
    by_cases h : v ≤ value a
    · simp [Store.newerPrefix, h]
    · simp [Store.newerPrefix, h, ih]

end

/-! ## The contract -/

variable {S E K V F ε : Type} [RangeEntry E K V] [LinearOrder K] {l : List E}

/-- `l` is the entries of `A` in the range, in key order. -/
def Lists (A : Set E) (r : Range K) (l : List E) : Prop :=
  (l.map key).Pairwise (· < ·) ∧ ∀ e, e ∈ l ↔ e ∈ A ∧ r.contains (key e) = true

/-- Whenever `getRange` returns, it returns the stored entries of the range. -/
def ReadsRanges (ops : Store S E K V F ε) (entries : S → Set E) : Prop :=
  ∀ {s r it}, ops.getRange s r = .ok it → ∃ l : List E, it = l.map .ok ∧ Lists (entries s) r l

/-- The contract of the storage trait. -/
structure Contract (ops : Store S E K V F ε) (isPrefix : K → K → Prop) (entries : S → Set E) :
    Prop where
  getFirst : ∀ s, ∃ k, ops.getFirst s = .ok k
  getFingerprint : ∀ s r, ∃ fp, ops.getFingerprint s r = .ok fp
  getRange : ∀ s r, ∃ l : List E, ops.getRange s r = .ok (l.map .ok) ∧ Lists (entries s) r l
  prefixesOf : ∀ s k, ∃ l : List E, ops.prefixesOf s k = .ok (l.map .ok) ∧
    ∀ e, e ∈ l ↔ e ∈ entries s ∧ isPrefix (key e) k
  removePrefixFiltered : ∀ s k p, ∃ s' n, ops.removePrefixFiltered s k p = .ok (s', n) ∧
    entries s' = {e ∈ entries s | ¬ (isPrefix k (key e) ∧ p (value e) = true)}
  entryPut : ∀ s e, ∃ s', ops.entryPut s e = .ok s' ∧
    entries s' = insert e {e' ∈ entries s | key e' ≠ key e}

namespace Lists
variable {A : Set E} {r : Range K}

lemma nodup (h : Lists A r l) : l.Nodup :=
  List.Nodup.of_map key (h.1.imp fun hlt => hlt.ne)

lemma length_eq (h : Lists A r l) (l' : List E) (hnd : l'.Nodup)
    (hmem : ∀ e, e ∈ l' ↔ e ∈ A ∧ r.contains (key e) = true) : l.length = l'.length :=
  ((perm_ext_iff_of_nodup h.nodup hnd).mpr fun e => (h.2 e).trans (hmem e).symm).length_eq

end Lists

/-! ## The recursion step on two pivots -/

namespace Store

section
variable {A : Set E} {r : Range K} {t x : K}

/-- The entries of a range in clockwise order from `x`. -/
def walk (x : K) (l : List E) : List E := l.rotate (l.findIdx fun e => decide (x ≤ key e))

@[simp] lemma walk_length (x : K) (l : List E) : (walk x l).length = l.length :=
  length_rotate ..

@[simp] lemma mem_walk {x : K} {l : List E} {e : E} : e ∈ walk x l ↔ e ∈ l := mem_rotate

lemma walk_pairwise (h : (l.map key).Pairwise (· < ·)) :
    (walk x l).Pairwise fun a b => Clockwise x (key a) (key b) := by
  have := pairwise_rotate h x
  rw [findIdx_map, ← map_rotate, pairwise_map] at this
  exact this

lemma getElem?_offset {j : Nat} (hj : j < (walk x l).length) :
    l[((l.findIdx fun e => decide (x ≤ key e)) + j) % l.length]? = some (walk x l)[j] := by
  rw [walk_length] at hj
  rw [getElem?_eq_getElem (Nat.mod_lt _ (by omega))]
  simp only [walk, getElem_rotate]
  congr 2
  rw [Nat.add_comm]

/-- The two ranges into which a range is split at the walk's first key `f` and its middle key `p`:
the one holding the first half of the walk, and the one holding the rest. -/
def halves (r : Range K) (f p : K) : Range K × Range K :=
  if r.isAll then (⟨f, p⟩, ⟨p, f⟩) else (⟨r.x, p⟩, ⟨p, r.y⟩)

variable {f p : K}

lemma halves_fst_contains (hne : f ≠ p) (hfp : Clockwise r.x f p) (ht : t = f ∨ Clockwise r.x f t) :
    (halves r f p).1.contains t = true ↔ Clockwise r.x t p := by
  unfold halves
  by_cases hall : r.x = r.y
  · rw [if_pos (isAll_iff.mpr hall), contains_iff hne]
    exact Clockwise.rebase ht hfp
  · rw [if_neg (mt isAll_iff.mp hall), contains_iff hfp.ne_start]

lemma halves_fst_le (hp : r.contains p = true) (hfp : Clockwise r.x f p)
    (h : (halves r f p).1.contains t = true) : r.contains t = true := by
  by_cases hall : r.x = r.y
  · exact contains_of_eq hall
  · unfold halves at h
    rw [if_neg (mt isAll_iff.mp hall)] at h
    rw [contains_iff hfp.ne_start] at h
    rw [contains_iff hall] at hp ⊢
    exact h.trans hp

lemma halves_snd_contains (hne : f ≠ p) (hp : r.contains p = true) (hfp : Clockwise r.x f p)
    : (halves r f p).2.contains t = true ↔
      r.contains t = true ∧ ¬ (halves r f p).1.contains t = true := by
  unfold halves
  by_cases hall : r.x = r.y
  · rw [if_pos (isAll_iff.mpr hall), contains_iff (r := ⟨f, p⟩) hne,
      contains_iff (r := ⟨p, f⟩) hne.symm]
    simp [contains_of_eq hall, Clockwise.swap hne]
  · rw [if_neg (mt isAll_iff.mp hall), contains_iff hall, contains_iff (r := ⟨r.x, p⟩) hfp.ne_start]
    rw [contains_iff hall] at hp
    rw [contains_iff (r := ⟨p, r.y⟩) hp.ne, Clockwise.split hp]
    exact And.comm

/-- The middle of the walk through a range of at least two entries. -/
structure Middle (r : Range K) (l : List E) (f p : E) : Prop where
  two_le : 2 ≤ l.length
  first : (walk r.x l)[0]? = some f
  mid : (walk r.x l)[l.length / 2]? = some p

lemma exists_middle (r : Range K) (h : 2 ≤ l.length) : ∃ f p, Middle r l f p :=
  ⟨_, _, h, getElem?_eq_getElem (by rw [walk_length]; omega),
    getElem?_eq_getElem (by rw [walk_length]; omega)⟩

namespace Middle
variable {f p : E}

section
variable (h : Middle r l f p)
include h

lemma mem_first : f ∈ l :=
  mem_walk.mp (mem_of_getElem? h.first)

lemma mem_mid : p ∈ l :=
  mem_walk.mp (mem_of_getElem? h.mid)

lemma clockwise (hl : (l.map key).Pairwise (· < ·)) : Clockwise r.x (key f) (key p) := by
  have h2 := h.two_le
  obtain ⟨h0, hf⟩ := List.getElem?_eq_some_iff.mp h.first
  obtain ⟨hm, hp⟩ := List.getElem?_eq_some_iff.mp h.mid
  rw [← hf, ← hp]
  exact pairwise_iff_getElem.mp (walk_pairwise hl) 0 (l.length / 2) h0 hm (by omega)

lemma first_le (hl : (l.map key).Pairwise (· < ·)) {e : E} (he : e ∈ l) :
    key e = key f ∨ Clockwise r.x (key f) (key e) := by
  obtain ⟨h0, hf⟩ := List.getElem?_eq_some_iff.mp h.first
  obtain ⟨i, hi, rfl⟩ := mem_iff_getElem.mp ((mem_walk (x := r.x)).mpr he)
  rcases Nat.eq_zero_or_pos i with rfl | hpos
  · exact .inl (by rw [hf])
  · rw [← hf]
    exact .inr (pairwise_iff_getElem.mp (walk_pairwise hl) 0 i h0 hi hpos)

lemma filter_fst (hl : (l.map key).Pairwise (· < ·)) :
    (walk r.x l).filter (fun e => (halves r (key f) (key p)).1.contains (key e)) =
      (walk r.x l).take (l.length / 2) := by
  have hcw := h.clockwise hl
  obtain ⟨hm, hp⟩ := List.getElem?_eq_some_iff.mp h.mid
  rw [← filter_eq_take (fun _ _ hab => hab.asymm) (walk_pairwise hl) hm]
  apply filter_congr
  intro e he
  rw [Bool.eq_iff_iff, decide_eq_true_iff, hp]
  exact halves_fst_contains hcw.ne hcw (h.first_le hl (mem_walk.mp he))

lemma length_fst (hl : Lists A r l) {l₁ : List E}
    (h₁ : Lists A (halves r (key f) (key p)).1 l₁) : l₁.length = l.length / 2 := by
  have hcw := h.clockwise hl.1
  have hp : r.contains (key p) = true := ((hl.2 p).mp h.mem_mid).2
  rw [h₁.length_eq ((walk r.x l).filter fun e =>
    (halves r (key f) (key p)).1.contains (key e)), h.filter_fst hl.1, length_take,
    walk_length]
  · omega
  · exact ((nodup_rotate).mpr hl.nodup).filter _
  · intro e
    rw [mem_filter, mem_walk, hl.2]
    exact ⟨fun he => ⟨he.1.1, he.2⟩, fun he => ⟨⟨he.1, halves_fst_le hp hcw he.2⟩, he.2⟩⟩

lemma length_snd (hl : Lists A r l) {l₂ : List E}
    (h₂ : Lists A (halves r (key f) (key p)).2 l₂) : l₂.length = l.length - l.length / 2 := by
  have hcw := h.clockwise hl.1
  have hp : r.contains (key p) = true := ((hl.2 p).mp h.mem_mid).2
  have hsum := (walk r.x l).length_eq_length_filter_add
    fun e => (halves r (key f) (key p)).1.contains (key e)
  rw [h.filter_fst hl.1, length_take, walk_length] at hsum
  rw [h₂.length_eq ((walk r.x l).filter fun e =>
    !(halves r (key f) (key p)).1.contains (key e))]
  · omega
  · exact ((nodup_rotate).mpr hl.nodup).filter _
  · intro e
    rw [mem_filter, mem_walk, hl.2, halves_snd_contains hcw.ne hp hcw, Bool.not_eq_true']
    simp only [Bool.not_eq_true, and_assoc]

end
end Middle

section
variable {ops : Store S E K V F ε} {s : S} {f p : E}

lemma pivot_eq (config : SyncConfig) (i : Nat) {e : E} (hget : ops.getRange s r = .ok (l.map .ok))
    (he : (walk r.x l)[l.length * (i % config.splitFactor + 1) / config.splitFactor %
      l.length]? = some e) :
    pivot ops config s r l.length (l.findIdx fun e => decide (r.x ≤ key e)) i = .ok (key e) := by
  obtain ⟨hj, he⟩ := List.getElem?_eq_some_iff.mp he
  simp only [pivot, hget, List.getElem?_map]
  rw [← Nat.add_mod_mod, getElem?_offset hj, he]
  rfl

lemma splitRanges_default (h : Middle r l f p) (hl : (l.map key).Pairwise (· < ·))
    (hget : ops.getRange s r = .ok (l.map .ok)) :
    splitRanges default r (pivot ops default s r l.length
        (l.findIdx fun e => decide (r.x ≤ key e))) =
      .ok (if r.isAll then [(halves r (key f) (key p)).2, (halves r (key f) (key p)).1]
        else [(halves r (key f) (key p)).1, (halves r (key f) (key p)).2]) := by
  have hne := (h.clockwise hl).ne
  have hk : default.splitFactor = 2 := rfl
  have hlt : l.length / 2 % l.length = l.length / 2 := Nat.mod_eq_of_lt (by have := h.two_le; omega)
  have h0 := pivot_eq default 0 hget (by simpa [hk, hlt] using h.mid)
  have h1 := pivot_eq default 1 hget (by simpa [hk] using h.first)
  have h2 := pivot_eq default 2 hget (by simpa [hk, hlt] using h.mid)
  by_cases hall : r.isAll = true
  · simp [splitRanges, halves, hall, hk, range_succ, pivotRanges, h0, h1, h2, hne, hne.symm]
  · simp [splitRanges, halves, hall, hk, pivotRanges, h0]

end
end

/-! ## Answers to fingerprints -/

section
variable {ops : Store S E K V F ε} {entries : S → Set E} {s : S} {r : Range K}
  {cs : E → ContentStatus} {a b : Range K}

def request (cs : E → ContentStatus) (r : Range K) (l : List E) : MessagePart E K F :=
  .rangeItem ⟨r, l.map fun e => (e, cs e), false⟩

/-- The part sent for one piece of a range that is split. -/
def chunk (cs : E → ContentStatus) (r : Range K) (l : List E) (fp : F) : MessagePart E K F :=
  if 1 < l.length then .rangeFingerprint ⟨r, fp⟩ else request cs r l

omit [RangeEntry E K V] [LinearOrder K] in
lemma chunkPart_eq {fp : F} (hget : ops.getRange s r = .ok (l.map .ok))
    (hfp : ops.getFingerprint s r = .ok fp) :
    chunkPart ops default cs s r = .ok (chunk cs r l fp) := by
  have hvals : (l.map (Except.ok (ε := ε))).filterMap (fun entry => entry.toOption) = l := by
    rw [filterMap_map]
    exact filterMap_some
  by_cases hlen : 1 < l.length
  · simp [chunkPart, chunk, hget, hfp, SyncConfig.default, hlen]
  · simp [chunkPart, chunk, request, hget, hfp, SyncConfig.default, hlen, hvals]

lemma chunkPart_ok (R : ReadsRanges ops entries) {q : MessagePart E K F}
    (h : chunkPart ops default cs s r = .ok q) :
    ∃ l fp, ops.getRange s r = .ok (l.map .ok) ∧ ops.getFingerprint s r = .ok fp ∧
      Lists (entries s) r l ∧ q = chunk cs r l fp := by
  cases hget : ops.getRange s r with
  | error f => simp [chunkPart, hget] at h
  | ok it =>
    cases hfp : ops.getFingerprint s r with
    | error f => simp [chunkPart, hget, hfp] at h
    | ok fp =>
      obtain ⟨l, rfl, hl⟩ := R hget
      rw [chunkPart_eq hget hfp] at h
      exact ⟨l, fp, rfl, rfl, hl, (Except.ok.inj h).symm⟩

omit [RangeEntry E K V] [LinearOrder K] in
lemma chunkParts_pair {qa qb : MessagePart E K F} (ha : chunkPart ops default cs s a = .ok qa)
    (hb : chunkPart ops default cs s b = .ok qb) :
    chunkParts ops default cs s [a, b] = .ok [qa, qb] := by
  simp [chunkParts, ha, hb]

omit [RangeEntry E K V] [LinearOrder K] in
lemma chunkParts_pair_ok {qs : List (MessagePart E K F)}
    (h : chunkParts ops default cs s [a, b] = .ok qs) :
    ∃ qa qb, chunkPart ops default cs s a = .ok qa ∧
      chunkPart ops default cs s b = .ok qb ∧ qs = [qa, qb] := by
  cases ha : chunkPart ops default cs s a with
  | error f => simp [chunkParts, ha] at h
  | ok qa =>
    cases hb : chunkPart ops default cs s b with
    | error f => simp [chunkParts, ha, hb] at h
    | ok qb =>
      rw [chunkParts_pair ha hb] at h
      exact ⟨qa, qb, rfl, rfl, (Except.ok.inj h).symm⟩

lemma recurse_eq {f p : E} (h : Middle r l f p) (hl : (l.map key).Pairwise (· < ·))
    (hget : ops.getRange s r = .ok (l.map .ok)) :
    recurse ops default cs s r l.length = chunkParts ops default cs s
        (if r.isAll then [(halves r (key f) (key p)).2, (halves r (key f) (key p)).1]
          else [(halves r (key f) (key p)).1, (halves r (key f) (key p)).2]) := by
  simp only [recurse, hget, startIndex_ok, splitRanges_default h hl hget]

omit [RangeEntry E K V] [LinearOrder K] in
lemma anchor_eq (hget : ops.getRange s r = .ok (l.map .ok)) :
    anchor ops cs s r = .ok [request cs r l] := by
  simp [anchor, request, hget]

lemma processFingerprint_eq [Fingerprint F] [DecidableEq F] (cs : E → ContentStatus) (fp : F)
    {localFp : F} (hfp : ops.getFingerprint s r = .ok localFp)
    (hget : ops.getRange s r = .ok (l.map .ok)) : processFingerprint ops default cs s ⟨r, fp⟩ =
      if localFp = fp then .ok []
      else if l.length ≤ 1 ∨ fp = Fingerprint.empty then .ok [request cs r l]
      else recurse ops default cs s r l.length := by
  simp only [processFingerprint, getRangeLen, hfp, hget, collect_ok, anchor_eq hget]

end

/-! ## Insertion -/

def putAll [LE V] [DecidableLE V] (ops : Store S E K V F ε) : S → List E → Except (Fault ε) S
  | s, [] => .ok s
  | s, e :: rest =>
    match ops.put s e with
    | .error f => .error f
    | .ok (s, _) => putAll ops s rest

section
variable [LE V] [DecidableLE V] {ops : Store S E K V F ε} {s s₁ s₂ : S} {e : E}

omit [LinearOrder K] in
lemma put_of_newer (hp : ops.prefixesOf s (key e) = .ok (l.map .ok))
    (h : ∃ p ∈ l, value e ≤ value p) : ops.put s e = .ok (s, .notInserted) := by
  simp only [put, hp, newerPrefix_ok, h, decide_true]

omit [LinearOrder K] in
lemma put_of_not_newer {n : Nat} (hp : ops.prefixesOf s (key e) = .ok (l.map .ok))
    (h : ¬ ∃ p ∈ l, value e ≤ value p)
    (hremov : ops.removePrefixFiltered s (key e) (fun v => decide (v ≤ value e)) = .ok (s₁, n))
    (hput : ops.entryPut s₁ e = .ok s₂) : ops.put s e = .ok (s₂, .inserted n) := by
  simp only [put, hp, newerPrefix_ok, h, decide_false, hremov, hput]

end

section
variable [LinearOrder V] {isPrefix : K → K → Prop} {entries : S → Set E}
  {ops : Store S E K V F ε}

/-- `p` is at the key of `e` or at a prefix of it, and its value matches or exceeds that of `e`. -/
def below (isPrefix : K → K → Prop) (e p : E) : Prop :=
  isPrefix (key p) (key e) ∧ value e ≤ value p

omit [LinearOrder K] in
lemma above_below (hpre : Above isPrefix)
    (hext : ∀ e e' : E, key e = key e' → value e = value e' → e = e') :
    Above (below (E := E) isPrefix) where
  refl _ := ⟨hpre.refl _, le_rfl⟩
  trans hab hbc := ⟨hpre.trans hbc.1 hab.1, hab.2.trans hbc.2⟩
  antisymm hab hba := hext _ _ (hpre.antisymm hba.1 hab.1) (le_antisymm hab.2 hba.2)

noncomputable def arrive (isPrefix : K → K → Prop) : Set E → E → Set E :=
  settle (fun p e => below isPrefix e p) (fun e s => below isPrefix s e)

noncomputable def arriveAll (isPrefix : K → K → Prop) : Set E → List E → Set E :=
  settleAll (fun p e => below isPrefix e p) (fun e s => below isPrefix s e)

lemma put_spec (C : Contract ops isPrefix entries) (hrefl : ∀ k, isPrefix k k) (s : S) (e : E) :
    ∃ s' outcome, ops.put s e = .ok (s', outcome) ∧ entries s' = arrive isPrefix (entries s) e := by
  obtain ⟨l, hpre, hmem⟩ := C.prefixesOf s (key e)
  by_cases hb : ∃ p ∈ l, value e ≤ value p
  · refine ⟨s, .notInserted, put_of_newer hpre hb, ?_⟩
    obtain ⟨p, hp, hle⟩ := hb
    exact (settle_of_blocked ⟨p, ((hmem p).mp hp).1, ((hmem p).mp hp).2, hle⟩).symm
  · obtain ⟨s₁, n, hrem, hs₁⟩ := C.removePrefixFiltered s (key e) fun v => decide (v ≤ value e)
    obtain ⟨s₂, hput, hs₂⟩ := C.entryPut s₁ e
    have hfree : ¬ ∃ p ∈ entries s, below isPrefix e p :=
      fun ⟨p, hp, hpk, hpv⟩ => hb ⟨p, (hmem p).mpr ⟨hp, hpk⟩, hpv⟩
    refine ⟨s₂, .inserted n, put_of_not_newer hpre hb hrem hput, ?_⟩
    rw [arrive, settle_of_free hfree, hs₂, hs₁]
    congr 1
    ext a
    simp only [Set.mem_sep_iff, decide_eq_true_eq, below]
    refine ⟨fun h => h.1, fun h => ⟨h, fun hk => h.2 ⟨hk ▸ hrefl _, ?_⟩⟩⟩
    -- an entry at the same key would have blocked the arrival if it were newer
    exact le_of_not_ge fun hle => hfree ⟨a, h.1, hk ▸ hrefl _, hle⟩

lemma storeValues_spec (C : Contract ops isPrefix entries) (hrefl : ∀ k, isPrefix k k)
    (values : List (E × ContentStatus)) (s : S) :
    ∃ s' log, storeValues ops (fun _ _ _ => .ok true) s values = .ok (s', log) ∧
      entries s' = arriveAll isPrefix (entries s) (values.map Prod.fst) := by
  induction values generalizing s with
  | nil => exact ⟨s, [], rfl, rfl⟩
  | cons v values ih =>
    obtain ⟨s₁, outcome, hput, hs₁⟩ := put_spec C hrefl s v.1
    obtain ⟨s₂, log, hrest, hs₂⟩ := ih s₁
    rw [hs₁] at hs₂
    cases outcome with
    | notInserted => exact ⟨s₂, log, by simp only [storeValues, hput, hrest], hs₂⟩
    | inserted n => exact ⟨s₂, v :: log, by simp only [storeValues, hput, hrest], hs₂⟩

end

/-! ## Answers to items -/

section
variable [LE V] [DecidableLE V] {ops : Store S E K V F ε}

/-- The store with the accepted values put, up to the first failure. -/
def valuesLeft (ops : Store S E K V F ε)
    (validateCb : S → E → ContentStatus → Except (Fault ε) Bool) : S → List (E × ContentStatus) → S
  | s, [] => s
  | s, (entry, status) :: rest =>
    match validateCb s entry status with
    | .error _ => s
    | .ok false => valuesLeft ops validateCb s rest
    | .ok true =>
      match ops.put s entry with
      | .error _ => s
      | .ok (s, _) => valuesLeft ops validateCb s rest

omit [LinearOrder K] in
lemma valuesLeft_of_ok {validateCb : S → E → ContentStatus → Except (Fault ε) Bool} {s s' : S}
    {values log : List (E × ContentStatus)}
    (h : storeValues ops validateCb s values = .ok (s', log)) :
    valuesLeft ops validateCb s values = s' := by
  fun_induction storeValues ops validateCb s values generalizing log <;>
    simp_all [valuesLeft]

lemma diff_eq (cs : E → ContentStatus) {s : S} {item : RangeItem E K} {l : List E}
    (hget : ops.getRange s item.range = .ok (l.map .ok)) :
    diff ops cs s item = .ok ((l.filter (wanted item.values)).map fun e => (e, cs e)) := by
  simp only [diff, hget, filter_map, collect_ok]
  rfl

end
end Store
end Krikos.Docs
