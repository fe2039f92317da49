import Krikos.Docs.RangerContract
import Krikos.Lib.Table

/-!
# Docs.SimpleStore

The in-memory store of the tests of `ranger.rs`, an ordered map from keys to values, and that it
meets the contract of the storage trait. With a fingerprint that keeps the whole set, equal
fingerprints mean equal entries (`setStore_faithful`). Up to as many pivots as
entries partition a range (`splitRanges_partition`), more of them may not (`splitRanges_whole`).
-/

namespace Krikos.Docs

open RangeEntry Lib

instance {K V : Type} : RangeEntry (K × V) K V := ⟨Prod.fst, Prod.snd⟩

variable {K V F : Type} [LinearOrder K] [Inhabited K] [Fingerprint F]

/-- `SimpleStore`, for keys with the given `is_prefix_of` and entries with the given
`as_fingerprint`. -/
def simpleStore (isPrefixOf : K → K → Bool) (asFingerprint : K × V → F) :
    Store (Table K V) (K × V) K V F Empty where
  getFirst t :=
    match t.rows with
    | [] => .ok default
    | (k, _) :: _ => .ok k
  getFingerprint t range :=
    .ok ((t.range range.contains).foldl (fun fp e => Fingerprint.xor fp (asFingerprint e))
      Fingerprint.empty)
  entryPut t e := .ok (t.insert e.1 e.2)
  getRange t range := .ok ((t.range range.contains).map .ok)
  prefixesOf t k := .ok ((t.range fun k' => isPrefixOf k' k).map .ok)
  removePrefixFiltered t k p :=
    let t' := t.removeIf fun row => isPrefixOf k row.1 && p row.2
    .ok (t', t.rows.length - t'.rows.length)

def simpleEntries (t : Table K V) : Set (K × V) := {e | e ∈ t.rows}

omit [Inhabited K] in
@[simp] lemma simpleEntries_empty : simpleEntries (Table.empty : Table K V) = ∅ := by
  ext e
  simp [simpleEntries]

lemma simpleStore_contract (isPrefixOf : K → K → Bool) (asFingerprint : K × V → F) :
    Contract (simpleStore isPrefixOf asFingerprint) (fun a b => isPrefixOf a b = true)
      simpleEntries where
  getFirst t := by
    cases h : t.rows with
    | nil => exact ⟨default, by simp only [simpleStore, h]⟩
    | cons row rows => exact ⟨row.1, by simp only [simpleStore, h]⟩
  getFingerprint _ _ := ⟨_, rfl⟩
  getRange t r := by
    refine ⟨t.range r.contains, rfl, ?_, fun e => Table.mem_range⟩
    exact List.pairwise_map.mpr (t.range_sorted _)
  prefixesOf t k := ⟨_, rfl, fun e => Table.mem_range⟩
  removePrefixFiltered t k p := by
    refine ⟨_, _, rfl, ?_⟩
    ext ⟨k', v⟩
    simp only [simpleEntries, Set.mem_ofPred_eq, Table.mem_removeIf, key, value,
      ← Bool.and_eq_true, Bool.not_eq_true]
  entryPut t e := by
    refine ⟨_, rfl, ?_⟩
    ext ⟨k', v⟩
    simp only [simpleEntries, Set.mem_ofPred_eq, Table.mem_insert, key, Set.mem_insert_iff,
      Prod.ext_iff]
    exact or_congr_right And.comm

/-! ## A fingerprint that keeps the set -/

section
variable [DecidableEq V]

/-- Sets of entries, combined by symmetric difference. -/
instance {E : Type} [DecidableEq E] : Fingerprint (Finset E) := ⟨∅, symmDiff⟩

lemma foldl_xor_singleton {E : Type} [DecidableEq E] (l : List E) (hl : l.Nodup) (acc : Finset E)
    (hacc : ∀ e ∈ l, e ∉ acc) :
    l.foldl (fun fp e => Fingerprint.xor fp ({e} : Finset E)) acc = acc ∪ l.toFinset := by
  induction l generalizing acc with
  | nil => simp
  | cons a l ih =>
    rw [List.nodup_cons] at hl
    have ha : a ∉ acc := hacc a (List.mem_cons_self ..)
    have hx : Fingerprint.xor acc ({a} : Finset E) = insert a acc := by
      show symmDiff acc {a} = _
      ext e
      simp only [Finset.mem_symmDiff, Finset.mem_singleton, Finset.mem_insert]
      grind
    rw [List.foldl_cons, hx, ih hl.2]
    · ext e; simp
    · intro e he
      rw [Finset.mem_insert]
      rintro (rfl | h)
      · exact hl.1 he
      · exact hacc e (List.mem_cons_of_mem _ he) h

def setStore (isPrefixOf : K → K → Bool) : Store (Table K V) (K × V) K V (Finset (K × V)) Empty :=
  simpleStore isPrefixOf fun e => {e}

lemma setStore_contract (isPrefixOf : K → K → Bool) :
    Contract (setStore (V := V) isPrefixOf) (fun a b => isPrefixOf a b = true) simpleEntries :=
  simpleStore_contract isPrefixOf _

lemma setStore_faithful {isPrefixOf : K → K → Bool} {s t : Table K V} {r : Range K}
    (h : (setStore isPrefixOf).getFingerprint s r = (setStore isPrefixOf).getFingerprint t r)
    (e : K × V) (he : r.contains (key e) = true) : e ∈ simpleEntries s ↔ e ∈ simpleEntries t := by
  have hfp : ∀ t : Table K V, (t.range r.contains).foldl
      (fun fp e => Fingerprint.xor fp ({e} : Finset (K × V))) Fingerprint.empty =
      (t.range r.contains).toFinset := by
    intro t
    have hnd : (t.range r.contains).Nodup :=
      (t.range_sorted _).imp fun hlt he => (ne_of_lt hlt) (congrArg Prod.fst he)
    rw [show (Fingerprint.empty : Finset (K × V)) = ∅ from rfl,
      foldl_xor_singleton _ hnd _ (by simp), Finset.empty_union]
  have hset : (s.range r.contains).toFinset = (t.range r.contains).toFinset := by
    rw [← hfp s, ← hfp t]
    exact Except.ok.inj h
  have hmem := Finset.ext_iff.mp hset e
  simp only [List.mem_toFinset, Table.mem_range] at hmem
  exact ⟨fun hs => (hmem.mp ⟨hs, he⟩).1, fun ht => (hmem.mpr ⟨ht, he⟩).1⟩

end

/-! ## The partition of a range -/

section

open Store

variable {S E K V F ε : Type} [RangeEntry E K V] [LinearOrder K]

/-- The range from one point to another, if that is not empty. -/
def arc (a b : K) : List (Range K) := if a = b then [] else [⟨a, b⟩]

def arcs (c : Nat → K) (m : Nat) : List (Range K) :=
  (List.range m).flatMap fun i => arc (c i) (c (i + 1))

lemma arcs_succ (c : Nat → K) (m : Nat) : arcs c (m + 1) = arcs c m ++ arc (c m) (c (m + 1)) := by
  rw [arcs, List.range_succ, List.flatMap_append, List.flatMap_singleton, arcs]

/-- The ranges are disjoint, and are together the set of the given keys. -/
def Cuts (ranges : List (Range K)) (p : K → Prop) : Prop :=
  (ranges.Pairwise fun a b => ∀ t, ¬ (a.contains t = true ∧ b.contains t = true)) ∧
    ∀ t, p t ↔ ∃ a ∈ ranges, a.contains t = true

lemma Cuts.append {as bs : List (Range K)} {p q u : K → Prop} (ha : Cuts as p) (hb : Cuts bs q)
    (hdisj : ∀ t, p t → ¬ q t) (hu : ∀ t, u t ↔ p t ∨ q t) : Cuts (as ++ bs) u := by
  refine ⟨List.pairwise_append.mpr ⟨ha.1, hb.1, fun a hma b hmb t h => ?_⟩, fun t => ?_⟩
  · exact hdisj t ((ha.2 t).mpr ⟨a, hma, h.1⟩) ((hb.2 t).mpr ⟨b, hmb, h.2⟩)
  · rw [hu, ha.2, hb.2]
    simp only [List.mem_append, or_and_right, exists_or]

lemma Cuts.perm {as bs : List (Range K)} {p : K → Prop} (h : Cuts as p) (hp : as.Perm bs) :
    Cuts bs p :=
  ⟨(hp.pairwise_iff fun hab t ht => hab t ht.symm).mp h.1,
    fun t => (h.2 t).trans (by simp [hp.mem_iff])⟩

variable {z a b : K}

lemma cuts_arc (h : a = b ∨ Clockwise z a b) :
    Cuts (arc a b) fun t => ¬ Clockwise z t a ∧ Clockwise z t b := by
  unfold arc
  rcases h with rfl | h
  · simp [Cuts]
  · rw [if_neg h.ne]
    refine ⟨List.pairwise_singleton .., fun t => ?_⟩
    simp [Range.contains_iff (r := ⟨a, b⟩) h.ne, Clockwise.split h]

/-- Points in clockwise order from `z` cut the arc from the first to the last of them. -/
lemma cuts_arcs {c : Nat → K} {m : Nat}
    (hmono : ∀ i j, i ≤ j → j ≤ m → c i = c j ∨ Clockwise z (c i) (c j)) :
    Cuts (arcs c m) fun t => ¬ Clockwise z t (c 0) ∧ Clockwise z t (c m) := by
  induction m with
  | zero => simp [Cuts, arcs]
  | succ m ih =>
    have hm := hmono m (m + 1) (by omega) (by omega)
    rw [arcs_succ]
    refine (ih fun i j hi hj => hmono i j hi (by omega)).append (cuts_arc hm)
      (fun t h h' => h'.1 h.2) fun t => ?_
    rcases hm with hm | hm
    · simp [hm]
    · constructor
      · rintro ⟨h0, h⟩
        by_cases htm : Clockwise z t (c m)
        · exact .inl ⟨h0, htm⟩
        · exact .inr ⟨htm, h⟩
      · rintro (⟨h0, h⟩ | ⟨htm, h⟩)
        · exact ⟨h0, h.trans hm⟩
        · refine ⟨fun h0 => htm ?_, h⟩
          exact (hmono 0 m (by omega) (by omega)).elim (fun heq => heq ▸ h0) h0.trans

variable {r : Range K} {f p : K}

/-- A range with the first key `f` is cut at keys in it. -/
lemma cuts_range {c : Nat → K} {m : Nat} (hp : r.contains (c m) = true)
    (hfp : Clockwise r.x f (c m)) (hf : ∀ i, c i = f ∨ Clockwise r.x f (c i))
    (hmono : ∀ i j, i ≤ j → j ≤ m → c i = c j ∨ Clockwise r.x (c i) (c j)) :
    Cuts (arc (halves r f (c m)).1.x (c 0) ++ arcs c m ++ [(halves r f (c m)).2])
      fun t => r.contains t = true := by
  have hle := fun t => halves_fst_le (t := t) hp hfp
  have hsnd := fun t => halves_snd_contains (t := t) hfp.ne hp hfp
  obtain ⟨z, hz, hne, hbase⟩ : ∃ z, (halves r f (c m)).1 = ⟨z, c m⟩ ∧ z ≠ c m ∧
      ∀ i j, i ≤ j → j ≤ m → c i = c j ∨ Clockwise z (c i) (c j) := by
    unfold halves
    split
    · refine ⟨f, rfl, hfp.ne, fun i j hi hj => (hmono i j hi hj).imp_right fun h => ?_⟩
      exact (Clockwise.rebase (hf i) ((hf i).elim (fun heq => heq ▸ h) fun hi => hi.trans h)).mpr h
    · exact ⟨r.x, rfl, hfp.ne_start, hmono⟩
  simp only [hz, Range.contains_iff (r := ⟨z, c m⟩) hne] at hle hsnd ⊢
  have hfst : Cuts (arc z (c 0) ++ arcs c m) fun t => Clockwise z t (c m) := by
    refine (cuts_arc (z := z) ((em (z = c 0)).imp_right .start)).append (cuts_arcs hbase)
      (fun t h h' => h'.1 h.2) fun t => ⟨fun h => ?_, ?_⟩
    · by_cases h0 : Clockwise z t (c 0)
      · exact .inl ⟨fun h => h.ne_start rfl, h0⟩
      · exact .inr ⟨h0, h⟩
    · rintro (h | h)
      · exact (hbase 0 m (by omega) le_rfl).elim (fun heq => heq ▸ h.2) h.2.trans
      · exact h.2
  refine hfst.append (q := fun t => (halves r f (c m)).2.contains t = true)
    ⟨List.pairwise_singleton .., by simp⟩ (fun t h h' => ((hsnd t).mp h').2 h) fun t => ?_
  rw [hsnd]
  exact ⟨fun h => or_iff_not_imp_left.mpr fun hnot => ⟨h, hnot⟩, Or.rec (hle t) And.left⟩

/-- The walk through a range of entries, by index. -/
lemma exists_walk (r : Range K) {l : List E} (hlen : 2 ≤ l.length)
    (hl : (l.map key).Pairwise (· < ·)) :
    ∃ g : Nat → E, (∀ j < l.length, (walk r.x l)[j]? = some (g j)) ∧
      (∀ i j, i < j → j < l.length → Clockwise r.x (key (g i)) (key (g j))) ∧
      ∀ e ∈ l, key e = key (g 0) ∨ Clockwise r.x (key (g 0)) (key e) := by
  obtain ⟨f, p, hmid⟩ := exists_middle r hlen
  have hg : ∀ j < l.length, (walk r.x l)[j]? = some (((walk r.x l)[j]?).getD f) := by
    intro j hj
    rw [List.getElem?_eq_getElem (by rwa [walk_length])]
    rfl
  refine ⟨_, hg, fun i j hij hj => ?_, fun e he => ?_⟩
  · obtain ⟨hi, hgi⟩ := List.getElem?_eq_some_iff.mp (hg i (by omega))
    obtain ⟨hj, hgj⟩ := List.getElem?_eq_some_iff.mp (hg j hj)
    rw [← hgi, ← hgj]
    exact List.pairwise_iff_getElem.mp (walk_pairwise hl) i j hi hj hij
  · rw [hmid.first]
    exact hmid.first_le hl he

/-- The pivots of a range in clockwise order, where `f` is its first entry. -/
structure Pivots (r : Range K) (l : List E) (k : Nat) (f : E) (c : Nat → K) : Prop where
  mem : f ∈ l ∧ ∀ i, ∃ e ∈ l, key e = c i
  first : ∀ e ∈ l, key e = key f ∨ Clockwise r.x (key f) (key e)
  mono : ∀ i j, i ≤ j → j ≤ k - 2 → c i = c j ∨ Clockwise r.x (c i) (c j)
  last : Clockwise r.x (key f) (c (k - 2))
  wrap : c (k - 1) = key f ∧ c k = c 0
  zero : c 0 = key f ↔ l.length < k

/-- The place of a pivot in the walk through `n` entries. -/
def offset (n k i : Nat) : Nat := n * (i % k + 1) / k % n

section
variable {n k i j : Nat} (hn : 2 ≤ n) (hk : 2 ≤ k)
include hn hk

-- the offsets of the pivots before the last one do not wrap around
lemma offset_of_le (hi : i ≤ k - 2) : offset n k i = n * (i + 1) / k := by
  rw [offset, Nat.mod_eq_of_lt (show i < k by omega)]
  refine Nat.mod_eq_of_lt (Nat.div_lt_of_lt_mul ?_)
  rw [Nat.mul_comm k]
  exact Nat.mul_lt_mul_of_pos_left (by omega) (by omega)

lemma offset_le_offset (hij : i ≤ j) (hj : j ≤ k - 2) : offset n k i ≤ offset n k j := by
  rw [offset_of_le hn hk (hij.trans hj), offset_of_le hn hk hj]
  exact Nat.div_le_div_right (Nat.mul_le_mul_left _ (by omega))

lemma offset_pos : 0 < offset n k (k - 2) := by
  rw [offset_of_le hn hk le_rfl]
  refine Nat.div_pos ?_ (by omega)
  calc k ≤ 2 * (k - 2 + 1) := by omega
    _ ≤ n * (k - 2 + 1) := Nat.mul_le_mul_right _ hn

lemma offset_last : offset n k (k - 1) = 0 := by
  rw [offset, Nat.mod_eq_of_lt (show k - 1 < k by omega), show k - 1 + 1 = k by omega,
    Nat.mul_div_cancel _ (by omega), Nat.mod_self]

lemma offset_zero : offset n k 0 = 0 ↔ n < k := by
  rw [offset_of_le hn hk (Nat.zero_le _), Nat.zero_add, Nat.mul_one, Nat.div_eq_zero_iff]
  omega

end

lemma exists_pivots {ops : Store S E K V F ε} {s : S} {r : Range K} {l : List E}
    (config : SyncConfig) (hget : ops.getRange s r = .ok (l.map .ok)) (hlen : 2 ≤ l.length)
    (hl : (l.map key).Pairwise (· < ·)) : ∃ f c, Pivots r l config.splitFactor f c ∧ ∀ i,
      pivot ops config s r l.length (l.findIdx fun e => decide (r.x ≤ key e)) i = .ok (c i) := by
  obtain ⟨g, hg, hcw, hfirst⟩ := exists_walk r hlen hl
  have hk := config.two_le
  have hlt : ∀ i, offset l.length config.splitFactor i < l.length := fun i =>
    Nat.mod_lt _ (by omega)
  have hmem : ∀ j < l.length, g j ∈ l := fun j hj =>
    mem_walk.mp (List.mem_of_getElem? (hg j hj))
  refine ⟨g 0, fun i => key (g (offset l.length config.splitFactor i)), ⟨⟨hmem 0 (by omega),
    fun i => ⟨_, hmem _ (hlt i), rfl⟩⟩, hfirst, fun i j hij hj => ?_,
    hcw _ _ (offset_pos hlen hk) (hlt _), ⟨?_, ?_⟩, ?_⟩,
    fun i => pivot_eq config i hget (hg _ (hlt i))⟩
  · rcases (offset_le_offset hlen hk hij hj).eq_or_lt with heq | hless
    · exact .inl (by rw [heq])
    · exact .inr (hcw _ _ hless (hlt j))
  · rw [offset_last hlen hk]
  · simp only [offset, Nat.mod_self, Nat.zero_mod]
  · rw [← offset_zero hlen hk]
    constructor
    · intro heq
      by_contra hne
      exact (hcw 0 _ (Nat.pos_of_ne_zero hne) (hlt 0)).ne heq.symm
    · intro hzero
      rw [hzero]

lemma pivotRanges_ok {pivot : Nat → Except (Fault ε) K} {c : Nat → K}
    (h : ∀ i, pivot i = .ok (c i)) (is : List Nat) :
    pivotRanges pivot is = .ok (is.flatMap fun i => arc (c i) (c (i + 1))) := by
  induction is with
  | nil => rfl
  | cons i is ih =>
    simp only [pivotRanges, h, ih, List.flatMap_cons, arc]
    split <;> rfl

section
variable {config : SyncConfig} {r : Range K} {l : List E} {f : E} {c : Nat → K}
  {pivot : Nat → Except (Fault ε) K}

lemma splitRanges_of_not_isAll (h : ∀ i, pivot i = .ok (c i)) (hall : ¬ r.isAll = true) :
    splitRanges config r pivot = .ok (⟨r.x, c 0⟩ :: arcs c (config.splitFactor - 2) ++
      [⟨c (config.splitFactor - 2), r.y⟩]) := by
  rw [splitRanges, if_neg hall, h, h, pivotRanges_ok h]
  rfl

lemma splitRanges_perm (P : Pivots r l config.splitFactor f c) (h : ∀ i, pivot i = .ok (c i))
    (hne : r.isAll = true ∨ r.x ≠ c 0) :
    ∃ ranges, splitRanges config r pivot = .ok ranges ∧
      (arc (halves r (key f) (c (config.splitFactor - 2))).1.x (c 0) ++
        arcs c (config.splitFactor - 2) ++
        [(halves r (key f) (c (config.splitFactor - 2))).2]).Perm ranges := by
  by_cases hall : r.isAll = true
  · have hlast := P.last.ne.symm
    obtain ⟨hwrap, hzero⟩ := P.wrap
    obtain ⟨m, hm⟩ := Nat.exists_eq_add_of_le' config.two_le
    refine ⟨_, by rw [splitRanges, if_pos hall, pivotRanges_ok h], ?_⟩
    rw [halves, if_pos hall, ← arcs]
    rw [hm] at hlast hwrap hzero ⊢
    simp only [Nat.add_sub_cancel, show m + 2 - 1 = m + 1 from rfl] at hlast hwrap ⊢
    have harc : arc (c m) (key f) = [⟨c m, key f⟩] := if_neg hlast
    rw [arcs_succ, arcs_succ, hzero, hwrap, harc, List.append_assoc]
    exact List.perm_append_comm
  · refine ⟨_, splitRanges_of_not_isAll h hall, ?_⟩
    rw [halves, if_neg hall, arc, if_neg (hne.resolve_left hall)]
    exact .refl _

end

lemma length_lt {A : Set E} {r a : Range K} {l l' : List E} (hl : Lists A r l) (hl' : Lists A a l')
    (hsub : ∀ t, a.contains t = true → r.contains t = true) {e : E} (he : e ∈ l)
    (hnot : ¬ a.contains (key e) = true) : l'.length < l.length := by
  have hnd : (e :: l').Nodup :=
    List.nodup_cons.mpr ⟨fun hmem => hnot ((hl'.2 e).mp hmem).2, hl'.nodup⟩
  refine (List.subperm_of_subset hnd (List.cons_subset.mpr ⟨he, fun x hx => ?_⟩)).length_le
  exact (hl.2 x).mpr ⟨((hl'.2 x).mp hx).1, hsub _ ((hl'.2 x).mp hx).2⟩

end

def threeEntries : Table Nat Nat := ((Table.empty.insert 1 0).insert 2 0).insert 3 0

end Krikos.Docs
