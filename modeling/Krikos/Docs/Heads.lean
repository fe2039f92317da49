import Krikos.Docs.Merge

/-!
# Docs.Heads

The latest timestamp of each author (`heads.rs`, and the table of latest records in
`store/fs.rs`), and the check whether a peer's heads are news.

Every insert writes its timestamp as the latest of its author, so the table holds the timestamp of
the record that was inserted last (`latest_inserts`), and that is the greatest one exactly if it
is inserted last (`heads_iff`).
-/

namespace Krikos.Docs

open Lib DocEntry List

/-! ## Author heads -/

/-- Timestamps of the latest entry for each author. -/
structure AuthorHeads where
  heads : Table AuthorId U64
  deriving DecidableEq

namespace AuthorHeads

def empty : AuthorHeads := ⟨.empty⟩

def get (h : AuthorHeads) (author : AuthorId) : Option U64 := h.heads.get author

def insert (h : AuthorHeads) (author : AuthorId) (timestamp : U64) : AuthorHeads :=
  match h.heads.get author with
  | some t => ⟨h.heads.insert author (max t timestamp)⟩
  | none => ⟨h.heads.insert author timestamp⟩

/-- Whether `other` does not have the timestamp of an author yet. -/
def isNewsFor (other : AuthorHeads) (author : AuthorId) (timestamp : U64) : Bool :=
  match other.get author with
  | some theirs => theirs < timestamp
  | none => true

/-- The number of authors for which `other` has an older timestamp or none; `none` if zero. -/
def hasNewsFor (h other : AuthorHeads) : Option Nat :=
  match h.heads.rows.countP fun row => other.isNewsFor row.1 row.2 with
  | 0 => none
  | updates => some updates

variable {h : AuthorHeads}

lemma hasNewsFor_isSome {other : AuthorHeads} : (h.hasNewsFor other).isSome = true ↔
    ∃ author timestamp, (author, timestamp) ∈ h.heads.rows ∧
      other.isNewsFor author timestamp = true := by
  have hpos : (h.hasNewsFor other).isSome = true ↔
      0 < h.heads.rows.countP fun row => other.isNewsFor row.1 row.2 := by
    unfold hasNewsFor
    split
    · rename_i hzero
      rw [hzero]
      simp
    · rename_i hne
      exact iff_of_true rfl (Nat.pos_of_ne_zero hne)
  rw [hpos, countP_pos_iff]
  constructor
  · rintro ⟨row, hrow, hnews⟩
    exact ⟨row.1, row.2, hrow, hnews⟩
  · rintro ⟨author, timestamp, hrow, hnews⟩
    exact ⟨(author, timestamp), hrow, hnews⟩

lemma get_insert_self {author : AuthorId} {t : U64}
    (hnone : h.get author = none) : (h.insert author t).get author = some t := by
  simp only [insert, show h.heads.get author = none from hnone, get]
  exact Table.get_insert_self

lemma get_insert_of_ne {author a : AuthorId} {t : U64} (hne : a ≠ author) :
    (h.insert author t).get a = h.get a := by
  unfold insert get
  split
  · exact Table.get_insert_of_ne hne
  · exact Table.get_insert_of_ne hne

end AuthorHeads

/-! ## The table of latest records -/

namespace FsStore

/-- The rows from `(ns, [0; 32])` to `(ns, [255; 32])`. -/
def latestBounds (ns : NamespaceId) : Bounds LatestPerAuthorKey :=
  ⟨.included (toLex (ns, .zero 32)), .included (toLex (ns, .max 32))⟩

variable (s : FsStore) (ns : NamespaceId)

def getLatestForEachAuthor : List (AuthorId × U64 × Bytes) :=
  (s.tables.latestPerAuthor.range (latestBounds ns).contains).map fun row =>
    ((ofLex row.1).2, row.2.1, row.2.2)

def ourHeads : AuthorHeads :=
  (s.getLatestForEachAuthor ns).foldl (fun heads e => heads.insert e.1 e.2.1) .empty

/-- The number of authors that the other peer has updates for. -/
def hasNewsForUs (heads : AuthorHeads) : Option Nat :=
  heads.hasNewsFor (s.ourHeads ns)

end FsStore

section
variable {s : FsStore} {ns : NamespaceId} {a : AuthorId} {t : U64}

lemma contains_latestBounds {k : LatestPerAuthorKey} :
    (FsStore.latestBounds ns).contains k = true ↔ (ofLex k).1 = ns := by
  have h0 := FixedBytes.zero_le (ofLex k).2
  have h1 := FixedBytes.le_max (ofLex k).2
  rw [Bounds.contains_iff]
  simp only [FsStore.latestBounds, Bound.admitsFrom, Bound.admitsTo, decide_eq_true_eq,
    Prod.Lex.le_iff, ofLex_toLex]
  constructor
  · rintro ⟨hlo | hlo, hhi | hhi⟩
    · exact absurd hlo (lt_asymm hhi)
    · exact hhi.1
    · exact hlo.1.symm
    · exact hhi.1
  · rintro rfl
    exact ⟨.inr ⟨rfl, h0⟩, .inr ⟨rfl, h1⟩⟩

lemma mem_getLatestForEachAuthor {key : Bytes} : (a, t, key) ∈ s.getLatestForEachAuthor ns ↔
      (toLex (ns, a), (t, key)) ∈ s.tables.latestPerAuthor.rows := by
  simp only [FsStore.getLatestForEachAuthor, mem_map, Table.mem_range, contains_latestBounds,
    Prod.mk.injEq]
  constructor
  · rintro ⟨⟨k, t', key'⟩, ⟨hrow, rfl⟩, rfl, rfl, rfl⟩
    exact hrow
  · intro hrow
    exact ⟨_, ⟨hrow, rfl⟩, rfl, rfl, rfl⟩

lemma get_foldl_insert {α : Type} {author : α → AuthorId} {timestamp : α → U64} {l : List α}
    (hl : (l.map author).Nodup) {h : AuthorHeads} (hh : ∀ e ∈ l, h.get (author e) = none) :
    (l.foldl (fun heads e => heads.insert (author e) (timestamp e)) h).get a = some t ↔
      h.get a = some t ∨ ∃ e ∈ l, author e = a ∧ timestamp e = t := by
  induction l generalizing h with
  | nil => simp
  | cons e l ih =>
    rw [map_cons, nodup_cons] at hl
    have hnone : h.get (author e) = none := hh _ (mem_cons_self ..)
    have hrest : ∀ e' ∈ l, (h.insert (author e) (timestamp e)).get (author e') = none := by
      intro e' he'
      have hne : author e' ≠ author e := fun hc => hl.1 (hc ▸ mem_map_of_mem he')
      rw [AuthorHeads.get_insert_of_ne hne]
      exact hh e' (mem_cons_of_mem _ he')
    rw [foldl_cons, ih hl.2 hrest, exists_mem_cons_iff]
    by_cases ha : a = author e
    · subst ha
      have hlater : ¬ ∃ e' ∈ l, author e' = author e ∧ timestamp e' = t :=
        fun ⟨e', he', hc, _⟩ => hl.1 (hc ▸ mem_map_of_mem he')
      simp [AuthorHeads.get_insert_self hnone, hnone, hlater]
    · simp [AuthorHeads.get_insert_of_ne ha, Ne.symm ha]

lemma get_ourHeads : (s.ourHeads ns).get a = some t ↔
    ∃ key, (toLex (ns, a), (t, key)) ∈ s.tables.latestPerAuthor.rows := by
  have hnod : ((s.getLatestForEachAuthor ns).map Prod.fst).Nodup := by
    rw [FsStore.getLatestForEachAuthor, map_map, List.Nodup, pairwise_map]
    refine (Table.range_sorted (t := s.tables.latestPerAuthor) _).imp_of_mem ?_
    intro x y hx hy hlt heq
    have hxn := contains_latestBounds.mp (Table.mem_range.mp hx).2
    have hyn := contains_latestBounds.mp (Table.mem_range.mp hy).2
    exact hlt.ne (ofLex.injective (Prod.ext (hxn.trans hyn.symm) heq))
  rw [FsStore.ourHeads, get_foldl_insert hnod (by intro e _; rfl)]
  constructor
  · rintro (hc | ⟨⟨a, t, key⟩, he, rfl, rfl⟩)
    · cases hc
    · exact ⟨key, mem_getLatestForEachAuthor.mp he⟩
  · rintro ⟨key, hkey⟩
    exact .inr ⟨_, mem_getLatestForEachAuthor.mpr hkey, rfl, rfl⟩

end

/-! ## A run of inserts -/

/-- Entries that are inserted one after the other. -/
inductive Inserts (blake3 : Bytes → Bytes32) (ns : NamespaceId) :
    FsStore → List DocEntry → FsStore → Prop
  | nil (s : FsStore) : Inserts blake3 ns s [] s
  | cons {s s₁ s₂ : FsStore} {d : DocEntry} {l : List DocEntry} {n : Nat}
      (hput : (storeInstance blake3 ns).put s (d.signed ns) = .ok (s₁, .inserted n))
      (hrest : Inserts blake3 ns s₁ l s₂) : Inserts blake3 ns s (d :: l) s₂

def lastOf (author : AuthorId) (l : List DocEntry) : Option DocEntry :=
  l.findRev? fun d => d.author = author

section
variable {blake3 : Bytes → Bytes32} {ns : NamespaceId} {s s' : FsStore} {d : DocEntry}
  {l : List DocEntry} {a : AuthorId}

lemma lastOf_cons : lastOf a (d :: l) =
    match lastOf a l with
    | some e => some e
    | none => if d.author = a then some d else none := by
  unfold lastOf
  rw [findRev?]
  cases l.findRev? fun d => d.author = a with
  | some e => rfl
  | none => by_cases h : d.author = a <;> simp [h]

lemma lastOf_eq_some (h : lastOf a l = some d) : d ∈ l ∧ d.author = a := by
  induction l with
  | nil => cases h
  | cons e l ih =>
    rw [lastOf_cons] at h
    split at h
    · rename_i e' he'
      cases h
      exact ⟨mem_cons_of_mem _ (ih he').1, (ih he').2⟩
    · split at h
      · rename_i hea
        cases h
        exact ⟨mem_cons_self .., hea⟩
      · cases h

lemma lastOf_eq_none : lastOf a l = none ↔ ∀ d ∈ l, d.author ≠ a := by
  induction l with
  | nil => simp [lastOf, findRev?]
  | cons e l ih =>
    rw [lastOf_cons]
    split
    · rename_i e' he'
      have hmem := lastOf_eq_some he'
      exact iff_of_false (by simp) fun h => h e' (mem_cons_of_mem _ hmem.1) hmem.2
    · rename_i hnone
      rw [forall_mem_cons, ← ih, and_iff_left hnone]
      split
      · rename_i hea
        simp [hea]
      · rename_i hea
        simp [hea]

lemma put_inserted {n : Nat}
    (hput : (storeInstance blake3 ns).put s (d.signed ns) = .ok (s', .inserted n)) :
    s' = d.inserted ns s := by
  by_cases hb : ∃ x ∈ stampsOf ns s, x.blocks d.stamp
  · rw [put_of_blocked hb] at hput
    cases hput
  · rw [put_of_free hb] at hput
    cases hput
    rfl

lemma latest_inserts (hrun : Inserts blake3 ns s l s') {v : U64 × Bytes} :
    (toLex (ns, a), v) ∈ s'.tables.latestPerAuthor.rows ↔
      match lastOf a l with
      | some d => v = (d.record.timestamp, d.key)
      | none => (toLex (ns, a), v) ∈ s.tables.latestPerAuthor.rows := by
  induction hrun with
  | nil s => rfl
  | @cons s s₁ s₂ d l n hput hrest ih =>
    rw [ih, lastOf_cons]
    cases lastOf a l with
    | some e => rfl
    | none =>
      have hrow : (toLex (ns, a), v) ∈ s₁.tables.latestPerAuthor.rows ↔
          a = d.author ∧ v = (d.record.timestamp, d.key) ∨
            a ≠ d.author ∧ (toLex (ns, a), v) ∈ s.tables.latestPerAuthor.rows := by
        rw [put_inserted hput]
        simp [inserted, written, Table.mem_insert]
      rw [hrow]
      by_cases ha : d.author = a
      · simp [ha]
      · simp [ha, Ne.symm ha]

lemma latest_isSome_iff (hs : ∀ a v, (toLex (ns, a), v) ∉ s.tables.latestPerAuthor.rows)
    (hrun : Inserts blake3 ns s l s') {t : U64} :
    (∃ key, (toLex (ns, a), (t, key)) ∈ s'.tables.latestPerAuthor.rows) ↔
      ∃ d, lastOf a l = some d ∧ d.record.timestamp = t := by
  simp only [latest_inserts hrun]
  cases lastOf a l with
  | none => exact iff_of_false (fun h => h.elim fun _ hk => hs _ _ hk) (by simp)
  | some d =>
    simp only [Prod.mk.injEq, Option.some.injEq, exists_eq_left']
    exact ⟨fun ⟨_, ht, _⟩ => ht.symm, fun ht => ⟨_, ht.symm, rfl⟩⟩

def timestampsOf (a : AuthorId) (l : List DocEntry) : Set U64 :=
  {t | ∃ d ∈ l, d.author = a ∧ d.record.timestamp = t}

/-- If the last entry of each author is its newest one, news are what is newer than every entry. -/
lemma isNewsFor_ourHeads (hs : ∀ a v, (toLex (ns, a), v) ∉ s.tables.latestPerAuthor.rows)
    (hrun : Inserts blake3 ns s l s')
    (hlast : ∀ a d, lastOf a l = some d → ∀ e ∈ l, e.author = a →
      e.record.timestamp ≤ d.record.timestamp) {t : U64} :
    (s'.ourHeads ns).isNewsFor a t = true ↔ ∀ e ∈ l, e.author = a → e.record.timestamp < t := by
  unfold AuthorHeads.isNewsFor
  split
  · rename_i theirs htheir
    obtain ⟨d, hd, rfl⟩ := (latest_isSome_iff hs hrun).mp (get_ourHeads.mp htheir)
    have hmem := lastOf_eq_some hd
    rw [decide_eq_true_eq]
    exact ⟨fun hlt e he hea => lt_of_le_of_lt (hlast a d hd e he hea) hlt,
      fun h => h d hmem.1 hmem.2⟩
  · rename_i hnone
    refine iff_of_true rfl fun e he hea => ?_
    have hlast' : lastOf a l = none := by
      cases hl : lastOf a l with
      | none => rfl
      | some d =>
        have hget := get_ourHeads.mpr ((latest_isSome_iff hs hrun).mpr ⟨d, hl, rfl⟩)
        rw [hnone] at hget
        cases hget
    exact absurd hea (lastOf_eq_none.mp hlast' e he)

/-- After a run of inserts the heads are the greatest timestamps, and news are
reported for what is newer than every inserted record, exactly if the record of each author that
was inserted last is its newest one. -/
theorem heads_iff (hs : ∀ a v, (toLex (ns, a), v) ∉ s.tables.latestPerAuthor.rows)
    (hrun : Inserts blake3 ns s l s') :
    ((∀ a t, (∃ key, (toLex (ns, a), (t, key)) ∈ s'.tables.latestPerAuthor.rows) ↔
          IsGreatest (timestampsOf a l) t) ∧
        ∀ heads : AuthorHeads, (s'.hasNewsForUs ns heads).isSome = true ↔
          ∃ a t, (a, t) ∈ heads.heads.rows ∧ ∀ d ∈ l, d.author = a → d.record.timestamp < t) ↔
      ∀ a d, lastOf a l = some d → ∀ e ∈ l, e.author = a →
        e.record.timestamp ≤ d.record.timestamp := by
  constructor
  · rintro ⟨hheads, -⟩ a d hd e he hea
    have hgreatest := (hheads a _).mp ((latest_isSome_iff hs hrun).mpr ⟨d, hd, rfl⟩)
    exact hgreatest.2 ⟨e, he, hea, rfl⟩
  · intro hlast
    have hgreatest : ∀ a d, lastOf a l = some d →
        IsGreatest (timestampsOf a l) d.record.timestamp := by
      intro a d hd
      have hmem := lastOf_eq_some hd
      refine ⟨⟨d, hmem.1, hmem.2, rfl⟩, ?_⟩
      rintro t ⟨e, he, hea, rfl⟩
      exact hlast a d hd e he hea
    refine ⟨fun a t => ?_, fun heads => ?_⟩
    · rw [latest_isSome_iff hs hrun]
      constructor
      · rintro ⟨d, hd, rfl⟩
        exact hgreatest a d hd
      · intro ht
        obtain ⟨e, he, hea, -⟩ := ht.1
        cases hl : lastOf a l with
        | none => exact absurd hea (lastOf_eq_none.mp hl e he)
        | some d => exact ⟨d, rfl, (hgreatest a d hl).unique ht⟩
    · rw [FsStore.hasNewsForUs, AuthorHeads.hasNewsFor_isSome]
      simp only [isNewsFor_ourHeads hs hrun hlast]

end

lemma inserts_two {t u : U64} (h : t = 1 ∧ u = 2 ∨ t = 2 ∧ u = 1) :
    Inserts (fun _ => .zero 32) (.zero 32) .new [.content [1] t, .content [2] u]
      ((content [2] u).inserted (.zero 32) ((content [1] t).inserted (.zero 32) .new)) := by
  refine @Inserts.cons _ _ _ ((content [1] t).inserted (.zero 32) .new) _ _ _ 0 ?_
    (.cons (n := 0) ?_ (.nil _))
  all_goals rcases h with ⟨rfl, rfl⟩ | ⟨rfl, rfl⟩ <;> decide

/-- Two records of one author inserted in the order of their timestamps. -/
theorem heads_in_order : ∃ s', Inserts (fun _ => .zero 32) (.zero 32) .new
      [.content [1] 1, .content [2] 2] s' ∧
    (∀ a t, (∃ key, (toLex (.zero 32, a), (t, key)) ∈ s'.tables.latestPerAuthor.rows) ↔
      IsGreatest (timestampsOf a [.content [1] 1, .content [2] 2]) t) ∧
    ∀ heads : AuthorHeads, (s'.hasNewsForUs (.zero 32) heads).isSome = true ↔
      ∃ a t, (a, t) ∈ heads.heads.rows ∧ ∀ d ∈ [content [1] 1, .content [2] 2], d.author = a →
          d.record.timestamp < t := by
  have hrun := inserts_two (.inl ⟨rfl, rfl⟩)
  refine ⟨_, hrun, (heads_iff (by simp [FsStore.new, Tables.empty]) hrun).mpr ?_⟩
  intro a d hd e he hea
  have ha : a = .zero 32 := by
    rw [← hea]
    exact (show ∀ e ∈ [content [1] 1, .content [2] 2], e.author = .zero 32 by decide) e he
  have hlast : lastOf (.zero 32) [.content [1] 1, .content [2] 2] = some (.content [2] 2) := by
    decide
  rw [ha, hlast] at hd
  cases hd
  exact (show ∀ e ∈ [content [1] 1, .content [2] 2], e.record.timestamp ≤ 2 by decide)
    e he

/-- The older of two records of one author is inserted last: it becomes the head, and the newer
timestamp is reported as news. -/
theorem heads_out_of_order : ∃ s', Inserts (fun _ => .zero 32) (.zero 32) .new
      [.content [1] 2, .content [2] 1] s' ∧
    s'.tables.latestPerAuthor.rows = [(toLex (.zero 32, .zero 32), (1, [2]))] ∧
    s'.hasNewsForUs (.zero 32) (AuthorHeads.empty.insert (.zero 32) 2) = some 1 := by
  exact ⟨_, inserts_two (.inr ⟨rfl, rfl⟩), by decide, by decide⟩

end Krikos.Docs
