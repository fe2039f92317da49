import Krikos.Docs.FsStore

/-!
# Docs.Merge

What repeated `put`s leave in the records table of the persistent store, for any order of arrival.

A record is looked at through its `Stamp`: author, key, timestamp and content hash. `Stamp.below`
is the order of the last-writer-wins rule. The store follows it only in part: it looks for newer
records with `parents`, which sees neither tombstones nor the empty key, and it deletes the range
of keys from the new key up to its increment, which can hold keys that are not under it. So `put`
is an arrival by the rules `Stamp.blocks` and `Stamp.clears` (`stampsOf_put`), and
`putAll_perm_iff` says for which collections every order of arrival ends as the rule demands.
-/

namespace Krikos.Docs

open Lib DocEntry RecordsBounds StoreInstance

structure Stamp where
  author : AuthorId
  key : Bytes
  timestamp : U64
  hash : Hash
  deriving DecidableEq

namespace Stamp

def value (x : Stamp) : U64 ×ₗ Hash := toLex (x.timestamp, x.hash)

/-- `p` is by the same author at the same key or a prefix of it, and matches or exceeds `d`. -/
def below (d p : Stamp) : Prop := p.author = d.author ∧ p.key <+: d.key ∧ d.value ≤ p.value

/-- What `parents` can see: a record with content at a non-empty key. -/
def Visible (p : Stamp) : Prop := p.key ≠ [] ∧ p.hash ≠ Hash.empty

/-- The stored `p` keeps `d` out. -/
def blocks (p d : Stamp) : Prop := p.Visible ∧ below d p

/-- The arriving `e` deletes or overwrites the stored `x`. -/
def clears (e x : Stamp) : Prop :=
  x.author = e.author ∧
    (inPrefixRange e.key x.key = true ∧ x.value ≤ e.value ∨ x.key = e.key ∧ ¬ blocks x e)

instance (d p : Stamp) : Decidable (below d p) := inferInstanceAs (Decidable (_ ∧ _ ∧ _))

instance (p d : Stamp) : Decidable (blocks p d) :=
  inferInstanceAs (Decidable ((_ ≠ _ ∧ _ ≠ _) ∧ below d p))

instance (e x : Stamp) : Decidable (clears e x) := inferInstanceAs (Decidable (_ ∧ (_ ∨ _)))

lemma eq_of_value_eq {x y : Stamp} (ha : x.author = y.author) (hk : x.key = y.key)
    (hv : x.value = y.value) : x = y := by
  obtain ⟨author, key, timestamp, hash⟩ := x
  obtain ⟨author', key', timestamp', hash'⟩ := y
  simp only [value, toLex_inj, Prod.mk.injEq] at ha hk hv
  rw [ha, hk, hv.1, hv.2]

lemma prefix_antisymm {a b : Bytes} (hab : a <+: b) (hba : b <+: a) : a = b :=
  hab.eq_of_length (le_antisymm hab.length_le hba.length_le)

lemma above_below : Above below where
  refl _ := ⟨rfl, List.prefix_rfl, le_rfl⟩
  trans hab hbc := ⟨hbc.1.trans hab.1, hbc.2.1.trans hab.2.1, hab.2.2.trans hbc.2.2⟩
  antisymm hab hba := eq_of_value_eq hba.1 (prefix_antisymm hba.2.1 hab.2.1)
    (le_antisymm hab.2.2 hba.2.2)

lemma rules : Rules below blocks clears where
  toAbove := above_below
  blocks_le h := h.2
  blocks_mono hp hd := ⟨hp.1, above_below.trans hd hp.2⟩
  clears_of_le h := ⟨h.1.symm, .inl ⟨ inPrefixRange_of_prefix h.2.1, h.2.2⟩⟩
  le_of_clears := by
    rintro x e ⟨ha, ⟨hran, hv⟩ | ⟨_, hnb⟩⟩ hb
    · refine ⟨ha.symm, ?_, hv⟩
      have hle : e.key ≤ x.key := by
        rw [inPrefixRange, Bool.and_eq_true, decide_eq_true_eq] at hran
        exact hran.1
      rw [le_antisymm hle (Bytes.le_of_prefix hb.2.2.1)]
    · exact absurd hb hnb

end Stamp

def DocEntry.stamp (d : DocEntry) : Stamp := ⟨d.author, d.key, d.record.timestamp, d.record.hash⟩

def stampsOf (ns : NamespaceId) (s : FsStore) : Set Stamp :=
  Set.image stamp (docEntries ns s)

section
variable {blake3 : Bytes → Bytes32} {ns : NamespaceId} {s : FsStore} {d : DocEntry}

lemma DocEntry.record_le_iff {p : DocEntry} :
    d.record ≤ p.record ↔ d.stamp.value ≤ p.stamp.value := Record.le_iff

lemma exists_newer_parent :
    (∃ e ∈ parents s.tables.records ns d.author d.key, d.record ≤ RangeEntry.value e) ↔
      ∃ x ∈ stampsOf ns s, x.blocks d.stamp := by
  constructor
  · rintro ⟨e, he, hle⟩
    obtain ⟨p, hne, hp, hget⟩ := mem_parents.mp he
    obtain ⟨v, hv, hhash, rfl⟩ := getExact_eq_some.mp hget
    exact ⟨(ofRow d.author p v).stamp, ⟨_, hv, rfl⟩, ⟨hne, hhash⟩, rfl, hp, Record.le_iff.mp hle⟩
  · rintro ⟨_, ⟨p, hp, rfl⟩, ⟨hne, hhash⟩, ha, hk, hv⟩
    have hrow : (⟨ns, d.author, p.key⟩, p.value) ∈ s.tables.records.rows := by
      rw [← show p.author = d.author from ha]
      exact hp
    refine ⟨intoEntry ⟨ns, d.author, p.key⟩ p.value, mem_parents.mpr ⟨p.key, hne, hk, ?_⟩, ?_⟩
    · exact getExact_eq_some.mpr ⟨p.value, hrow, hhash, rfl⟩
    · exact Record.le_iff.mpr hv

lemma prefixesOf_signed : (storeInstance blake3 ns).prefixesOf s (RangeEntry.key (d.signed ns)) =
    .ok ((parents s.tables.records ns d.author d.key).map .ok) := by
  show prefixesOf s (.new ns d.author d.key) = _
  simp only [prefixesOf, RecordIdentifier.toByteTuple_new]

def DocEntry.deletes (ns : NamespaceId) (d : DocEntry) (row : RecordsId × RecordsValue) : Bool :=
  (authorPrefix ns d.author d.key).contains row.1 &&
    decide ((⟨row.2.len, row.2.hash, row.2.timestamp⟩ : Record) ≤ d.record)

lemma removePrefixFiltered_signed :
    (storeInstance blake3 ns).removePrefixFiltered s (RangeEntry.key (d.signed ns))
        (fun v => decide (v ≤ RangeEntry.value (d.signed ns))) =
      .ok ({ s with tables := { s.tables with
          records := s.tables.records.removeIf (d.deletes ns) } },
        (s.tables.records.rows.filter (d.deletes ns)).length) := by
  show removePrefixFiltered s (.new ns d.author d.key)
    (fun v => decide (v ≤ d.record)) = _
  simp only [removePrefixFiltered, RecordIdentifier.toByteTuple_new]
  rfl

def DocEntry.written (ns : NamespaceId) (d : DocEntry) (s : FsStore) : FsStore :=
  { s with tables := { s.tables with
    records := s.tables.records.insert ⟨ns, d.author, d.key⟩ d.value
    recordsByKey := s.tables.recordsByKey.insert ⟨ns, d.key, d.author⟩ ()
    latestPerAuthor := s.tables.latestPerAuthor.insert (toLex (ns, d.author))
      (d.record.timestamp, d.key) } }

lemma entryPut_signed :
    (storeInstance blake3 ns).entryPut s (d.signed ns) = .ok (d.written ns s) := by
  show entryPut s (d.signed ns) = _
  simp only [entryPut, signed, RecordIdentifier.toByteTuple_new]
  rfl

def DocEntry.inserted (ns : NamespaceId) (d : DocEntry) (s : FsStore) : FsStore :=
  d.written ns { s with tables := { s.tables with
    records := s.tables.records.removeIf (d.deletes ns) } }

lemma put_of_blocked (hb : ∃ x ∈ stampsOf ns s, x.blocks d.stamp) :
    (storeInstance blake3 ns).put s (d.signed ns) = .ok (s, .notInserted) :=
  Store.put_of_newer prefixesOf_signed (exists_newer_parent.mpr hb)

lemma put_of_free (hb : ¬ ∃ x ∈ stampsOf ns s, x.blocks d.stamp) :
    (storeInstance blake3 ns).put s (d.signed ns) = .ok (d.inserted ns s,
      .inserted (s.tables.records.rows.filter (d.deletes ns)).length) :=
  Store.put_of_not_newer prefixesOf_signed (fun h => hb (exists_newer_parent.mp h))
    removePrefixFiltered_signed entryPut_signed

lemma mem_docEntries_inserted {p : DocEntry} : p ∈ docEntries ns (d.inserted ns s) ↔
    p = d ∨ p ∈ docEntries ns s ∧ ¬ (p.author = d.author ∧ p.key = d.key) ∧
      ¬ (p.author = d.author ∧ inPrefixRange d.key p.key = true ∧ p.record ≤ d.record) := by
  have hrow : p ∈ docEntries ns (d.inserted ns s) ↔
      (⟨ns, p.author, p.key⟩, p.value) ∈ ((s.tables.records.removeIf (d.deletes ns)).insert
        ⟨ns, d.author, d.key⟩ d.value).rows := Iff.rfl
  have hdel : d.deletes ns (⟨ns, p.author, p.key⟩, p.value) = false ↔
      ¬ (p.author = d.author ∧ inPrefixRange d.key p.key = true ∧ p.record ≤ d.record) := by
    rw [deletes, ← Bool.not_eq_true, Bool.and_eq_true, decide_eq_true_eq, contains_authorPrefix]
    exact not_congr ⟨fun h => ⟨h.1.2.1, h.1.2.2, h.2⟩, fun h => ⟨⟨rfl, h.1, h.2.1⟩, h.2.2⟩⟩
  rw [hrow, Table.mem_insert, Table.mem_removeIf, hdel, mem_docEntries]
  simp only [RecordsId.mk.injEq, true_and, ne_eq]
  constructor
  · rintro (⟨⟨ha, hk⟩, hv⟩ | ⟨hne, hmem, hdel⟩)
    · refine .inl ?_
      obtain ⟨author, key, record, signature⟩ := p
      obtain ⟨len, hash, timestamp⟩ := record
      obtain ⟨authorSig, namespaceSig⟩ := signature
      simp only [value] at ha hk hv
      cases hv
      cases ha
      cases hk
      rfl
    · exact .inr ⟨hmem, hne, hdel⟩
  · rintro (rfl | ⟨hmem, hne, hdel⟩)
    · exact .inl ⟨⟨rfl, rfl⟩, rfl⟩
    · exact .inr ⟨hne, hmem, hdel⟩

lemma stampsOf_put (blake3 : Bytes → Bytes32) (ns : NamespaceId) (s : FsStore) (d : DocEntry) :
    ∃ s' outcome, (storeInstance blake3 ns).put s (d.signed ns) = .ok (s', outcome) ∧
      stampsOf ns s' = settle Stamp.blocks Stamp.clears (stampsOf ns s) d.stamp := by
  by_cases hb : ∃ x ∈ stampsOf ns s, x.blocks d.stamp
  · exact ⟨s, _, put_of_blocked hb, (settle_of_blocked hb).symm⟩
  · refine ⟨_, _, put_of_free hb, ?_⟩
    rw [settle_of_free hb]
    have hclear : ∀ p ∈ docEntries ns s, ¬ d.stamp.clears p.stamp ↔
        ¬ (p.author = d.author ∧ p.key = d.key) ∧
          ¬ (p.author = d.author ∧ inPrefixRange d.key p.key = true ∧ p.record ≤ d.record) := by
      intro p hp
      have hnb : ¬ p.stamp.blocks d.stamp := fun h => hb ⟨_, ⟨p, hp, rfl⟩, h⟩
      rw [Stamp.clears, record_le_iff]
      simp only [stamp] at hnb ⊢
      tauto
    ext x
    constructor
    · rintro ⟨p, hp, rfl⟩
      cases mem_docEntries_inserted.mp hp with
      | inl hp => rw [hp]; exact Set.mem_insert _ _
      | inr hp => exact Set.mem_insert_of_mem _ ⟨⟨p, hp.1, rfl⟩, (hclear p hp.1).mpr hp.2⟩
    · rintro (rfl | ⟨⟨p, hp, rfl⟩, hc⟩)
      · exact ⟨d, mem_docEntries_inserted.mpr (.inl rfl), rfl⟩
      · exact ⟨p, mem_docEntries_inserted.mpr (.inr ⟨hp, (hclear p hp).mp hc⟩), rfl⟩

end

/-! ## Any order of arrival -/

section
variable {blake3 : Bytes → Bytes32} {ns : NamespaceId}

lemma stampsOf_putAll (blake3 : Bytes → Bytes32) (ns : NamespaceId) (l : List DocEntry)
    (s : FsStore) : ∃ s', (storeInstance blake3 ns).putAll s (l.map (signed ns)) = .ok s' ∧
      stampsOf ns s' = settleAll Stamp.blocks Stamp.clears (stampsOf ns s) (l.map stamp) := by
  induction l generalizing s with
  | nil => exact ⟨s, rfl, rfl⟩
  | cons d l ih =>
    obtain ⟨s₁, outcome, hput, hs₁⟩ := stampsOf_put blake3 ns s d
    obtain ⟨s₂, hrest, hs₂⟩ := ih s₁
    refine ⟨s₂, ?_, ?_⟩
    · simp only [List.map_cons, Store.putAll, hput, hrest]
    · rw [hs₂, hs₁]
      rfl

/-- **Any order of arrival.** The puts of a collection of entries of one namespace leave exactly
the entries that no other entry of the collection matches or exceeds, whatever their order, if and
only if every entry that is matched or exceeded is so by a visible one, and no other entry deletes
or overwrites one that is not. -/
theorem putAll_perm_iff (blake3 : Bytes → Bytes32) (ns : NamespaceId) (s : FsStore)
    (hs : docEntries ns s = ∅) (l : List DocEntry) :
    (∀ l' : List DocEntry, l'.Perm l →
        ∃ s', (storeInstance blake3 ns).putAll s (l'.map (signed ns)) = .ok s' ∧
          stampsOf ns s' = maxima Stamp.below {x | x ∈ l.map stamp}) ↔
      (∀ d ∈ l.map stamp, d ∉ maxima Stamp.below {x | x ∈ l.map stamp} →
          ∃ p ∈ l.map stamp, p ≠ d ∧ p.blocks d) ∧
        (∀ m ∈ maxima Stamp.below {x | x ∈ l.map stamp},
          ∀ e ∈ l.map stamp, e.clears m → e = m) := by
  have hempty : stampsOf ns s = ∅ := by rw [stampsOf, hs, Set.image_empty]
  rw [← settleAll_perm_iff Stamp.rules (l.map stamp)]
  constructor
  · intro h ls hls
    obtain ⟨l', hl', rfl⟩ := exists_perm_map hls
    obtain ⟨s', hput, hs'⟩ := h l' hl'
    obtain ⟨s'', hput', hs''⟩ := stampsOf_putAll blake3 ns l' s
    rw [hput] at hput'
    cases hput'
    rw [← hs', hs'', hempty]
  · intro h l' hl'
    obtain ⟨s', hput, hs'⟩ := stampsOf_putAll blake3 ns l' s
    exact ⟨s', hput, by rw [hs', hempty, h _ (hl'.map stamp)]⟩

end

def DocEntry.content (key : Bytes) (timestamp : U64) : DocEntry :=
  ⟨.zero 32, key, ⟨1, .zero 32, timestamp⟩, ⟨.zero 64, .zero 64⟩⟩

def DocEntry.tombstone (key : Bytes) (timestamp : U64) : DocEntry :=
  ⟨.zero 32, key, ⟨0, .empty, timestamp⟩, ⟨.zero 64, .zero 64⟩⟩

/-- A newer record at `[1]` and an older one under it end as the newer one in both orders. -/
theorem putAll_perm_parent : docEntries (.zero 32) .new = ∅ ∧
    ∀ l' : List DocEntry, l'.Perm [.content [1] 2, .content [1, 2] 1] →
      ∃ s', (storeInstance (fun _ => .zero 32) (.zero 32)).putAll .new
          (l'.map (signed (.zero 32))) = .ok s' ∧
        stampsOf (.zero 32) s' = maxima Stamp.below
          {x | x ∈ [content [1] 2, .content [1, 2] 1].map stamp} := by
  have hnew : docEntries (.zero 32) .new = ∅ := by
    ext d
    simp [mem_docEntries, FsStore.new, Tables.empty]
  have hmax : (content [1] 2).stamp ∈ maxima Stamp.below
      {x | x ∈ [content [1] 2, .content [1, 2] 1].map stamp} := by
    refine ⟨by decide, fun q hq hle => ?_⟩
    cases hq with
    | head => rfl
    | tail _ hq =>
      obtain rfl := List.mem_singleton.mp hq
      exact absurd hle (by decide)
  refine ⟨hnew, (putAll_perm_iff _ _ _ hnew _).mpr ⟨?_, ?_⟩⟩
  · intro d hd hnot
    cases hd with
    | head => exact absurd hmax hnot
    | tail _ hd =>
      obtain rfl := List.mem_singleton.mp hd
      exact ⟨(content [1] 2).stamp, by decide, by decide, by decide⟩
  · intro m hm e he hc
    cases hm.1 with
    | head =>
      cases he with
      | head => rfl
      | tail _ he =>
        obtain rfl := List.mem_singleton.mp he
        exact absurd hc (by decide)
    | tail _ hml =>
      obtain rfl := List.mem_singleton.mp hml
      exact absurd (hm.2 _ hmax.1 (by decide)) (by decide)

/-- A tombstone that arrives before an older record at its key is overwritten by it; in the other
order it stays. -/
theorem putAll_tombstone_overwritten : ((storeInstance (fun _ => .zero 32) (.zero 32)).putAll .new
        ([.content [1] 1, .tombstone [1] 2].map (signed (.zero 32)))).map
          (fun s => s.tables.records.rows) =
        .ok [(⟨.zero 32, .zero 32, [1]⟩, (tombstone [1] 2).value)] ∧
      ((storeInstance (fun _ => .zero 32) (.zero 32)).putAll .new
        ([.tombstone [1] 2, .content [1] 1].map (signed (.zero 32)))).map
          (fun s => s.tables.records.rows) =
        .ok [(⟨.zero 32, .zero 32, [1]⟩, (content [1] 1).value)] := by
  decide

end Krikos.Docs
