import Krikos.Docs.Codec
import Krikos.Docs.Heads

/-!
# Docs.HeadsCodec

The encoding of author heads (`heads.rs`). The encoder sorts the heads into a map by timestamp, so
of the authors with one timestamp only the last one is encoded. If the timestamps differ, what it
drops to keep the size limit are the oldest heads (`encode_keeps_newest_iff`).
-/

namespace Krikos.Docs

open Lib List

namespace AuthorHeads

/-! ## The encoding -/

def itemsWire : Wire (List (U64 × AuthorId)) :=
  .list (Wire.u64.pair (.fixed 32)) (Wire.pair_pos fun n => Wire.putVarint_pos n.val)

def byTimestamp (h : AuthorHeads) : Table U64 AuthorId :=
  h.heads.rows.foldl (fun byTimestamp row => byTimestamp.insert row.2 row.1) .empty

/-- The loop over the heads from the newest one on; an item that exceeds the limit ends it. -/
def encodeLoop (sizeLimit : Option Nat) :
    List (U64 × AuthorId) → List (U64 × AuthorId) → List (U64 × AuthorId)
  | items, [] => items
  | items, item :: rest =>
    if sizeLimit.any (· < (itemsWire.put (items ++ [item])).length) then items
    else encodeLoop sizeLimit (items ++ [item]) rest

def encode (h : AuthorHeads) (sizeLimit : Option Nat) : Bytes :=
  itemsWire.put (encodeLoop sizeLimit [] h.byTimestamp.rows.reverse)

inductive DecodeError where
  | postcard
  | limit (error : LimitError)
  deriving DecidableEq

def ofItems (items : List (U64 × AuthorId)) : AuthorHeads :=
  items.foldl (fun heads item => heads.insert item.2 item.1) .empty

def decode (bytes : Bytes) : Except DecodeError AuthorHeads :=
  match itemsWire.get bytes with
  | none => .error .postcard
  | some (items, _) =>
    if maxEntriesPerSyncMessage < items.length then
      .error (.limit ⟨"author heads", items.length, maxEntriesPerSyncMessage⟩)
    else .ok (ofItems items)

/-! ## Sizes -/

lemma length_items (items : List (U64 × AuthorId)) :
    (items.flatMap (Wire.u64.pair (.fixed 32)).put).length ≤ 42 * items.length := by
  induction items with
  | nil => exact Nat.le_refl _
  | cons item items ih =>
    have hts := Wire.putVarint_length_le (k := 9) (item.1.isLt.trans (by decide))
    have hauthor := item.2.property
    rw [flatMap_cons, length_append, length_cons]
    simp only [Wire.pair, Wire.u64, Wire.number, Wire.fixed, length_append]
    simp only [Wire.pair, Wire.u64, Wire.number, Wire.fixed] at ih
    omega

lemma decode_put {items : List (U64 × AuthorId)} (h : items.length ≤ maxEntriesPerSyncMessage) :
    decode (itemsWire.put items) = .ok (ofItems items) := by
  rw [maxEntriesPerSyncMessage] at h
  have hlen : (itemsWire.put items).length < 2 ^ 64 := by
    have hitems := length_items items
    have hcount := Wire.putVarint_length_le (k := 9) (n := items.length) (by omega)
    simp only [itemsWire, Wire.list, length_append]
    omega
  have hget := itemsWire.get_put items [] hlen
  rw [append_nil] at hget
  rw [decode, hget]
  exact if_neg (Nat.not_lt.mpr h)

/-- The encoded items are the first ones, and they keep the limit if none of them does. -/
lemma encodeLoop_spec (sizeLimit : Option Nat) (items rest : List (U64 × AuthorId)) :
    ∃ dropped, items ++ rest = encodeLoop sizeLimit items rest ++ dropped ∧
      (sizeLimit = none → dropped = []) ∧
      ∀ limit ∈ sizeLimit, (itemsWire.put items).length ≤ limit →
        (itemsWire.put (encodeLoop sizeLimit items rest)).length ≤ limit := by
  fun_induction encodeLoop sizeLimit items rest with
  | case1 items => exact ⟨[], by simp, fun _ => rfl, fun _ _ h => h⟩
  | case2 items item rest hover =>
    refine ⟨item :: rest, rfl, ?_, fun _ _ h => h⟩
    rintro rfl
    cases hover
  | case3 items item rest hfits ih =>
    obtain ⟨dropped, heq, hnone, hlimit⟩ := ih
    refine ⟨dropped, by rw [← heq]; simp, hnone, fun limit hl _ => hlimit limit hl ?_⟩
    rw [Option.mem_def.mp hl] at hfits
    simpa using hfits

/-! ## The heads by timestamp -/

section
variable {h : AuthorHeads} {a : AuthorId} {t : U64} {l : List (AuthorId × U64)}
  {table : Table U64 AuthorId}

lemma mem_foldl_insert
    (h : (t, a) ∈ (l.foldl (fun table row => table.insert row.2 row.1) table).rows) :
    (t, a) ∈ table.rows ∨ (a, t) ∈ l := by
  induction l generalizing table with
  | nil => exact .inl h
  | cons row l ih =>
    rcases ih h with hrow | hrow
    · rcases Table.mem_insert.mp hrow with ⟨rfl, rfl⟩ | ⟨-, hold⟩
      · exact .inr (mem_cons_self ..)
      · exact .inl hold
    · exact .inr (mem_cons_of_mem _ hrow)

lemma mem_foldl_insert_of_nodup (hl : (l.map Prod.snd).Nodup)
    (h : (a, t) ∈ l ∨ (t, a) ∈ table.rows ∧ t ∉ l.map Prod.snd) :
    (t, a) ∈ (l.foldl (fun table row => table.insert row.2 row.1) table).rows := by
  induction l generalizing table with
  | nil => simpa using h
  | cons row l ih =>
    rw [map_cons, nodup_cons] at hl
    refine ih hl.2 ?_
    rcases h with hmem | ⟨htable, hnot⟩
    · rcases mem_cons.mp hmem with rfl | hmem
      · exact .inr ⟨Table.mem_insert.mpr (.inl ⟨rfl, rfl⟩), hl.1⟩
      · exact .inl hmem
    · rw [map_cons, mem_cons, not_or] at hnot
      exact .inr ⟨Table.mem_insert.mpr (.inr ⟨hnot.1, htable⟩), hnot.2⟩

lemma mem_heads_of_mem_byTimestamp (hrow : (t, a) ∈ h.byTimestamp.rows) : (a, t) ∈ h.heads.rows :=
  (mem_foldl_insert hrow).resolve_left (by simp)

lemma mem_ofItems {items : List (U64 × AuthorId)} (hsub : ∀ item ∈ items, item ∈ h.byTimestamp.rows)
    (hnd : items.Nodup) : (a, t) ∈ (ofItems items).heads.rows ↔ (t, a) ∈ items := by
  have hauthors : (items.map Prod.snd).Nodup := by
    refine hnd.map_on fun x hx y hy heq => ?_
    have hrow := mem_heads_of_mem_byTimestamp (hsub y hy)
    rw [← heq] at hrow
    exact Prod.ext (Table.eq_of_mem (mem_heads_of_mem_byTimestamp (hsub x hx)) hrow) heq
  rw [← Table.get_eq_some]
  refine Iff.trans (get_foldl_insert (h := .empty) hauthors fun _ _ => rfl)
    ⟨?_, fun hmem => .inr ⟨_, hmem, rfl, rfl⟩⟩
  rintro (hc | ⟨⟨t', a'⟩, hmem, rfl, rfl⟩)
  · cases hc
  · exact hmem

/-- What encoding and decoding with a limit keeps, for each of the heads. -/
structure Keeps (h : AuthorHeads) (limit : Nat) : Prop where
  length : (h.encode (some limit)).length ≤ limit
  newest : ∃ kept, decode (h.encode (some limit)) = .ok kept ∧ kept.heads.rows ⊆ h.heads.rows ∧
    ∀ row ∈ kept.heads.rows, ∀ old ∈ h.heads.rows, old ∉ kept.heads.rows → old.2 ≤ row.2

lemma encode_spec (hlen : h.heads.rows.length ≤ maxEntriesPerSyncMessage) (sizeLimit : Option Nat) :
    ∃ items dropped, h.byTimestamp.rows.reverse = items ++ dropped ∧
      decode (h.encode sizeLimit) = .ok (ofItems items) ∧ (sizeLimit = none → dropped = []) ∧
      (∀ limit ∈ sizeLimit, 1 ≤ limit → (h.encode sizeLimit).length ≤ limit) ∧
      ∀ a t, (a, t) ∈ (ofItems items).heads.rows ↔ (t, a) ∈ items := by
  obtain ⟨dropped, heq, hnone, hlimit⟩ := encodeLoop_spec sizeLimit [] h.byTimestamp.rows.reverse
  rw [nil_append] at heq
  unfold encode
  generalize encodeLoop sizeLimit [] h.byTimestamp.rows.reverse = items at heq hlimit ⊢
  have hsub : ∀ item ∈ items, item ∈ h.byTimestamp.rows := fun item hitem =>
    mem_reverse.mp (heq ▸ mem_append_left _ hitem)
  have hnd : items.Nodup := by
    have hrows := nodup_reverse.mpr (h.byTimestamp.keys_nodup.of_map _)
    exact (nodup_append.mp (heq ▸ hrows)).1
  have hcount : items.length ≤ h.heads.rows.length := by
    rw [← length_map Prod.swap]
    refine ((hnd.map Prod.swap_injective).subperm fun row hrow => ?_).length_le
    obtain ⟨item, hitem, rfl⟩ := mem_map.mp hrow
    exact mem_heads_of_mem_byTimestamp (hsub item hitem)
  exact ⟨_, dropped, heq, decode_put (hcount.trans hlen), hnone, hlimit,
    fun a t => mem_ofItems hsub hnd⟩

/-- Heads within the limit of authors are decoded from their encoding, and from an
encoding with a size limit the newest ones are, exactly if no two authors have the same
timestamp. -/
theorem encode_keeps_newest_iff (hlen : h.heads.rows.length ≤ maxEntriesPerSyncMessage) :
    (decode (h.encode none) = .ok h ∧ ∀ limit, 1 ≤ limit → h.Keeps limit) ↔
      (h.heads.rows.map Prod.snd).Nodup := by
  constructor
  · rintro ⟨hround, -⟩
    obtain ⟨items, dropped, heq, hdec, -, -, hmem⟩ := encode_spec hlen none
    have hself : h = ofItems items := Except.ok.inj (hround.symm.trans hdec)
    have hrows : ∀ row ∈ h.heads.rows, (row.2, row.1) ∈ h.byTimestamp.rows := fun row hrow => by
      rw [hself] at hrow
      exact mem_reverse.mp (heq ▸ mem_append_left _ ((hmem _ _).mp hrow))
    refine (h.heads.keys_nodup.of_map _).map_on fun x hx y hy hxy => ?_
    have hrow := hrows y hy
    rw [← hxy] at hrow
    exact Prod.ext (Table.eq_of_mem (hrows x hx) hrow) hxy
  · intro hnd
    have hiff : ∀ a t, (a, t) ∈ h.heads.rows ↔ (t, a) ∈ h.byTimestamp.rows.reverse := fun a t => by
      rw [mem_reverse]
      exact ⟨fun hrow => mem_foldl_insert_of_nodup hnd (.inl hrow), mem_heads_of_mem_byTimestamp⟩
    constructor
    · obtain ⟨items, dropped, heq, hdec, hnone, -, hmem⟩ := encode_spec hlen none
      rw [hnone rfl, append_nil] at heq
      have hheads : (ofItems items).heads = h.heads :=
        Table.ext_mem fun a t => by rw [hmem, hiff, heq]
      rw [hdec, show ofItems items = h from congrArg AuthorHeads.mk hheads]
    · intro limit hpos
      obtain ⟨items, dropped, heq, hdec, -, hlimit, hmem⟩ := encode_spec hlen (some limit)
      have hsort := pairwise_reverse.mpr h.byTimestamp.sorted
      rw [heq, pairwise_append] at hsort
      refine ⟨hlimit limit rfl hpos, _, hdec, fun row hrow => ?_, fun row hrow old hold hnot => ?_⟩
      · rw [hiff, heq]
        exact mem_append_left _ ((hmem _ _).mp hrow)
      · rw [hiff, heq] at hold
        rw [hmem] at hnot
        exact (hsort.2.2 _ ((hmem _ _).mp hrow) _ ((mem_append.mp hold).resolve_left hnot)).le

end

/-- Heads of two authors at different times, with room for one of them. -/
theorem encode_keeps_newest_two :
    let h := (empty.insert (.zero 32) 1).insert (.max 32) 2
    decode (h.encode none) = .ok h ∧ ∀ limit, 1 ≤ limit → h.Keeps limit :=
  (encode_keeps_newest_iff (by decide)).mpr (by decide)

/-- Two authors with the same timestamp: the head of the first one is not encoded. -/
theorem encode_drops_equal_timestamp :
    decode (((empty.insert (.zero 32) 1).insert (.max 32) 1).encode none) =
      .ok (empty.insert (.max 32) 1) := by decide +kernel

end AuthorHeads
end Krikos.Docs
