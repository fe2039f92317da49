import Krikos.Docs.Bounds
import Krikos.Docs.RangerContract

/-!
# Docs.FsStore

The persistent document store (`store/fs.rs`, `store/fs/tables.rs`): its tables, and the storage
trait on one namespace of it (`StoreInstance`).

The tables are those of the open transaction. The trait implementation meets the reading half of
the contract (`storeInstance_readsRanges`): a range that can be read yields exactly the entries of
this namespace in it. It can be read if its ends are equal or both have all their parts
(`getRange_ok`), and otherwise slicing an end panics (`getRange_panic`); what bounds the table is
read with says `getRange_exact`.
-/

namespace Krikos.Docs

open Lib RecordIdentifier RecordsBounds List

/-! ## Tables -/

structure RecordsValue where
  timestamp : U64
  namespaceSig : FixedBytes 64
  authorSig : FixedBytes 64
  len : U64
  hash : Hash
  deriving DecidableEq

/-- The key of the index by key. -/
structure RecordsByKeyId where
  ns : NamespaceId
  key : Bytes
  author : AuthorId

namespace RecordsByKeyId

def toTuple (id : RecordsByKeyId) : NamespaceId ×ₗ (Bytes ×ₗ AuthorId) :=
  toLex (id.ns, toLex (id.key, id.author))

lemma toTuple_injective : Function.Injective toTuple := by
  intro a b h
  cases a
  cases b
  simpa [toTuple] using h

instance : LinearOrder RecordsByKeyId := LinearOrder.lift' toTuple toTuple_injective

variable {a b : RecordsByKeyId}

lemma lt_iff : a < b ↔
    a.ns < b.ns ∨ a.ns = b.ns ∧ (a.key < b.key ∨ a.key = b.key ∧ a.author < b.author) := by
  show toTuple a < toTuple b ↔ _
  rw [toTuple, toTuple, Prod.Lex.toLex_lt_toLex, Prod.Lex.toLex_lt_toLex]

lemma le_iff : a ≤ b ↔
    a.ns < b.ns ∨ a.ns = b.ns ∧ (a.key < b.key ∨ a.key = b.key ∧ a.author ≤ b.author) := by
  show toTuple a ≤ toTuple b ↔ _
  rw [toTuple, toTuple, Prod.Lex.toLex_le_toLex, Prod.Lex.toLex_le_toLex]

end RecordsByKeyId

abbrev LatestPerAuthorKey := NamespaceId ×ₗ AuthorId

/-- The tables of the database. The peers of a namespace are a multimap: its values are ordered by
the time at which the peer was last useful. -/
structure Tables where
  records : Table RecordsId RecordsValue
  recordsByKey : Table RecordsByKeyId Unit
  namespaces : Table NamespaceId (Byte × Bytes32)
  latestPerAuthor : Table LatestPerAuthorKey (U64 × Bytes)
  namespacePeers : Table (NamespaceId ×ₗ (U64 ×ₗ PeerIdBytes)) Unit
  downloadPolicy : Table NamespaceId Bytes
  authors : Table AuthorId Bytes32
  deriving DecidableEq

def Tables.empty : Tables := ⟨.empty, .empty, .empty, .empty, .empty, .empty, .empty⟩

structure FsStore where
  tables : Tables
  openReplicas : Finset NamespaceId
  deriving DecidableEq

/-- `Store::memory()`, or a new database file -/
def FsStore.new : FsStore := ⟨.empty, ∅⟩

/-- The errors that the store itself raises. -/
inductive StoreError where
  /-- "replica is not closed" -/
  | replicaIsNotClosed
  /-- "document not created" -/
  | documentNotCreated
  /-- `OpenError::NotFound` -/
  | notFound
  /-- a stored capability has an unknown kind -/
  | capabilityKind (kind : Byte)
  /-- `CapabilityError::NamespaceMismatch` -/
  | namespaceMismatch
  /-- a stored download policy does not decode -/
  | downloadPolicy
  deriving DecidableEq

/-! ## Reading records -/

def intoEntry (id : RecordsId) (v : RecordsValue) : SignedEntry where
  signature := ⟨v.authorSig, v.namespaceSig⟩
  entry := ⟨new id.ns id.author id.key, ⟨v.len, v.hash, v.timestamp⟩⟩

variable (records : Table RecordsId RecordsValue) (ns : NamespaceId) (author : AuthorId)
  (key : Bytes)

def getExact (includeEmpty : Bool) : Option SignedEntry :=
  match records.get ⟨ns, author, key⟩ with
  | none => none
  | some v =>
    let entry := intoEntry ⟨ns, author, key⟩ v
    if includeEmpty || !entry.entry.record.isEmpty then some entry else none

/-- The loop of `parents`, on the reversed key: look up the key, then drop its last byte. -/
def parentsLoop (records : Table RecordsId RecordsValue) (ns : NamespaceId) (author : AuthorId) :
    List Byte → List SignedEntry
  | [] => []
  | c :: rest =>
    match getExact records ns author (c :: rest).reverse false with
    | some entry => entry :: parentsLoop records ns author rest
    | none => parentsLoop records ns author rest

def parents : List SignedEntry :=
  (parentsLoop records ns author key.reverse).reverse

def recordsRange (bounds : RecordsBounds) : List SignedEntry :=
  (records.range bounds.contains).map fun row => intoEntry row.1 row.2

/-! ## The storage trait on one namespace -/

section
variable {ε : Type}

def fingerprintLoop (blake3 : Bytes → Bytes32) :
    Bytes32 → List (Except ε SignedEntry) → Except (Fault ε) Bytes32
  | fp, [] => .ok fp
  | _, .error e :: _ => .error (.error e)
  | fp, .ok el :: rest =>
    match el.asFingerprint blake3 with
    | .error f => .error f
    | .ok x => fingerprintLoop blake3 (Fingerprint.xor fp x) rest

namespace StoreInstance

def getFirst (ns : NamespaceId) (s : FsStore) : Except (Fault ε) RecordIdentifier :=
  match s.tables.records.range (ofNamespace ns).contains with
  | [] => .ok .default
  | (id, _) :: _ => .ok (.new id.ns id.author id.key)

/-- The bounds that the records table is read with for a range. -/
def rangeBounds (ns : NamespaceId) (range : Range RecordIdentifier) :
    Except (Fault ε) (List RecordsBounds) :=
  match compare range.x range.y with
  -- identity range: all entries of the replica
  | .eq => return [ofNamespace ns]
  -- regular range: x <= t < y
  | .lt => do
    let start ← range.x.toByteTuple
    let stop ← range.y.toByteTuple
    return [clampToNamespace ⟨.included start, .excluded stop⟩ ns]
  -- split range: start <= t < y, and then x <= t <= end
  | .gt => do
    let stop ← range.y.toByteTuple
    let start ← range.x.toByteTuple
    return [(fromStart ns (.excluded stop)).clampToNamespace ns,
      (toEnd ns (.included start)).clampToNamespace ns]

def getRange (ns : NamespaceId) (s : FsStore) (range : Range RecordIdentifier) :
    Except (Fault ε) (List (Except ε SignedEntry)) := do
  let bounds ← rangeBounds ns range
  return (bounds.flatMap (recordsRange s.tables.records)).map .ok

def getFingerprint (blake3 : Bytes → Bytes32) (ns : NamespaceId) (s : FsStore)
    (range : Range RecordIdentifier) : Except (Fault ε) Bytes32 :=
  match getRange (ε := ε) ns s range with
  | .error f => .error f
  | .ok elements => fingerprintLoop blake3 Fingerprint.empty elements

/-- Writes the record, the index by key, and the latest record of the author. -/
def entryPut (s : FsStore) (e : SignedEntry) : Except (Fault ε) FsStore :=
  match e.entry.id.toByteTuple with
  | .error f => .error f
  | .ok id =>
    let record := e.entry.record
    let value : RecordsValue := ⟨record.timestamp, e.signature.namespaceSignature,
      e.signature.authorSignature, record.len, record.hash⟩
    .ok { s with tables := { s.tables with
      records := s.tables.records.insert id value
      recordsByKey := s.tables.recordsByKey.insert ⟨id.ns, id.key, id.author⟩ ()
      latestPerAuthor :=
        s.tables.latestPerAuthor.insert (toLex (id.ns, id.author)) (record.timestamp, id.key) } }

def prefixesOf (s : FsStore) (id : RecordIdentifier) :
    Except (Fault ε) (List (Except ε SignedEntry)) :=
  match id.toByteTuple with
  | .error f => .error f
  | .ok id => .ok ((parents s.tables.records id.ns id.author id.key).map .ok)

def removePrefixFiltered (s : FsStore) (id : RecordIdentifier) (predicate : Record → Bool) :
    Except (Fault ε) (FsStore × Nat) :=
  match id.toByteTuple with
  | .error f => .error f
  | .ok id =>
    let bounds := authorPrefix id.ns id.author id.key
    let hit (row : RecordsId × RecordsValue) : Bool :=
      bounds.contains row.1 && predicate ⟨row.2.len, row.2.hash, row.2.timestamp⟩
    .ok ({ s with tables := { s.tables with records := s.tables.records.removeIf hit } },
      (s.tables.records.rows.filter hit).length)

end StoreInstance

/-- `StoreInstance` for the namespace `ns`, with `blake3` as the hash function. -/
def storeInstance (blake3 : Bytes → Bytes32) (ns : NamespaceId) :
    Store FsStore SignedEntry RecordIdentifier Record Bytes32 StoreError where
  getFirst := StoreInstance.getFirst ns
  getFingerprint := StoreInstance.getFingerprint blake3 ns
  entryPut := StoreInstance.entryPut
  getRange := StoreInstance.getRange ns
  prefixesOf := StoreInstance.prefixesOf
  removePrefixFiltered := StoreInstance.removePrefixFiltered

end

/-! ## Rows and entries -/

lemma intoEntry_lt_iff {id id' : RecordsId} {v v' : RecordsValue} :
    (intoEntry id v).entry.id < (intoEntry id' v').entry.id ↔ id < id' :=
  new_lt_new

def entriesOf (s : FsStore) : Set SignedEntry :=
  {e | ∃ id v, (id, v) ∈ s.tables.records.rows ∧ id.ns = ns ∧ e = intoEntry id v}

variable {records : Table RecordsId RecordsValue} {e : SignedEntry}

lemma mem_recordsRange {bounds : RecordsBounds} : e ∈ recordsRange records bounds ↔
      ∃ id v, (id, v) ∈ records.rows ∧ bounds.contains id = true ∧ e = intoEntry id v := by
  simp only [recordsRange, mem_map, Table.mem_range, Prod.exists]
  constructor
  · rintro ⟨id, v, ⟨hrow, hb⟩, rfl⟩
    exact ⟨id, v, hrow, hb, rfl⟩
  · rintro ⟨id, v, hrow, hb, rfl⟩
    exact ⟨id, v, ⟨hrow, hb⟩, rfl⟩

lemma recordsRange_sorted (records : Table RecordsId RecordsValue) (bounds : RecordsBounds) :
    ((recordsRange records bounds).map RangeEntry.key).Pairwise (· < ·) := by
  rw [recordsRange, map_map, pairwise_map]
  exact (records.range_sorted _).imp intoEntry_lt_iff.mpr

/-! ## Ranges -/

section
variable {ε : Type} {ns : NamespaceId} {s : FsStore} {range : Range RecordIdentifier}

lemma mem_entriesOf : e ∈ entriesOf ns s ↔
    ∃ id v, (id, v) ∈ s.tables.records.rows ∧ id.ns = ns ∧ e = intoEntry id v := Iff.rfl

lemma mem_recordsRange_iff {bounds : RecordsBounds} {p : RecordIdentifier → Prop}
    (hb : ∀ id : RecordsId, bounds.contains id = true ↔
      p (new id.ns id.author id.key) ∧ id.ns = ns) :
    e ∈ recordsRange s.tables.records bounds ↔ e ∈ entriesOf ns s ∧ p (RangeEntry.key e) := by
  rw [mem_recordsRange, mem_entriesOf]
  constructor
  · rintro ⟨id, v, hrow, hc, rfl⟩
    exact ⟨⟨id, v, hrow, ((hb id).mp hc).2, rfl⟩, ((hb id).mp hc).1⟩
  · rintro ⟨⟨id, v, hrow, hns, rfl⟩, hp⟩
    exact ⟨id, v, hrow, (hb id).mpr ⟨hp, hns⟩, rfl⟩

lemma lists_all (h : range.x = range.y) :
    Lists (entriesOf ns s) range (recordsRange s.tables.records (.ofNamespace ns)) := by
  refine ⟨recordsRange_sorted _ _, fun e => ?_⟩
  apply mem_recordsRange_iff (p := fun k => range.contains k = true)
  intro id
  rw [contains_ofNamespace]
  exact (and_iff_right (Range.contains_of_eq h)).symm

variable {start stop : RecordsId}

lemma lists_regular (hlt : range.x < range.y) (hx : range.x = .new start.ns start.author start.key)
    (hy : range.y = .new stop.ns stop.author stop.key) :
    Lists (entriesOf ns s) range (recordsRange s.tables.records
      (clampToNamespace ⟨.included start, .excluded stop⟩ ns)) := by
  refine ⟨recordsRange_sorted _ _, fun e => ?_⟩
  apply mem_recordsRange_iff (p := fun k => range.contains k = true)
  intro id
  rw [contains_clampToNamespace, Bounds.contains_iff, Range.contains,
    compare_lt_iff_lt.mpr hlt, hx, hy]
  simp only [Bound.admitsFrom, Bound.admitsTo, Bool.and_eq_true, decide_eq_true_eq,
    new_le_new, new_lt_new]

lemma mem_below (hy : range.y = .new stop.ns stop.author stop.key) :
    e ∈ recordsRange s.tables.records ((fromStart ns (.excluded stop)).clampToNamespace ns) ↔
      e ∈ entriesOf ns s ∧ RangeEntry.key e < range.y := by
  apply mem_recordsRange_iff (p := fun k => k < range.y)
  intro id
  rw [contains_clampToNamespace, Bounds.contains_iff, hy,
    new_lt_new, fromStart, admitsFrom_namespaceStart]
  simp only [Bound.admitsTo, decide_eq_true_eq]
  constructor
  · rintro ⟨⟨_, hlt⟩, hns⟩
    exact ⟨hlt, hns⟩
  · rintro ⟨hlt, hns⟩
    exact ⟨⟨hns.ge, hlt⟩, hns⟩

lemma mem_above (hx : range.x = .new start.ns start.author start.key) :
    e ∈ recordsRange s.tables.records ((toEnd ns (.included start)).clampToNamespace ns) ↔
      e ∈ entriesOf ns s ∧ range.x ≤ RangeEntry.key e := by
  apply mem_recordsRange_iff (p := fun k => range.x ≤ k)
  intro id
  have hns := @RecordsBounds.contains_ofNamespace ns id
  rw [Bounds.contains_iff] at hns
  rw [contains_clampToNamespace, Bounds.contains_iff, hx, new_le_new, toEnd]
  simp only [Bound.admitsFrom, decide_eq_true_eq]
  constructor
  · rintro ⟨⟨hle, _⟩, hid⟩
    exact ⟨hle, hid⟩
  · rintro ⟨hle, hid⟩
    exact ⟨⟨hle, (hns.mpr hid).2⟩, hid⟩

lemma lists_split (hgt : range.y < range.x) (hx : range.x = .new start.ns start.author start.key)
    (hy : range.y = .new stop.ns stop.author stop.key) :
    Lists (entriesOf ns s) range (recordsRange s.tables.records
          ((fromStart ns (.excluded stop)).clampToNamespace ns) ++
        recordsRange s.tables.records ((toEnd ns (.included start)).clampToNamespace ns)) := by
  constructor
  · rw [map_append, pairwise_append]
    refine ⟨recordsRange_sorted _ _, recordsRange_sorted _ _, ?_⟩
    intro a ha b hb
    obtain ⟨e, he, rfl⟩ := mem_map.mp ha
    obtain ⟨e', he', rfl⟩ := mem_map.mp hb
    exact (((mem_below hy).mp he).2.trans hgt).trans_le ((mem_above hx).mp he').2
  · intro e
    rw [mem_append, mem_below hy, mem_above hx, Range.contains, compare_gt_iff_gt.mpr hgt]
    simp only [Bool.or_eq_true, decide_eq_true_eq]
    rw [← and_or_left, or_comm]

/-- The ends of the range can be taken apart, or need not be. -/
def Readable (range : Range RecordIdentifier) : Prop :=
  range.x = range.y ∨ range.x.WellFormed ∧ range.y.WellFormed

instance (range : Range RecordIdentifier) : Decidable (Readable range) :=
  inferInstanceAs (Decidable (_ ∨ _))

open StoreInstance

variable (ns s) in
/-- The three kinds of ranges read the entries of the namespace within the range. -/
lemma rangeBounds_ok (h : Readable range) :
    ∃ bounds, rangeBounds (ε := ε) ns range = .ok bounds ∧ (∀ b ∈ bounds, b.inverted = false) ∧
      Lists (entriesOf ns s) range (bounds.flatMap (recordsRange s.tables.records)) ∧
      (range.y < range.x → ∃ below above,
        bounds.flatMap (recordsRange s.tables.records) = below ++ above ∧
        (∀ e ∈ below, e.entry.id < range.y) ∧ ∀ e ∈ above, range.x ≤ e.entry.id) := by
  by_cases heq : range.x = range.y
  · rw [rangeBounds, compare_eq_iff_eq.mpr heq]
    refine ⟨_, rfl, ?_, ?_, fun hgt => absurd heq hgt.ne'⟩
    · simp [inverted_ofNamespace]
    · simpa using lists_all heq
  obtain ⟨hx, hy⟩ := h.resolve_left heq
  obtain ⟨nx, ax, kx, hx⟩ := exists_new hx
  obtain ⟨ny, ay, ky, hy⟩ := exists_new hy
  have hxt : range.x.toByteTuple = (.ok ⟨nx, ax, kx⟩ : Except (Fault ε) RecordsId) := by
    rw [hx, toByteTuple_new]
  have hyt : range.y.toByteTuple = (.ok ⟨ny, ay, ky⟩ : Except (Fault ε) RecordsId) := by
    rw [hy, toByteTuple_new]
  rw [rangeBounds, hxt, hyt]
  rcases lt_or_gt_of_ne heq with hlt | hgt
  · rw [compare_lt_iff_lt.mpr hlt]
    refine ⟨_, rfl, ?_, ?_, fun hgt => absurd hgt (lt_asymm hlt)⟩
    · simp [inverted_clampToNamespace]
    · simpa using lists_regular hlt hx hy
  · rw [compare_gt_iff_gt.mpr hgt]
    refine ⟨_, rfl, ?_, ?_, fun _ => ⟨_, _, flatMap_cons, fun e he => ?_, fun e he => ?_⟩⟩
    · simp [inverted_clampToNamespace]
    · simpa using lists_split hgt hx hy
    · exact ((mem_below hy).mp he).2
    · rw [flatMap_singleton] at he
      exact ((mem_above hx).mp he).2

lemma getRange_ok (h : Readable range) : ∃ l : List SignedEntry,
    getRange (ε := ε) ns s range = .ok (l.map .ok) ∧ Lists (entriesOf ns s) range l := by
  obtain ⟨bounds, hb, -, hl, -⟩ := rangeBounds_ok (ε := ε) ns s h
  exact ⟨_, by rw [getRange, hb]; rfl, hl⟩

lemma getRange_panic (h : ¬ Readable range) :
    getRange (ε := ε) ns s range = .error (.panic .slice) := by
  rw [Readable, not_or] at h
  obtain ⟨hne, hwf⟩ := h
  have hor : ¬ range.x.WellFormed ∨ ¬ range.y.WellFormed := not_and_or.mp hwf
  unfold getRange rangeBounds
  split
  · rename_i hcmp
    exact absurd (compare_eq_iff_eq.mp hcmp) hne
  · by_cases hx : range.x.WellFormed
    · obtain ⟨nx, ax, kx, hx⟩ := exists_new hx
      have hy := hor.resolve_left (not_not.mpr (hx ▸ new_wellFormed ..))
      rw [hx, toByteTuple_new, toByteTuple_of_not_wellFormed hy]
      rfl
    · rw [toByteTuple_of_not_wellFormed hx]
      rfl
  · by_cases hy : range.y.WellFormed
    · obtain ⟨ny, ay, ky, hy⟩ := exists_new hy
      have hx := hor.resolve_right (not_not.mpr (hy ▸ new_wellFormed ..))
      rw [hy, toByteTuple_new, toByteTuple_of_not_wellFormed hx]
      rfl
    · rw [toByteTuple_of_not_wellFormed hy]
      rfl

lemma getRange_lists {it : List (Except ε SignedEntry)} (h : getRange ns s range = .ok it) :
    ∃ l : List SignedEntry, it = l.map .ok ∧ Lists (entriesOf ns s) range l := by
  by_cases hr : Readable range
  · obtain ⟨l, hget, hl⟩ := @getRange_ok ε ns s range hr
    rw [hget] at h
    cases h
    exact ⟨l, rfl, hl⟩
  · rw [getRange_panic hr] at h
    cases h

/-- A range of identifiers with all their parts, whatever namespaces they name, is
read with bounds that are not inverted, and yields the entries of the namespace within the range,
each once and in ascending order; a range that wraps around yields the part below its end first. -/
theorem getRange_exact (ns : NamespaceId) (s : FsStore) (range : Range RecordIdentifier)
    (hx : range.x.WellFormed) (hy : range.y.WellFormed) :
    ∃ bounds l, rangeBounds (ε := ε) ns range = .ok bounds ∧
      (∀ b ∈ bounds, b.inverted = false) ∧
      l = bounds.flatMap (recordsRange s.tables.records) ∧
      StoreInstance.getRange (ε := ε) ns s range = .ok (l.map .ok) ∧
      (∀ e, e ∈ l ↔ (∃ id v, (id, v) ∈ s.tables.records.rows ∧ id.ns = ns ∧ e = intoEntry id v) ∧
        range.contains e.entry.id = true) ∧
      (l.map fun e => e.entry.id).Pairwise (· < ·) ∧
      (range.y < range.x → ∃ below above, l = below ++ above ∧
        (∀ e ∈ below, e.entry.id < range.y) ∧ ∀ e ∈ above, range.x ≤ e.entry.id) := by
  obtain ⟨bounds, hb, hinv, ⟨hsort, hmem⟩, hwrap⟩ := rangeBounds_ok (ε := ε) ns s (.inr ⟨hx, hy⟩)
  exact ⟨bounds, _, hb, hinv, rfl, by rw [getRange, hb]; rfl, hmem, hsort, hwrap⟩

/-- Two records of one namespace, and one of another. -/
def twoNamespaces : FsStore :=
  let value : RecordsValue := ⟨0, .zero 64, .zero 64, 1, .zero 32⟩
  let records := (Table.empty.insert ⟨.zero 32, .zero 32, [0]⟩ value).insert
    ⟨.zero 32, .zero 32, [1]⟩ value
  { FsStore.new with tables := { FsStore.new.tables with
    records := records.insert ⟨.max 32, .zero 32, [2]⟩ value } }

/-- A range that starts in the other namespace, before its record, and wraps around. -/
theorem getRange_exact_foreign : ∃ l : List SignedEntry,
    StoreInstance.getRange (ε := StoreError) (.zero 32) twoNamespaces
      ⟨.new (.max 32) (.zero 32) [1], .new (.zero 32) (.zero 32) [1]⟩ = .ok (l.map .ok) ∧
    (∃ e ∈ l, e.entry.id = .new (.zero 32) (.zero 32) [0]) ∧
    ∀ e ∈ l, ∃ author key, e.entry.id = .new (.zero 32) author key := by
  obtain ⟨_, l, -, -, -, hget, hmem, -⟩ := getRange_exact (.zero 32) twoNamespaces
    ⟨.new (.max 32) (.zero 32) [1], .new (.zero 32) (.zero 32) [1]⟩ (new_wellFormed ..)
    (new_wellFormed ..)
  refine ⟨l, hget, ⟨intoEntry ⟨.zero 32, .zero 32, [0]⟩ ⟨0, .zero 64, .zero 64, 1, .zero 32⟩,
    (hmem _).mpr ⟨⟨_, _, by decide +kernel, rfl, rfl⟩, by decide +kernel⟩, rfl⟩, fun e he => ?_⟩
  obtain ⟨⟨id, v, -, hns, rfl⟩, -⟩ := (hmem e).mp he
  exact ⟨id.author, id.key, hns ▸ rfl⟩

variable {blake3 : Bytes → Bytes32}

/-- Stored entries have all their parts, so that their fingerprints can be taken. -/
lemma fingerprintLoop_ok {l : List SignedEntry}
    (hl : ∀ e ∈ l, e.entry.id.WellFormed) (fp : Bytes32) :
    ∃ fp', fingerprintLoop (ε := ε) blake3 fp (l.map .ok) = .ok fp' := by
  induction l generalizing fp with
  | nil => exact ⟨fp, rfl⟩
  | cons e l ih =>
    obtain ⟨ns, author, key, hid⟩ :=
      exists_new (hl e (mem_cons_self ..))
    have hfp : ∃ x, e.asFingerprint (ε := ε) blake3 = .ok x := by
      simp only [SignedEntry.asFingerprint, hid, toByteTuple_new]
      exact ⟨_, rfl⟩
    obtain ⟨x, hx⟩ := hfp
    obtain ⟨fp', h⟩ := ih (fun e he => hl e (mem_cons_of_mem _ he)) (Fingerprint.xor fp x)
    exact ⟨fp', by simp only [map_cons, fingerprintLoop, hx, h]⟩

lemma wellFormed_of_mem_entriesOf (h : e ∈ entriesOf ns s) : e.entry.id.WellFormed := by
  obtain ⟨id, v, _, _, rfl⟩ := h
  exact new_wellFormed ..

lemma getFingerprint_ok (h : Readable range) :
    ∃ fp, StoreInstance.getFingerprint (ε := ε) blake3 ns s range = .ok fp := by
  obtain ⟨l, hit, hl⟩ := @getRange_ok ε ns s range h
  simp only [StoreInstance.getFingerprint, hit]
  exact fingerprintLoop_ok (fun e he => wellFormed_of_mem_entriesOf ((hl.2 e).mp he).1) _

lemma getFingerprint_panic (h : ¬ Readable range) :
    StoreInstance.getFingerprint (ε := ε) blake3 ns s range = .error (.panic .slice) := by
  simp only [StoreInstance.getFingerprint, getRange_panic h]

end

/-! ## Parents -/

variable {author : AuthorId}

lemma getExact_eq_some {ns : NamespaceId} {key : Bytes} :
    getExact records ns author key false = some e ↔
      ∃ v, (⟨ns, author, key⟩, v) ∈ records.rows ∧ v.hash ≠ Hash.empty ∧
        e = intoEntry ⟨ns, author, key⟩ v := by
  unfold getExact
  cases hget : records.get ⟨ns, author, key⟩ with
  | none =>
    rw [Table.get_eq_none] at hget
    exact iff_of_false (by simp) fun ⟨v, hv, _⟩ => hget v hv
  | some v =>
    rw [Table.get_eq_some] at hget
    simp only [Bool.false_or, Record.isEmpty, Option.ite_none_right_eq_some,
      Bool.not_eq_true', Option.some.injEq]
    constructor
    · rintro ⟨hne, rfl⟩
      exact ⟨v, hget, of_decide_eq_false hne, rfl⟩
    · rintro ⟨v', hv', hne, rfl⟩
      obtain rfl := Table.eq_of_mem hget hv'
      exact ⟨decide_eq_false hne, rfl⟩

lemma mem_parentsLoop {ns : NamespaceId} {key : List Byte} : e ∈ parentsLoop records ns author key ↔
      ∃ p : Bytes, p ≠ [] ∧ p <+: key.reverse ∧ getExact records ns author p false = some e := by
  induction key with
  | nil =>
    refine iff_of_false (by simp [parentsLoop]) ?_
    rintro ⟨p, hne, hp, _⟩
    exact hne (prefix_nil.mp hp)
  | cons c key ih =>
    have hspl : ∀ p : Bytes, p <+: (c :: key).reverse ↔
        p = (c :: key).reverse ∨ p <+: key.reverse := by
      intro p
      rw [reverse_cons]
      exact prefix_concat_iff
    have hself : (c :: key).reverse ≠ [] := by simp
    unfold parentsLoop
    cases hget : getExact records ns author (c :: key).reverse false with
    | some entry =>
      rw [mem_cons, ih]
      constructor
      · rintro (rfl | ⟨p, hne, hp, he⟩)
        · exact ⟨_, hself, prefix_rfl, hget⟩
        · exact ⟨p, hne, (hspl p).mpr (.inr hp), he⟩
      · rintro ⟨p, hne, hp, he⟩
        cases (hspl p).mp hp with
        | inl hp => rw [hp, hget] at he; exact .inl (Option.some.inj he).symm
        | inr hp => exact .inr ⟨p, hne, hp, he⟩
    | none =>
      rw [ih]
      constructor
      · rintro ⟨p, hne, hp, he⟩
        exact ⟨p, hne, (hspl p).mpr (.inr hp), he⟩
      · rintro ⟨p, hne, hp, he⟩
        cases (hspl p).mp hp with
        | inl hp => rw [hp, hget] at he; cases he
        | inr hp => exact ⟨p, hne, hp, he⟩

lemma mem_parents {ns : NamespaceId} {key : Bytes} : e ∈ parents records ns author key ↔
      ∃ p : Bytes, p ≠ [] ∧ p <+: key ∧ getExact records ns author p false = some e := by
  rw [parents, mem_reverse, mem_parentsLoop, reverse_reverse]

/-! ## Entries of a document -/

/-- A signed entry of a known namespace, taken apart. -/
structure DocEntry where
  author : AuthorId
  key : Bytes
  record : Record
  signature : EntrySignature
  deriving DecidableEq

namespace DocEntry

def signed (d : DocEntry) : SignedEntry :=
  ⟨d.signature, ⟨.new ns d.author d.key, d.record⟩⟩

def value (d : DocEntry) : RecordsValue :=
  ⟨d.record.timestamp, d.signature.namespaceSignature, d.signature.authorSignature, d.record.len,
    d.record.hash⟩

lemma intoEntry_value (d : DocEntry) : intoEntry ⟨ns, d.author, d.key⟩ d.value = d.signed ns := rfl

lemma exists_signed (h : e.entry.id.WellFormed) : ∃ ns, ∃ d : DocEntry, e = d.signed ns := by
  obtain ⟨signature, ⟨id, record⟩⟩ := e
  obtain ⟨ns, author, key, rfl⟩ := exists_new h
  exact ⟨ns, ⟨author, key, record, signature⟩, rfl⟩

def ofRow (author : AuthorId) (key : Bytes) (v : RecordsValue) : DocEntry :=
  ⟨author, key, ⟨v.len, v.hash, v.timestamp⟩, ⟨v.authorSig, v.namespaceSig⟩⟩

end DocEntry

def docEntries (s : FsStore) : Set DocEntry :=
  {d | (⟨ns, d.author, d.key⟩, d.value) ∈ s.tables.records.rows}

lemma mem_docEntries {ns : NamespaceId} {s : FsStore} {d : DocEntry} : d ∈ docEntries ns s ↔
    (⟨ns, d.author, d.key⟩, d.value) ∈ s.tables.records.rows := Iff.rfl

variable (blake3 : Bytes → Bytes32) {range : Range RecordIdentifier}

lemma storeInstance_readsRanges (ns : NamespaceId) :
    ReadsRanges (storeInstance blake3 ns) (entriesOf ns) := fun h => getRange_lists h

lemma storeInstance_getRange (ns : NamespaceId) (s : FsStore) (h : Readable range) :
    ∃ l : List SignedEntry, (storeInstance blake3 ns).getRange s range = .ok (l.map .ok) ∧
      Lists (entriesOf ns s) range l := getRange_ok h

lemma storeInstance_getFingerprint (ns : NamespaceId) (s : FsStore) (h : Readable range) :
    ∃ fp, (storeInstance blake3 ns).getFingerprint s range = .ok fp := getFingerprint_ok h

end Krikos.Docs
