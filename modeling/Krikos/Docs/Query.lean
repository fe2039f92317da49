import Krikos.Docs.FsStore

/-!
# Docs.Query

Queries on the records of a document (`store.rs`, `store/util.rs`, `store/fs/query.rs`).

`QueryIterator.next` skips the first entries up to the offset of the query and stops at its limit.
Every row that a query reads is of its namespace (`contains_authorKey_ns`,
`ByKeyBounds.contains_new_ns`).
-/

namespace Krikos.Docs

open Lib RecordsBounds

/-! ## Queries -/

def KeyFilter.matches : KeyFilter → Bytes → Bool
  | .any, _ => true
  | .exact k, key => k = key
  | .keyPrefix p, key => p.isPrefixOf key

inductive AuthorFilter where
  | any
  | exact (author : AuthorId)

def AuthorFilter.matches : AuthorFilter → AuthorId → Bool
  | .any, _ => true
  | .exact a, author => a = author

inductive SortDirection where
  | asc
  | desc
  deriving DecidableEq, Repr

inductive SortBy where
  | keyAuthor
  | authorKey
  deriving DecidableEq, Repr

inductive QueryKind where
  | flat (sortBy : SortBy)
  | singleLatestPerKey
  deriving DecidableEq, Repr

structure Query where
  kind : QueryKind
  filterAuthor : AuthorFilter
  filterKey : KeyFilter
  limit : Option Nat
  offset : Nat
  includeEmpty : Bool
  sortDirection : SortDirection

/-- The index that a query reads. -/
inductive IndexKind where
  | authorKey (range : AuthorFilter) (keyFilter : KeyFilter)
  | keyAuthor (range : KeyFilter) (authorFilter : AuthorFilter) (latestPerKey : Bool)

def IndexKind.ofQuery (query : Query) : IndexKind :=
  match query.kind with
  | .flat sortBy =>
    match query.filterAuthor, sortBy with
    | .any, .keyAuthor => .keyAuthor query.filterKey .any false
    | _, _ => .authorKey query.filterAuthor query.filterKey
  | .singleLatestPerKey => .keyAuthor query.filterKey query.filterAuthor true

/-! ## The latest entry of each key -/

abbrev LatestPerKeySelector := Option SignedEntry

inductive SelectorRes where
  | finished
  | continue
  | some (entry : SignedEntry)

namespace LatestPerKeySelector

def sameKey (a b : SignedEntry) : Bool :=
  (a.entry.id.key : Except (Fault StoreError) Bytes) = b.entry.id.key

/-- Takes an entry in the order of the keys, or the end of the entries. -/
def push (self : LatestPerKeySelector) : Option SignedEntry → LatestPerKeySelector × SelectorRes
  | none =>
    match self with
    | some entry => (none, .some entry)
    | none => (none, .finished)
  | some entry =>
    match self with
    | none => (some entry, .continue)
    | some last =>
      if sameKey last entry then
        if last.entry.record.timestamp < entry.entry.record.timestamp then
          (some entry, .continue)
        else (some last, .continue)
      else (some entry, .some last)

/-- The number of entries that are held back. -/
def weight (self : LatestPerKeySelector) : Nat :=
  match self with
  | some _ => 1
  | none => 0

end LatestPerKeySelector

/-! ## The range of a query -/

/-- The rows that are left, in the order of the query. Rows of the index by key are joined with the
record they point to. -/
inductive QueryRange where
  | authorKey (rows : List (RecordsId × RecordsValue)) (keyFilter : KeyFilter)
  | keyAuthor (rows : List (RecordsByKeyId × Option RecordsValue)) (authorFilter : AuthorFilter)
      (selector : Option LatestPerKeySelector)

namespace QueryRange

/-- The next row that matches the key filter, and is not empty unless empty ones are asked for. -/
def nextAuthorKey (includeEmpty : Bool) (keyFilter : KeyFilter) :
    List (RecordsId × RecordsValue) → Option SignedEntry × List (RecordsId × RecordsValue)
  | [] => (none, [])
  | (id, value) :: rows =>
    if keyFilter.matches id.key && (includeEmpty || !decide (value.hash = Hash.empty)) then
      (some (intoEntry id value), rows)
    else nextAuthorKey includeEmpty keyFilter rows

/-- The next entry by key. With a selector only the latest entry of each key is emitted, and
whether it is empty is looked at after the selection. -/
def nextKeyAuthor (includeEmpty : Bool) (authorFilter : AuthorFilter) :
    List (RecordsByKeyId × Option RecordsValue) → Option LatestPerKeySelector →
      Option SignedEntry × List (RecordsByKeyId × Option RecordsValue) × Option LatestPerKeySelector
  | [], none => (none, [], none)
  | [], some selector =>
    match selector.push none with
    | (selector, .some e) =>
      -- after an entry that is left out the selector is finished
      if !includeEmpty && e.entry.record.isEmpty then (none, [], some selector)
      else (some e, [], some selector)
    | (selector, _) => (none, [], some selector)
  | (id, value) :: rows, selector =>
    if !authorFilter.matches id.author then nextKeyAuthor includeEmpty authorFilter rows selector
    else
      match value with
      | none => nextKeyAuthor includeEmpty authorFilter rows selector
      | some value =>
        let entry := intoEntry ⟨id.ns, id.author, id.key⟩ value
        match selector with
        | none =>
          if !includeEmpty && entry.entry.record.isEmpty then
            nextKeyAuthor includeEmpty authorFilter rows none
          else (some entry, rows, none)
        | some selector =>
          match selector.push (some entry) with
          | (selector, .continue) => nextKeyAuthor includeEmpty authorFilter rows (some selector)
          | (selector, .finished) => (none, rows, some selector)
          | (selector, .some e) =>
            if !includeEmpty && e.entry.record.isEmpty then
              nextKeyAuthor includeEmpty authorFilter rows (some selector)
            else (some e, rows, some selector)

def next (includeEmpty : Bool) : QueryRange → Option SignedEntry × QueryRange
  | .authorKey rows keyFilter =>
    let (e, rows) := nextAuthorKey includeEmpty keyFilter rows
    (e, .authorKey rows keyFilter)
  | .keyAuthor rows authorFilter selector =>
    let (e, rows, selector) := nextKeyAuthor includeEmpty authorFilter rows selector
    (e, .keyAuthor rows authorFilter selector)

def size : QueryRange → Nat
  | .authorKey rows _ => rows.length
  | .keyAuthor rows _ selector => rows.length + (selector.map LatestPerKeySelector.weight).getD 0

end QueryRange

lemma LatestPerKeySelector.push_weight (self : LatestPerKeySelector) (e : Option SignedEntry) :
    (self.push e).1.weight + (match (self.push e).2 with | .some _ => 1 | _ => 0) ≤
      self.weight + (match e with | some _ => 1 | none => 0) := by
  cases e with
  | none => cases self <;> simp [push, weight]
  | some e =>
    cases self with
    | none => simp [push, weight]
    | some last =>
      simp only [push]
      split
      · split <;> simp [weight]
      · simp [weight]

variable {e : SignedEntry} {includeEmpty : Bool}

lemma QueryRange.nextAuthorKey_length {keyFilter : KeyFilter}
    {rows rows' : List (RecordsId × RecordsValue)}
    (h : nextAuthorKey includeEmpty keyFilter rows = (some e, rows')) :
    rows'.length < rows.length := by
  fun_induction nextAuthorKey includeEmpty keyFilter rows with
  | case1 => cases h
  | case2 =>
    cases h
    simp
  | case3 id value rows hskip ih => exact (ih h).trans (by simp)

lemma QueryRange.nextKeyAuthor_size {authorFilter : AuthorFilter}
    {rows rows' : List (RecordsByKeyId × Option RecordsValue)}
    {selector selector' : Option LatestPerKeySelector}
    (h : nextKeyAuthor includeEmpty authorFilter rows selector = (some e, rows', selector')) :
    (QueryRange.keyAuthor rows' authorFilter selector').size <
      (QueryRange.keyAuthor rows authorFilter selector).size := by
  fun_induction nextKeyAuthor includeEmpty authorFilter rows selector with
  | case3 selector selector₁ e₁ hpush =>
    cases h
    have hw := selector.push_weight none
    rw [hpush] at hw
    simp only [size, List.length_nil, Option.map_some, Option.getD_some] at hw ⊢
    omega
  | case5 id value rows selector hskip ih | case6 id rows selector hskip ih
  | case7 id rows hskip value entry hempty ih =>
    have hlt := ih h
    simp only [size, List.length_cons] at hlt ⊢
    omega
  | case8 =>
    obtain ⟨-, rfl, rfl⟩ : _ ∧ _ = rows' ∧ _ = selector' := by simpa using h
    simp [size]
  | case9 id rows hmatch value entry selector selector₁ hpush ih
  | case11 id rows hmatch value entry selector selector₁ e₁ hpush hempty ih =>
    have hlt := ih h
    have hw := selector.push_weight (some entry)
    rw [hpush] at hw
    simp only [size, List.length_cons, Option.map_some, Option.getD_some] at hw hlt ⊢
    omega
  | case12 id rows hmatch value entry selector selector₁ e₁ hpush =>
    cases h
    have hw := selector.push_weight (some entry)
    rw [hpush] at hw
    simp only [size, List.length_cons, Option.map_some, Option.getD_some] at hw ⊢
    omega
  | _ => cases h

variable {range range' : QueryRange}

lemma QueryRange.next_size
    (h : range.next includeEmpty = (some e, range')) : range'.size < range.size := by
  cases range with
  | authorKey rows keyFilter =>
    simp only [next, Prod.mk.injEq] at h
    obtain ⟨he, rfl⟩ := h
    exact nextAuthorKey_length (Prod.ext he rfl)
  | keyAuthor rows authorFilter selector =>
    simp only [next, Prod.mk.injEq] at h
    obtain ⟨he, rfl⟩ := h
    exact nextKeyAuthor_size (Prod.ext he rfl)

/-! ## The iterator -/

structure QueryIterator where
  range : QueryRange
  query : Query
  offset : Nat
  count : Nat

namespace QueryIterator

/-- The loop of `next`, which leaves out entries before the offset. -/
def nextLoop (query : Query) (range : QueryRange) (offset : Nat) :
    Option SignedEntry × QueryRange × Nat :=
  match h : range.next query.includeEmpty with
  | (none, range) => (none, range, offset)
  | (some e, range') =>
    if offset < query.offset then
      have : range'.size < range.size := QueryRange.next_size h
      nextLoop query range' (offset + 1)
    else (some e, range', offset)
termination_by range.size

def atLimit (it : QueryIterator) : Bool :=
  match it.query.limit with
  | some limit => limit ≤ it.count
  | none => false

def next (it : QueryIterator) : Option SignedEntry × QueryIterator :=
  if it.atLimit then (none, it)
  else
    let (e, range, offset) := nextLoop it.query it.range it.offset
    (e, { it with range := range, offset := offset, count := it.count + 1 })

lemma nextLoop_size {query : Query} {range range' : QueryRange} {offset offset' : Nat}
    {e : SignedEntry} (h : nextLoop query range offset = (some e, range', offset')) :
    range'.size < range.size := by
  fun_induction nextLoop query range offset with
  | case1 => cases h
  | case2 range offset e range₁ hnext hskip hlt ih => exact (ih h).trans hlt
  | case3 range offset e range₁ hnext =>
    cases h
    exact QueryRange.next_size hnext

lemma next_size {it it' : QueryIterator} {e : SignedEntry} (h : it.next = (some e, it')) :
    it'.range.size < it.range.size := by
  simp only [next] at h
  split at h
  · cases h
  · cases hloop : nextLoop it.query it.range it.offset with
    | mk o r =>
      obtain ⟨range, offset⟩ := r
      rw [hloop] at h
      cases h
      exact nextLoop_size hloop

/-- All entries, until the first `none`. -/
def items (it : QueryIterator) : List SignedEntry :=
  match h : it.next with
  | (none, _) => []
  | (some e, it') =>
    have : it'.range.size < it.range.size := next_size h
    e :: it'.items
termination_by it.range.size

end QueryIterator

/-! ## Bounds of queries -/

namespace RecordsBounds
variable {ns : NamespaceId} {author : AuthorId} {id : RecordsId}

lemma contains_authorKey_ns {keyMatcher : KeyFilter}
    (h : (authorKey ns author keyMatcher).contains id = true) : id.ns = ns := by
  cases keyMatcher with
  | any => exact ((@contains_authorPrefix ns author id []).mp h).1
  | keyPrefix key => exact (contains_authorPrefix.mp h).1
  | exact key =>
    rw [Bounds.contains_iff] at h
    simp only [authorKey, Bound.admitsFrom, Bound.admitsTo, decide_eq_true_eq] at h
    rw [← le_antisymm h.1 h.2]

end RecordsBounds

abbrev ByKeyBounds := Bounds RecordsByKeyId

namespace ByKeyBounds
variable (ns : NamespaceId)

def first : RecordsByKeyId := ⟨ns, [], FixedBytes.zero 32⟩

def namespaceEnd : Bound RecordsByKeyId :=
  match incrementFixed ns with
  | some nsEnd => .excluded (first nsEnd)
  | none => .unbounded

def ofNamespace : ByKeyBounds := ⟨.included (first ns), namespaceEnd ns⟩

def new : KeyFilter → ByKeyBounds
  | .any => ofNamespace ns
  | .exact key => ⟨.included ⟨ns, key, .zero 32⟩, .included ⟨ns, key, .max 32⟩⟩
  | .keyPrefix key =>
    ⟨.included ⟨ns, key, .zero 32⟩, match incrementByOne key with
      | some keyEnd => .excluded ⟨ns, keyEnd, .zero 32⟩
      | none => namespaceEnd ns⟩

variable {ns : NamespaceId} {id : RecordsByKeyId}

lemma lt_first_iff : id < first ns ↔ id.ns < ns := by
  rw [RecordsByKeyId.lt_iff]
  refine ⟨?_, Or.inl⟩
  rintro (h | ⟨_, h | ⟨_, h⟩⟩)
  · exact h
  · exact absurd h (List.not_lt_nil _)
  · exact absurd h (not_lt.mpr (FixedBytes.zero_le id.author))

lemma first_le_iff : first ns ≤ id ↔ ns ≤ id.ns := by
  rw [← not_lt, lt_first_iff, not_lt]

lemma admitsTo_namespaceEnd (hle : ns ≤ id.ns) :
    (namespaceEnd ns).admitsTo id = true ↔ id.ns = ns := by
  cases hinc : incrementFixed ns with
  | some nsEnd =>
    simp only [namespaceEnd, hinc, Bound.admitsTo, decide_eq_true_eq, lt_first_iff]
    rw [← incrementFixed_lt_iff hinc]
    exact ⟨fun h => ⟨hle, h⟩, And.right⟩
  | none =>
    simp only [namespaceEnd, hinc, Bound.admitsTo]
    exact iff_of_true trivial ((incrementFixed_le_iff hinc).mp hle)

lemma contains_ofNamespace : (ofNamespace ns).contains id = true ↔ id.ns = ns := by
  rw [Bounds.contains_iff]
  simp only [ofNamespace, Bound.admitsFrom, decide_eq_true_eq, first_le_iff]
  constructor
  · rintro ⟨hle, hto⟩
    exact (admitsTo_namespaceEnd hle).mp hto
  · rintro rfl
    exact ⟨le_refl _, (admitsTo_namespaceEnd (le_refl _)).mpr rfl⟩

lemma contains_keyPrefix {ns : NamespaceId} {key : Bytes} {id : RecordsByKeyId} :
    (new ns (.keyPrefix key)).contains id = true ↔
      id.ns = ns ∧ inPrefixRange key id.key = true := by
  rw [Bounds.contains_iff]
  have hzero := FixedBytes.zero_le id.author
  have hnot := not_lt.mpr hzero
  simp only [new, Bound.admitsFrom, decide_eq_true_eq, RecordsByKeyId.le_iff,
    inPrefixRange, Bool.and_eq_true]
  cases hkey : incrementByOne key with
  | some keyEnd =>
    simp only [Bound.admitsTo, decide_eq_true_eq, RecordsByKeyId.lt_iff]
    grind
  | none =>
    have hend := fun hle => @admitsTo_namespaceEnd ns id hle
    grind

lemma contains_new_ns {filter : KeyFilter} (h : (new ns filter).contains id = true) :
    id.ns = ns := by
  cases filter with
  | any => exact contains_ofNamespace.mp h
  | exact key =>
    rw [Bounds.contains_iff] at h
    simp only [new, Bound.admitsFrom, Bound.admitsTo, decide_eq_true_eq, RecordsByKeyId.le_iff] at h
    obtain ⟨hlo | hlo, hhi | hhi⟩ := h
    · exact absurd hlo (lt_asymm hhi)
    · exact hhi.1
    · exact hlo.1.symm
    · exact hhi.1
  | keyPrefix key => exact (contains_keyPrefix.mp h).1

end ByKeyBounds

/-- The bounds of a key prefix select exactly the keys that start with it, and a
put deletes only such keys, exactly if the increment of the prefix does not carry. -/
theorem prefixBounds_exact_iff {key : Bytes} :
    ((∀ ns author id, (authorPrefix ns author key).contains id = true ↔
        id.ns = ns ∧ id.author = author ∧ key <+: id.key) ∧
      (∀ ns id, (ByKeyBounds.new ns (.keyPrefix key)).contains id = true ↔
        id.ns = ns ∧ key <+: id.key) ∧
      ∀ (s s' : FsStore) ns author predicate n,
        StoreInstance.removePrefixFiltered (ε := StoreError) s (.new ns author key) predicate =
          .ok (s', n) →
        ∀ row ∈ s.tables.records.rows, row ∉ s'.tables.records.rows →
          row.1.ns = ns ∧ row.1.author = author ∧ key <+: row.1.key) ↔
      ¬ Carries key := by
  constructor
  · rintro ⟨hrec, -, -⟩ hcarry
    obtain ⟨t, ht, hnot⟩ := exists_inPrefixRange hcarry
    have hin := (@contains_authorPrefix _ _ ⟨.zero 32, .zero 32, t⟩ _).mpr
      ⟨rfl, rfl, ht⟩
    exact hnot ((hrec _ _ _).mp hin).2.2
  · intro hcarry
    have hrec : ∀ ns author id, (authorPrefix ns author key).contains id = true ↔
        id.ns = ns ∧ id.author = author ∧ key <+: id.key := fun ns author id => by
      rw [contains_authorPrefix, inPrefixRange_iff hcarry]
    refine ⟨hrec, fun ns id => ?_, fun s s' ns author predicate n hok row hrow hgone => ?_⟩
    · rw [ByKeyBounds.contains_keyPrefix, inPrefixRange_iff hcarry]
    · simp only [StoreInstance.removePrefixFiltered, RecordIdentifier.toByteTuple_new,
        Except.ok.injEq, Prod.mk.injEq] at hok
      obtain ⟨rfl, -⟩ := hok
      refine (hrec ns author row.1).mp ?_
      by_contra hout
      refine hgone (Table.mem_removeIf.mpr ⟨hrow, ?_⟩)
      rw [Bool.eq_false_iff.mpr hout, Bool.false_and]

/-- The prefix `[1, 255]`: its range ends at `[2, 0]`, and has the key `[2]` in it. -/
theorem authorPrefix_not_exact :
    (authorPrefix (.zero 32) (.zero 32) [1, 255]).contains
      ⟨.zero 32, .zero 32, [2]⟩ = true ∧
    (ByKeyBounds.new (.zero 32) (.keyPrefix [1, 255])).contains ⟨.zero 32, [2], .zero 32⟩ = true ∧
    ¬ [1, 255] <+: ([2] : Bytes) := by decide
/-! ## Running a query -/

def Query.order {α : Type} (query : Query) (rows : List α) : List α :=
  match query.sortDirection with
  | .asc => rows
  | .desc => rows.reverse

def QueryIterator.new (tables : Tables) (ns : NamespaceId) (query : Query) : QueryIterator where
  range :=
    match IndexKind.ofQuery query with
    | .authorKey (.exact author) keyFilter =>
      -- both the author and the key are selected by the range
      .authorKey (query.order (tables.records.range
        (authorKey ns author keyFilter).contains)) .any
    | .authorKey .any keyFilter =>
      .authorKey (query.order (tables.records.range (ofNamespace ns).contains))
        keyFilter
    | .keyAuthor range authorFilter latestPerKey =>
      .keyAuthor (query.order ((tables.recordsByKey.range (ByKeyBounds.new ns range).contains).map
          fun row => (row.1, tables.records.get ⟨row.1.ns, row.1.author, row.1.key⟩)))
        authorFilter (if latestPerKey then some none else none)
  query := query
  offset := 0
  count := 0

def FsStore.getMany (s : FsStore) (ns : NamespaceId) (query : Query) : List SignedEntry :=
  (QueryIterator.new s.tables ns query).items

end Krikos.Docs
