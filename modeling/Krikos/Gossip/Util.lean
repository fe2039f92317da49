import Krikos.Lib.Bytes
import Krikos.Lib.IndexSet
import Krikos.Lib.Table

/-!
# Gossip.Util

What the gossip state machines share (`proto/util.rs`, `proto.rs`, `limits.rs`): the random number
generator, random choices from index sets, the cache with expiring entries, and outgoing events.
-/

namespace Krikos.Gossip

open Lib

/-! ## Limits -/

def maxMessageSize : Nat := 1024 * 1024

def minMaxMessageSize : Nat := 512

def maxActiveViewCapacity : Nat := 64

def maxPassiveViewCapacity : Nat := 1024

def maxShufflePeers : Nat := 128

def maxTopics : Nat := 1024

def maxPendingMessages : Nat := 8192

def maxGraftRetries : Nat := 8

def maxIHaveEntries : Nat := 1024

def maxDuplicateCacheEntries : Nat := 16384

def maxCachedMessages : Nat := 4096

def maxLazyQueuePerPeer : Nat := 1024

abbrev Duration := Nat

abbrev Instant := Nat

abbrev U16 := Fin (2 ^ 16)

instance neZero_u16 : NeZero (2 ^ 16) := ⟨by decide⟩

/-! ## Peers -/

abbrev PeerData := Bytes

structure PeerInfo (PI : Type) where
  id : PI
  data : Option PeerData
  deriving DecidableEq

/-! ## Random choices -/

/-- A random number generator. -/
structure Random (R : Type) where
  /-- `rng.random_range(0..n)` -/
  randomRange : R → Nat → Nat × R
  randomRange_lt : ∀ r n, 0 < n → (randomRange r n).1 < n
  /-- `IteratorRandom::choose` -/
  choose : {α : Type} → R → List α → Option α × R
  /-- `SliceRandom::shuffle` -/
  shuffle : {α : Type} → R → List α → List α × R
  /-- `SeedableRng::from_rng` -/
  fromRng : R → R × R

def Random.first : Random Unit where
  randomRange _ _ := (0, ())
  randomRange_lt _ _ h := h
  choose _ l := (l.head?, ())
  shuffle _ l := (l, ())
  fromRng _ := ((), ())

namespace IndexSet
variable {α R : Type} [DecidableEq α]
variable (random : Random R) (s : IndexSet α)

def pickRandomIndex (rng : R) : Option Nat × R :=
  if s.items.isEmpty then (none, rng)
  else
    let (i, rng) := random.randomRange rng s.items.length
    (some i, rng)

def removeRandom (rng : R) : IndexSet α × R :=
  match pickRandomIndex random s rng with
  | (none, rng) => (s, rng)
  | (some i, rng) => (s.shiftRemoveIndex i, rng)

def pickRandom (rng : R) : Option α × R :=
  match pickRandomIndex random s rng with
  | (none, rng) => (none, rng)
  | (some i, rng) => (s.items[i]?, rng)

def pickRandomWithout (without : List α) (rng : R) : Option α × R :=
  random.choose rng (s.items.filter fun x => x ∉ without)

def shuffledAndCapped (len : Nat) (rng : R) : List α × R :=
  let (items, rng) := random.shuffle rng s.items
  (items.take len, rng)

def shuffledWithoutAndCapped (without : List α) (len : Nat) (rng : R) : List α × R :=
  let (items, rng) := random.shuffle rng (s.items.filter fun x => x ∉ without)
  (items.take len, rng)

end IndexSet

/-! ## Timers and caches -/

/-- Items by the instant at which they expire, and the order of insertion. -/
structure TimerMap (T : Type) where
  heap : Table (Instant ×ₗ Nat) T
  seq : Nat

namespace TimerMap
variable {T : Type}

def empty : TimerMap T := ⟨.empty, 0⟩

variable (m : TimerMap T)

def insert (instant : Instant) (item : T) : TimerMap T :=
  ⟨m.heap.insert (toLex (instant, m.seq)) item, m.seq + 1⟩

def popFirst : Option ((Instant × T) × TimerMap T) :=
  match m.heap.rows with
  | [] => none
  | (k, item) :: _ => some (((ofLex k).1, item), { m with heap := m.heap.remove k })

/-- Removes and returns all items that are not after the limit. -/
def drainUntil (limit : Instant) : List (Instant × T) × TimerMap T :=
  ((m.heap.range fun k => (ofLex k).1 ≤ limit).map fun row => ((ofLex row.1).1, row.2),
    { m with heap := m.heap.removeIf fun row => (ofLex row.1).1 ≤ limit })

def len : Nat := m.heap.rows.length

end TimerMap

/-- A map whose entries expire. -/
structure TimeBoundCache (K V : Type) [LinearOrder K] where
  map : Table K (Instant × V)
  expiry : TimerMap K
  capacity : Nat

namespace TimeBoundCache
variable {K V : Type} [LinearOrder K]

def withCapacity (capacity : Nat) : TimeBoundCache K V :=
  ⟨.empty, .empty, max 1 (min capacity maxDuplicateCacheEntries)⟩

variable (c : TimeBoundCache K V)

def containsKey (key : K) : Bool := (c.map.get key).isSome

def get (key : K) : Option V := (c.map.get key).map Prod.snd

/-- Removes an entry if it has not been set again since. -/
def removeExpired (map : Table K (Instant × V)) (time : Instant) (key : K) :
    Table K (Instant × V) :=
  match map.get key with
  | some entry => if entry.1 = time then map.remove key else map
  | none => map

/-- The loop that makes room for one entry. There are `fuel` items in the expiry heap. -/
def makeRoom (capacity : Nat) :
    Nat → Table K (Instant × V) → TimerMap K → Table K (Instant × V) × TimerMap K
  | 0, map, expiry => (map, expiry)
  | fuel + 1, map, expiry =>
    if map.rows.length ≥ capacity then
      match expiry.popFirst with
      | none => (map, expiry)
      | some ((time, key), expiry) =>
        makeRoom capacity fuel (removeExpired map time key) expiry
    else (map, expiry)

def compactExpiryIfNeeded : TimeBoundCache K V :=
  if c.expiry.len ≤ c.capacity * 2 then c
  else { c with expiry :=
    c.map.rows.foldl (fun expiry row => expiry.insert row.2.1 row.1) TimerMap.empty }

def insert (key : K) (value : V) (expires : Instant) : TimeBoundCache K V :=
  match c.map.get key with
  | some _ =>
    compactExpiryIfNeeded { c with
      map := c.map.insert key (expires, value)
      expiry := c.expiry.insert expires key }
  | none =>
    let (map, expiry) := makeRoom c.capacity c.expiry.len c.map c.expiry
    compactExpiryIfNeeded { c with
      map := map.insert key (expires, value)
      expiry := expiry.insert expires key }

def expireUntil (instant : Instant) : TimeBoundCache K V :=
  let (expired, expiry) := c.expiry.drainUntil instant
  { c with
    map := expired.foldl (fun map item => removeExpired map item.1 item.2) c.map
    expiry := expiry }

/-! An entry leaves the cache only when it is due, or when there is no room for a new one. -/

section
variable {c : TimeBoundCache K V} {map : Table K (Instant × V)} {k key : K} {time limit : Instant}

lemma get_removeExpired (map : Table K (Instant × V)) (time : Instant) (key k : K) :
    (removeExpired map time key).get k = map.get k ∨
    (removeExpired map time key).get k = none ∧ ∃ entry, map.get k = some entry ∧ entry.1 = time := by
  unfold removeExpired
  split
  · rename_i entry hent
    split
    · rename_i hdue
      by_cases hk : k = key
      · subst hk
        exact .inr ⟨Table.get_remove_self, entry, hent, hdue⟩
      · exact .inl (Table.get_remove_of_ne hk)
    · exact .inl rfl
  · exact .inl rfl

lemma get_makeRoom (capacity fuel : Nat) (map : Table K (Instant × V)) (expiry : TimerMap K) :
    (makeRoom capacity fuel map expiry).1.get k = map.get k ∨
      (makeRoom capacity fuel map expiry).1.get k = none := by
  induction fuel generalizing map expiry with
  | zero => exact .inl rfl
  | succ fuel ih =>
    unfold makeRoom
    split
    · split
      · exact .inl rfl
      · rename_i time key expiry' hpop
        cases get_removeExpired map time key k with
        | inl hsame =>
          rw [← hsame]
          exact ih _ expiry'
        | inr hgone =>
          have hrest := ih (removeExpired map time key) expiry'
          rw [hgone.1] at hrest
          exact .inr (hrest.elim id id)
    · exact .inl rfl

lemma makeRoom_of_lt {capacity fuel : Nat} {expiry : TimerMap K}
    (h : map.rows.length < capacity) : makeRoom capacity fuel map expiry = (map, expiry) := by
  cases fuel with
  | zero => rfl
  | succ fuel => rw [makeRoom, if_neg (Nat.not_le.mpr h)]

lemma map_compactExpiryIfNeeded (c : TimeBoundCache K V) : c.compactExpiryIfNeeded.map = c.map := by
  unfold compactExpiryIfNeeded
  split
  · rfl
  · rfl

lemma get_insert_self {value : V} {expires : Instant} :
    (c.insert key value expires).map.get key = some (expires, value) := by
  unfold insert
  split
  · rw [map_compactExpiryIfNeeded]
    exact Table.get_insert_self
  · rw [map_compactExpiryIfNeeded]
    exact Table.get_insert_self

lemma get_insert_of_ne {value : V} {expires : Instant} (h : k ≠ key) :
    (c.insert key value expires).map.get k = c.map.get k ∨
      (c.insert key value expires).map.get k = none ∧ c.capacity ≤ c.map.rows.length := by
  unfold insert
  split
  · rw [map_compactExpiryIfNeeded]
    exact .inl (Table.get_insert_of_ne h)
  · simp only [map_compactExpiryIfNeeded, Table.get_insert_of_ne h]
    by_cases hroom : c.map.rows.length < c.capacity
    · rw [makeRoom_of_lt hroom]
      exact .inl rfl
    · refine (get_makeRoom c.capacity c.expiry.len c.map c.expiry).imp_right fun hgone => ?_
      exact ⟨hgone, Nat.not_lt.mp hroom⟩

lemma get_foldl_removeExpired (items : List (Instant × K)) (h : ∀ item ∈ items, item.1 ≤ limit)
    (map : Table K (Instant × V)) :
    (items.foldl (fun map item => removeExpired map item.1 item.2) map).get k = map.get k ∨
      (items.foldl (fun map item => removeExpired map item.1 item.2) map).get k = none ∧
        ∃ entry, map.get k = some entry ∧ entry.1 ≤ limit := by
  induction items generalizing map with
  | nil => exact .inl rfl
  | cons item items ih =>
    have hrest := ih (fun i hi => h i (List.mem_cons_of_mem _ hi)) (removeExpired map item.1 item.2)
    rw [List.foldl_cons]
    cases get_removeExpired map item.1 item.2 k with
    | inl hsame =>
      rw [← hsame]
      exact hrest
    | inr hgone =>
      obtain ⟨hnone, entry, hent, hdue⟩ := hgone
      rw [hnone] at hrest
      refine .inr ⟨?_, entry, hent, hdue ▸ h item List.mem_cons_self⟩
      exact hrest.elim id And.left

lemma get_expireUntil : (c.expireUntil limit).map.get k = c.map.get k ∨
    (c.expireUntil limit).map.get k = none ∧ ∃ entry, c.map.get k = some entry ∧ entry.1 ≤ limit := by
  refine get_foldl_removeExpired _ (fun item hitem => ?_) c.map
  obtain ⟨row, hrow, rfl⟩ := List.mem_map.mp hitem
  exact of_decide_eq_true (Table.mem_range.mp hrow).2

end
end TimeBoundCache

/-! ## Outgoing events -/

/-- A state, and the events that it has pushed to the IO layer. -/
structure Io (S E : Type) where
  state : S
  out : List E

namespace Io
variable {S E : Type}
variable (x : Io S E)

def push (e : E) : Io S E := { x with out := x.out ++ [e] }

def modify (f : S → S) : Io S E := { x with state := f x.state }

@[simp] lemma push_state (e : E) : (x.push e).state = x.state := rfl

@[simp] lemma push_out (e : E) : (x.push e).out = x.out ++ [e] := rfl

@[simp] lemma modify_state (f : S → S) : (x.modify f).state = f x.state := rfl

lemma state_foldl {α : Type} {f : Io S E → α → Io S E} (h : ∀ x a, (f x a).state = x.state)
    (l : List α) (x : Io S E) : (l.foldl f x).state = x.state := by
  induction l generalizing x with
  | nil => rfl
  | cons a l ih => exact (ih (f x a)).trans (h x a)

end Io
end Krikos.Gossip
