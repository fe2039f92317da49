import Mathlib

/-!
# Docs.Ranger

Range-based set reconciliation (`krikos-docs/src/ranger.rs`): ranges, messages, the storage trait
and the two provided methods on it, `put` and `processMessage`.

The code is generic over the entry, its key and value types, the fingerprint and the store, and so
is the model: a store implementation is a value of `Store`, whose fields are the required methods
of the trait. A call of the source returns a value, returns an error of the store, or panics; the
last two are a `Fault`.
-/

namespace Krikos.Docs

/-- The places at which the modelled code panics. -/
inductive Panic where
  /-- `self.0[..]` outside the bytes of a record identifier. -/
  | slice
  /-- `expect("missing entry")` in the choice of a pivot. -/
  | missingEntry
  deriving DecidableEq, Repr

/-- How a call ends when it does not return a value. -/
inductive Fault (ε : Type) where
  | error (e : ε)
  | panic (p : Panic)
  deriving DecidableEq, Repr

inductive ContentStatus where
  | complete
  | incomplete
  | missing
  deriving DecidableEq, Repr

/-- An entry has a key, which orders it in ranges, and a value, which orders it in time. -/
class RangeEntry (E : Type) (K V : outParam Type) where
  key : E → K
  value : E → V

/-- Fingerprints of sets of entries, combined by `^=`. -/
class Fingerprint (F : Type) where
  /-- The fingerprint of the empty set. -/
  empty : F
  xor : F → F → F

/-- A range of keys: everything if `x = y`, `[x, y)` if `x < y`, and the complement of `[y, x)` if
`y < x`. -/
structure Range (K : Type) where
  x : K
  y : K
  deriving DecidableEq, Repr

namespace Range
variable {K : Type} [LinearOrder K]

def isAll (r : Range K) : Bool := r.x = r.y

def contains (r : Range K) (t : K) : Bool :=
  match compare r.x r.y with
  | .eq => true
  | .lt => r.x ≤ t && t < r.y
  | .gt => r.x ≤ t || t < r.y

end Range

structure RangeFingerprint (K F : Type) where
  range : Range K
  fingerprint : F
  deriving DecidableEq, Repr

structure RangeItem (E K : Type) where
  range : Range K
  values : List (E × ContentStatus)
  /-- If false, requests to send local items in the range. -/
  haveLocal : Bool
  deriving DecidableEq, Repr

inductive MessagePart (E K F : Type) where
  | rangeFingerprint (fp : RangeFingerprint K F)
  | rangeItem (item : RangeItem E K)
  deriving DecidableEq, Repr

structure Message (E K F : Type) where
  parts : List (MessagePart E K F)
  deriving DecidableEq, Repr

namespace MessagePart
variable {E K F : Type}

def values? : MessagePart E K F → Option (List (E × ContentStatus))
  | .rangeFingerprint _ => none
  | .rangeItem item => some item.values

def item? : MessagePart E K F → Option (RangeItem E K)
  | .rangeFingerprint _ => none
  | .rangeItem item => some item

def fingerprint? : MessagePart E K F → Option (RangeFingerprint K F)
  | .rangeFingerprint fp => some fp
  | .rangeItem _ => none

end MessagePart

def Message.values {E K F : Type} (m : Message E K F) : List (E × ContentStatus) :=
  (m.parts.filterMap MessagePart.values?).flatten

def Message.valueCount {E K F : Type} (m : Message E K F) : Nat := m.values.length

/-- `k` splits are generated in a recursion step, and ranges of up to `maxSetSize` entries are sent
as they are. -/
structure SyncConfig where
  maxSetSize : Nat
  splitFactor : Nat
  two_le : 2 ≤ splitFactor

def SyncConfig.default : SyncConfig := ⟨1, 2, Nat.le_refl 2⟩

inductive InsertOutcome where
  | notInserted
  | inserted (removed : Nat)
  deriving DecidableEq, Repr

/-- The required methods of the storage trait. Iterators are lists whose items may be errors. -/
structure Store (S E K V F ε : Type) where
  /-- The first key, or the default if there is none. -/
  getFirst : S → Except (Fault ε) K
  getFingerprint : S → Range K → Except (Fault ε) F
  /-- Inserts just the given entry, replacing the one at its key. -/
  entryPut : S → E → Except (Fault ε) S
  getRange : S → Range K → Except (Fault ε) (List (Except ε E))
  prefixesOf : S → K → Except (Fault ε) (List (Except ε E))
  /-- Removes the entries under a prefix whose value satisfies the predicate. -/
  removePrefixFiltered : S → K → (V → Bool) → Except (Fault ε) (S × Nat)

def collect {E ε : Type} : List (Except ε E) → Except (Fault ε) (List E)
  | [] => .ok []
  | .error e :: _ => .error (.error e)
  | .ok a :: rest =>
    match collect rest with
    | .error f => .error f
    | .ok l => .ok (a :: l)

namespace Store
variable {S E K V F ε : Type} [RangeEntry E K V] [LinearOrder K] [LE V] [DecidableLE V]
  [Fingerprint F] [DecidableEq F]

open RangeEntry

variable (ops : Store S E K V F ε)

/-- `Message::init` -/
def initialMessage (s : S) : Except (Fault ε) (Message E K F) :=
  match ops.getFirst s with
  | .error f => .error f
  | .ok x =>
    match ops.getFingerprint s ⟨x, x⟩ with
    | .error f => .error f
    | .ok fp => .ok ⟨[.rangeFingerprint ⟨⟨x, x⟩, fp⟩]⟩

/-- The loop of `put` over the prefix entries: whether one of them has a value at or above. -/
def newerPrefix (v : V) : List (Except ε E) → Except (Fault ε) Bool
  | [] => .ok false
  | .error e :: _ => .error (.error e)
  | .ok p :: rest => if v ≤ value p then .ok true else newerPrefix v rest

/-- Inserts an entry unless an entry at its key or at a prefix of its key is at least as new, and
removes the entries below its key that are not newer. -/
def put (s : S) (entry : E) : Except (Fault ε) (S × InsertOutcome) :=
  match ops.prefixesOf s (key entry) with
  | .error f => .error f
  | .ok prefixes =>
    match newerPrefix (value entry) prefixes with
    | .error f => .error f
    | .ok true => .ok (s, .notInserted)
    | .ok false =>
      match ops.removePrefixFiltered s (key entry) (fun v => decide (v ≤ value entry)) with
      | .error f => .error f
      | .ok (s, removed) =>
        match ops.entryPut s entry with
        | .error f => .error f
        | .ok s => .ok (s, .inserted removed)

/-- Our entry is not among the peer's, or it is newer than the peer's entry at its key. -/
def wanted (values : List (E × ContentStatus)) (our : E) : Bool :=
  !values.any fun their => key our = key their.1 && decide (value our ≤ value their.1)

/-- The entries of the range that the peer's values lack. -/
def diff (contentStatusCb : E → ContentStatus) (s : S)
    (item : RangeItem E K) : Except (Fault ε) (List (E × ContentStatus)) :=
  match ops.getRange s item.range with
  | .error f => .error f
  | .ok it =>
    match collect (it.filter fun our =>
        match our with
        | .ok our => wanted item.values our
        | .error _ => true) with
    | .error f => .error f
    | .ok items => .ok (items.map fun e => (e, contentStatusCb e))

/-- Stores incoming values. The second component lists the calls of `on_insert_cb`. -/
def storeValues (ops : Store S E K V F ε)
    (validateCb : S → E → ContentStatus → Except (Fault ε) Bool) :
    S → List (E × ContentStatus) → Except (Fault ε) (S × List (E × ContentStatus))
  | s, [] => .ok (s, [])
  | s, (entry, status) :: rest =>
    match validateCb s entry status with
    | .error f => .error f
    | .ok false => storeValues ops validateCb s rest
    | .ok true =>
      match ops.put s entry with
      | .error f => .error f
      | .ok (s, outcome) =>
        match storeValues ops validateCb s rest with
        | .error f => .error f
        | .ok (s, log) =>
          match outcome with
          | .inserted _ => .ok (s, (entry, status) :: log)
          | .notInserted => .ok (s, log)

/-- The reply to an item: our entries that the peer lacks, if it asked and there are any. -/
def itemReply (range : Range K) : List (E × ContentStatus) → List (MessagePart E K F)
  | [] => []
  | values => [.rangeItem ⟨range, values, true⟩]

def processItem (validateCb : S → E → ContentStatus → Except (Fault ε) Bool)
    (contentStatusCb : E → ContentStatus) (s : S) (item : RangeItem E K) :
    Except (Fault ε) (S × List (E × ContentStatus) × List (MessagePart E K F)) :=
  match (if item.haveLocal then .ok [] else diff ops contentStatusCb s item) with
  | .error f => .error f
  | .ok diff =>
    match storeValues ops validateCb s item.values with
    | .error f => .error f
    | .ok (s, log) => .ok (s, log, itemReply item.range diff)

def processItems (ops : Store S E K V F ε)
    (validateCb : S → E → ContentStatus → Except (Fault ε) Bool)
    (contentStatusCb : E → ContentStatus) : S → List (RangeItem E K) →
      Except (Fault ε) (S × List (E × ContentStatus) × List (MessagePart E K F))
  | s, [] => .ok (s, [], [])
  | s, item :: rest =>
    match processItem ops validateCb contentStatusCb s item with
    | .error f => .error f
    | .ok (s, log, out) =>
      match processItems ops validateCb contentStatusCb s rest with
      | .error f => .error f
      | .ok (s, log', out') => .ok (s, log ++ log', out ++ out')

/-- The first index whose key is at or above `x`. -/
def startIndex (x : K) : List (Except ε E) → Except (Fault ε) Nat
  | [] => .ok 0
  | .error e :: _ => .error (.error e)
  | .ok el :: rest =>
    if x ≤ key el then .ok 0
    else
      match startIndex x rest with
      | .error f => .error f
      | .ok n => .ok (n + 1)

/-- The `i`-th pivot of a range of `n` local entries whose order starts at `start`. -/
def pivot (config : SyncConfig) (s : S) (range : Range K) (n start i : Nat) : Except (Fault ε) K :=
  -- pivots wrap around; the offsets are 1/k, 2/k, .., 1 of the entries
  let offset := n * (i % config.splitFactor + 1) / config.splitFactor
  match ops.getRange s range with
  | .error f => .error f
  | .ok it =>
    match it[(start + offset) % n]? with
    | none => .error (.panic .missingEntry)
    | some (.error e) => .error (.error e)
    | some (.ok e) => .ok (key e)

/-- The non-empty ranges from pivot `i` to pivot `i + 1`, for the given `i`. -/
def pivotRanges (pivot : Nat → Except (Fault ε) K) : List Nat → Except (Fault ε) (List (Range K))
  | [] => .ok []
  | i :: rest =>
    match pivot i with
    | .error f => .error f
    | .ok x =>
      match pivot (i + 1) with
      | .error f => .error f
      | .ok y =>
        match pivotRanges pivot rest with
        | .error f => .error f
        | .ok ranges => .ok (if x = y then ranges else ⟨x, y⟩ :: ranges)

/-- The partition of a range in the recursion step. -/
def splitRanges (config : SyncConfig) (range : Range K) (pivot : Nat → Except (Fault ε) K) :
    Except (Fault ε) (List (Range K)) :=
  if range.isAll then
    -- the ranges between the pivots, of which exactly one wraps around
    pivotRanges pivot (List.range config.splitFactor)
  else
    match pivot 0 with
    | .error f => .error f
    | .ok first =>
      match pivotRanges pivot (List.range (config.splitFactor - 2)) with
      | .error f => .error f
      | .ok ranges =>
        match pivot (config.splitFactor - 2) with
        | .error f => .error f
        | .ok last => .ok (⟨range.x, first⟩ :: ranges ++ [⟨last, range.y⟩])

variable (config : SyncConfig) (contentStatusCb : E → ContentStatus) (s : S)

/-- The part sent for one range of the partition: its fingerprint, or its entries if they are few.
Entries that cannot be read are left out. -/
def chunkPart (range : Range K) : Except (Fault ε) (MessagePart E K F) :=
  match ops.getRange s range with
  | .error f => .error f
  | .ok chunk =>
    match ops.getFingerprint s range with
    | .error f => .error f
    | .ok fp =>
      if config.maxSetSize < chunk.length then .ok (.rangeFingerprint ⟨range, fp⟩)
      else
        let values := chunk.filterMap fun entry => entry.toOption
        .ok (.rangeItem ⟨range, values.map fun e => (e, contentStatusCb e), false⟩)

def chunkParts (ops : Store S E K V F ε) (config : SyncConfig) (contentStatusCb : E → ContentStatus)
    (s : S) : List (Range K) → Except (Fault ε) (List (MessagePart E K F))
  | [] => .ok []
  | range :: rest =>
    match chunkPart ops config contentStatusCb s range with
    | .error f => .error f
    | .ok part =>
      match chunkParts ops config contentStatusCb s rest with
      | .error f => .error f
      | .ok parts => .ok (part :: parts)

def recurse (range : Range K) (n : Nat) : Except (Fault ε) (List (MessagePart E K F)) :=
  match ops.getRange s range with
  | .error f => .error f
  | .ok it =>
    match startIndex range.x it with
    | .error f => .error f
    | .ok start =>
      match splitRanges config range (pivot ops config s range n start) with
      | .error f => .error f
      | .ok ranges => chunkParts ops config contentStatusCb s ranges

/-- The recursion anchor: send the entries of the range and ask for the peer's. -/
def anchor (range : Range K) : Except (Fault ε) (List (MessagePart E K F)) :=
  match ops.getRange s range with
  | .error f => .error f
  | .ok it =>
    match collect it with
    | .error f => .error f
    | .ok values => .ok [.rangeItem ⟨range, values.map fun e => (e, contentStatusCb e), false⟩]

def getRangeLen (range : Range K) : Except (Fault ε) Nat :=
  match ops.getRange s range with
  | .error f => .error f
  | .ok it =>
    match collect it with
    | .error f => .error f
    | .ok l => .ok l.length

/-- One turn of the loop over fingerprint parts: nothing on a match, the anchor for small ranges
and peers that have nothing, the recursion step otherwise. -/
def processFingerprint (fp : RangeFingerprint K F) : Except (Fault ε) (List (MessagePart E K F)) :=
  match ops.getFingerprint s fp.range with
  | .error f => .error f
  | .ok localFp =>
    if localFp = fp.fingerprint then .ok []
    else
      match getRangeLen ops s fp.range with
      | .error f => .error f
      | .ok n =>
        if n ≤ 1 ∨ fp.fingerprint = Fingerprint.empty then anchor ops contentStatusCb s fp.range
        else recurse ops config contentStatusCb s fp.range n

def processFingerprints (ops : Store S E K V F ε) (config : SyncConfig)
    (contentStatusCb : E → ContentStatus) (s : S) :
    List (RangeFingerprint K F) → Except (Fault ε) (List (MessagePart E K F))
  | [] => .ok []
  | fp :: rest =>
    match processFingerprint ops config contentStatusCb s fp with
    | .error f => .error f
    | .ok out =>
      match processFingerprints ops config contentStatusCb s rest with
      | .error f => .error f
      | .ok out' => .ok (out ++ out')

/-- What a call of `process_message` leaves and returns: the store, the calls of `on_insert_cb` and
the reply. -/
structure Processed (S E K F : Type) where
  store : S
  inserted : List (E × ContentStatus)
  reply : Option (Message E K F)
  deriving DecidableEq

def processMessage (validateCb : S → E → ContentStatus → Except (Fault ε) Bool)
    (contentStatusCb : E → ContentStatus) (s : S) (message : Message E K F) :
    Except (Fault ε) (Processed S E K F) :=
  match processItems ops validateCb contentStatusCb s
      (message.parts.filterMap MessagePart.item?) with
  | .error f => .error f
  | .ok (s, log, out) =>
    match processFingerprints ops config contentStatusCb s
        (message.parts.filterMap MessagePart.fingerprint?) with
    | .error f => .error f
    | .ok out' =>
      match out ++ out' with
      | [] => .ok ⟨s, log, none⟩
      | parts => .ok ⟨s, log, some ⟨parts⟩⟩

end Store
end Krikos.Docs
