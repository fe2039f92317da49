import Krikos.Identity.Store

/-!
# Identity.Sync

Account synchronization: pages of the history of a frozen revision, requests with their limits,
authenticated continuations, and the response to one request. A response shrinks event by event
until it fits, and its continuation counts the bytes of the session up to the response itself.
-/

namespace Krikos.Identity

open Lib

variable {c : Primitives}

def MAX_SYNC_FRAME_BYTES : Nat := 4 * 1024 * 1024
def MAX_SYNC_SESSION_BYTES : Nat := 16 * 1024 * 1024

/-! ## Event history -/

def AccountRevision.fromFrozenHeads (accountId : AccountId) (heads : List EventId) :
    Except IdentityError AccountRevision := do
  validateBounded "account revision heads" heads MAX_FORK_HEADS
  validateStrictlySorted id "account revision heads" heads
  return ⟨accountId, heads⟩

structure EventHistoryRecord (c : Primitives) where
  cursor : Nat
  event : AuthorizedEvent c

/-- The last position that was delivered of the history of a frozen revision. -/
structure EventHistoryCursor where
  sourceRevision : AccountRevision
  position : Nat

structure EventHistoryPage (c : Primitives) where
  sourceRevision : AccountRevision
  records : List (EventHistoryRecord c)
  nextCursor : Option EventHistoryCursor

/-- The heads of a frame, of a request or of a continuation, sorted and bounded. -/
structure SyncHeads where
  asSlice : List EventId
  bounded : asSlice.length ≤ MAX_FORK_HEADS
  sorted : SortedBy id asSlice

abbrev CursorKey := {bytes : FixedBytes 32 // bytes ≠ FixedBytes.zero 32}

structure SyncCursor where
  accountId : AccountId
  sourceHeads : SyncHeads
  nextItem : Nat
  deliveredBytes : Nat
  authenticator : FixedBytes 32
  bounded : deliveredBytes ≤ MAX_SYNC_SESSION_BYTES

structure SyncRequest where
  accountId : AccountId
  knownHeads : SyncHeads
  continuation : Option SyncCursor
  maxEvents : Nat
  maxFrameBytes : Nat
  someEvents : maxEvents ≠ 0
  boundedEvents : maxEvents ≤ MAX_EVENTS_PER_SYNC_BATCH
  someBytes : maxFrameBytes ≠ 0
  boundedBytes : maxFrameBytes ≤ MAX_SYNC_FRAME_BYTES
  sameAccount : ∀ cursor ∈ continuation, cursor.accountId = accountId

structure SyncFrame (c : Primitives) where
  accountId : AccountId
  sourceHeads : SyncHeads
  events : List (AuthorizedEvent c)
  continuation : Option SyncCursor

inductive SyncResponse (c : Primitives) where
  | frame (frame : SyncFrame c)
  | complete (accountId : AccountId) (heads : SyncHeads)

/-- Encoded sizes, and the keyed hash over the fields of a continuation. -/
structure SyncWire (c : Primitives) where
  historyBytes : AccountRevision → List (EventHistoryRecord c) → Nat → Nat
  frameBytes : SyncFrame c → Nat
  responseBytes : SyncResponse c → Nat
  cursorAuthenticator : CursorKey → AccountId → List EventId → Nat → Nat → FixedBytes 32

namespace StoredAccount

/-- One envelope of the loop that collects the history: approvals of one event are merged. -/
def collectEvent (closure : List EventId) (byEventId : Table EventId (AuthorizedEvent c))
    (event : AuthorizedEvent c) : Except IdentityError (Table EventId (AuthorizedEvent c)) :=
  if closure.contains event.eventId then
    match byEventId.get event.eventId with
    | none => .ok (byEventId.insert event.eventId event)
    | some retained => do
      reject (retained.body ≠ event.body ∨ retained.admissionEvidence ≠ event.admissionEvidence)
        .storageCorruption
      let approvals ← retained.approvals.merge event.approvals
      let merged ← AuthorizedEvent.new retained.body retained.planValid retained.admissionEvidence
        approvals
      return byEventId.insert event.eventId merged
  else .ok byEventId

/-- The whole history of a head set, in the order that pages deliver it. -/
def orderedHistory (a : StoredAccount c) (heads : List EventId) :
    Except IdentityError (List (AuthorizedEvent c)) := do
  reject (∃ head ∈ heads, (a.envelopes head).isEmpty)
    (.invalidRelationship "account event-history source revision")
  let closure ← a.ancestorClosure heads
  let byEventId ← (a.events.rows.map Prod.snd).foldlM (collectEvent closure) .empty
  reject (byEventId.rows.length ≠ closure.length) .storageCorruption
  let events := sortByKey (fun row => toLex (row.2.body.sequence, row.1)) byEventId.rows
  return events.map Prod.snd

def historyStart (sourceRevision : AccountRevision) :
    Option EventHistoryCursor → Except IdentityError Nat
  | none => .ok 0
  | some cursor => do
    reject (cursor.sourceRevision ≠ sourceRevision)
      (.invalidRelationship "account event-history cursor revision")
    checkedAdd cursor.position 1 "account event-history cursor"

def lastCursor (sourceRevision : AccountRevision) (records : List (EventHistoryRecord c)) :
    Option EventHistoryCursor :=
  records.getLast?.map fun record => ⟨sourceRevision, record.cursor⟩

def fillPage (wire : SyncWire c) (sourceRevision : AccountRevision)
    (maximumRecords maximumBytes : Nat) (records : List (EventHistoryRecord c)) (index : Nat) :
    List (AuthorizedEvent c) →
      Except IdentityError (List (EventHistoryRecord c) × Option EventHistoryCursor)
  | [] => .ok (records, none)
  | event :: rest =>
    if records.length = maximumRecords then .ok (records, lastCursor sourceRevision records)
    else
      let encoded := wire.historyBytes sourceRevision (records ++ [⟨index, event⟩]) index
      if encoded > maximumBytes then
        if records.isEmpty then
          .error (.limitExceeded "account event-history bytes" encoded maximumBytes)
        else .ok (records, lastCursor sourceRevision records)
      else fillPage wire sourceRevision maximumRecords maximumBytes (records ++ [⟨index, event⟩])
        (index + 1) rest

def eventHistory (wire : SyncWire c) (a : StoredAccount c) (sourceRevision : AccountRevision)
    (afterCursor : Option EventHistoryCursor) (maximumRecords maximumBytes : Nat) :
    Except IdentityError (EventHistoryPage c) := do
  reject (sourceRevision.accountId ≠ c.accountId a.genesis.toGenesisBody) .accountMismatch
  reject (maximumRecords = 0 ∨ maximumRecords > MAX_HISTORY_PAGE_EVENTS)
    (.limitExceeded "account event-history records" maximumRecords MAX_HISTORY_PAGE_EVENTS)
  reject (maximumBytes = 0 ∨ maximumBytes > MAX_HISTORY_PAGE_BYTES)
    (.limitExceeded "account event-history bytes" maximumBytes MAX_HISTORY_PAGE_BYTES)
  let events ← a.orderedHistory sourceRevision.heads
  let start ← historyStart sourceRevision afterCursor
  reject (start > events.length) (.invalidRelationship "account event-history cursor")
  let (records, nextCursor) ← fillPage wire sourceRevision maximumRecords maximumBytes [] start
    (events.drop start)
  return ⟨sourceRevision, records, nextCursor⟩

end StoredAccount

/-! ## Messages -/

def sortedHeads (heads : List EventId) : Except IdentityError SyncHeads :=
  let heads := sortByKey id heads
  if bounded : heads.length ≤ MAX_FORK_HEADS then
    match sorted : validateStrictlySorted id "sync head set" heads with
    | .ok () => .ok ⟨heads, bounded, sortedBy_of_validate sorted⟩
    | .error e => .error e
  else .error (.limitExceeded "sync head set" heads.length MAX_FORK_HEADS)

namespace SyncCursor

def issue (wire : SyncWire c) (key : CursorKey) (accountId : AccountId) (sourceHeads : List EventId)
    (nextItem deliveredBytes : Nat) : Except IdentityError SyncCursor :=
  if bounded : deliveredBytes ≤ MAX_SYNC_SESSION_BYTES then do
    let sourceHeads ← sortedHeads sourceHeads
    let authenticator :=
      wire.cursorAuthenticator key accountId sourceHeads.asSlice nextItem deliveredBytes
    return ⟨accountId, sourceHeads, nextItem, deliveredBytes, authenticator, bounded⟩
  else .error (.limitExceeded "sync cursor delivered bytes" deliveredBytes MAX_SYNC_SESSION_BYTES)

def verify (wire : SyncWire c) (key : CursorKey) (cursor : SyncCursor) :
    Except IdentityError Unit :=
  reject (wire.cursorAuthenticator key cursor.accountId cursor.sourceHeads.asSlice cursor.nextItem
    cursor.deliveredBytes ≠ cursor.authenticator) .invalidProof

end SyncCursor

def SyncRequest.new (accountId : AccountId) (knownHeads : List EventId)
    (continuation : Option SyncCursor) (maxEvents maxFrameBytes : Nat) :
    Except IdentityError SyncRequest := do
  let knownHeads ← sortedHeads knownHeads
  if events : maxEvents ≠ 0 ∧ maxEvents ≤ MAX_EVENTS_PER_SYNC_BATCH then
    if bytes : maxFrameBytes ≠ 0 ∧ maxFrameBytes ≤ MAX_SYNC_FRAME_BYTES then
      if sameAccount : ∀ cursor ∈ continuation, cursor.accountId = accountId then
        return ⟨accountId, knownHeads, continuation, maxEvents, maxFrameBytes, events.1, events.2,
          bytes.1, bytes.2, sameAccount⟩
      else .error .accountMismatch
    else .error (.limitExceeded "sync request byte limit" maxFrameBytes MAX_SYNC_FRAME_BYTES)
  else .error (.limitExceeded "sync request event limit" maxEvents MAX_EVENTS_PER_SYNC_BATCH)

def SyncFrame.new (wire : SyncWire c) (accountId : AccountId) (sourceHeads : List EventId)
    (events : List (AuthorizedEvent c)) (continuation : Option SyncCursor) :
    Except IdentityError (SyncFrame c) := do
  let sourceHeads ← sortedHeads sourceHeads
  validateBounded "sync frame events" events MAX_EVENTS_PER_SYNC_BATCH
  reject (∃ cursor ∈ continuation, cursor.accountId ≠ accountId ∨
    cursor.sourceHeads.asSlice ≠ sourceHeads.asSlice)
    (.invalidRelationship "sync frame continuation")
  let frame : SyncFrame c := ⟨accountId, sourceHeads, events, continuation⟩
  reject (wire.frameBytes frame > MAX_SYNC_FRAME_BYTES)
    (.limitExceeded "sync frame bytes" (wire.frameBytes frame) MAX_SYNC_FRAME_BYTES)
  return frame

def SyncResponse.completeAt (accountId : AccountId) (heads : List EventId) :
    Except IdentityError (SyncResponse c) := do
  let heads ← sortedHeads heads
  return .complete accountId heads

/-- `to_canonical_bytes` of a response, of which only the length is used. -/
def SyncResponse.canonicalBytes (wire : SyncWire c) (response : SyncResponse c) :
    Except IdentityError Nat := do
  reject (wire.responseBytes response > MAX_SYNC_FRAME_BYTES)
    (.limitExceeded "sync response bytes" (wire.responseBytes response) MAX_SYNC_FRAME_BYTES)
  return wire.responseBytes response

/-! ## The budget of a session -/

abbrev SyncResponseMeter (c : Primitives) := SyncResponse c → Except IdentityError Nat

structure SyncResponseBudget (c : Primitives) where
  previouslyDelivered : Nat
  currentRequestBytes : Nat
  maximumBytes : Nat
  responseMeter : SyncResponseMeter c

def chargeBytes (consumedBytes encodedBytes : Nat) : Except IdentityError Nat := do
  let consumed ← checkedAdd consumedBytes encodedBytes "sync session bytes"
  reject (consumed > MAX_SYNC_SESSION_BYTES)
    (.limitExceeded "sync session bytes" consumed MAX_SYNC_SESSION_BYTES)
  return consumed

namespace SyncResponseBudget

def validateEncoded (wire : SyncWire c) (budget : SyncResponseBudget c)
    (response : SyncResponse c) : Except IdentityError Unit := do
  let encoded ← response.canonicalBytes wire
  reject (encoded > budget.maximumBytes)
    (.limitExceeded "sync response bytes" encoded budget.maximumBytes)

def charge (budget : SyncResponseBudget c) (responseBytes : Nat) : Except IdentityError Unit := do
  let consumed ← chargeBytes 0 budget.previouslyDelivered
  let consumed ← chargeBytes consumed budget.currentRequestBytes
  let _ ← chargeBytes consumed responseBytes
  return ()

end SyncResponseBudget

def boundedSyncResponse (wire : SyncWire c) (response : SyncResponse c)
    (budget : SyncResponseBudget c) : Except IdentityError (SyncResponse c) := do
  budget.validateEncoded wire response
  let responseBytes ← budget.responseMeter response
  budget.charge responseBytes
  return response

/-- The loop of `build_stable_sync_response`: the counter in the continuation is raised until it is
the bytes of the session with the response that has it. -/
def stabilize (wire : SyncWire c) (key : CursorKey) (revision : AccountRevision) (nextItem : Nat)
    (events : List (AuthorizedEvent c)) (budget : SyncResponseBudget c) :
    Nat → Nat → Except IdentityError (SyncResponse c)
  | 0, _ => .error .invalidProof
  | rounds + 1, delivered => do
    let cursor ← SyncCursor.issue wire key revision.accountId revision.heads nextItem delivered
    let frame ← SyncFrame.new wire revision.accountId revision.heads events (some cursor)
    budget.validateEncoded wire (.frame frame)
    let responseBytes ← budget.responseMeter (.frame frame)
    let consumed ← checkedAdd budget.previouslyDelivered budget.currentRequestBytes
      "sync session bytes"
    let nextDelivered ← checkedAdd consumed responseBytes "sync session bytes"
    budget.charge responseBytes
    if nextDelivered = delivered then return .frame frame
    else stabilize wire key revision nextItem events budget rounds nextDelivered

variable (wire : SyncWire c) (key : CursorKey)

def buildStableSyncResponse (revision : AccountRevision)
    (nextItem : Nat) (events : List (AuthorizedEvent c)) (budget : SyncResponseBudget c) :
    Except IdentityError (SyncResponse c) := do
  let delivered ← checkedAdd budget.previouslyDelivered budget.currentRequestBytes
    "sync session bytes"
  stabilize wire key revision nextItem events budget 65 delivered

/-! ## Serving a request -/

def responseWith (accountId : AccountId) (sourceRevision : AccountRevision)
    (budget : SyncResponseBudget c) (records : List (EventHistoryRecord c)) (hasMore : Bool) :
    Except IdentityError (SyncResponse c) := do
  let events := records.map EventHistoryRecord.event
  let nextItem ← records.getLast?.mapM fun record =>
    checkedAdd record.cursor 1 "sync continuation cursor"
  let response ← (if hasMore then
      okOr nextItem .storageCorruption >>= fun nextItem =>
        buildStableSyncResponse wire key sourceRevision nextItem events budget
    else (SyncFrame.new wire accountId sourceRevision.heads events none).map SyncResponse.frame)
  boundedSyncResponse wire response budget

/-- The loop of `serve_sync_request_with_meter`: a response over a limit gives up its last event,
which is then left for the continuation. -/
def fitResponse (wire : SyncWire c) (key : CursorKey) (accountId : AccountId)
    (sourceRevision : AccountRevision) (budget : SyncResponseBudget c)
    (records : List (EventHistoryRecord c)) (hasMore : Bool) :
    Except IdentityError (SyncResponse c) :=
  match responseWith wire key accountId sourceRevision budget records hasMore with
  | .ok response => .ok response
  | .error (.limitExceeded resource actual maximum) =>
    if records.length > 1 then
      fitResponse wire key accountId sourceRevision budget records.dropLast true
    else .error (.limitExceeded resource actual maximum)
  | .error e => .error e
  termination_by records.length

/-- What a continuation freezes: the revision, the position and the bytes so far. -/
def resumeAt (accountId : AccountId) (cursor : SyncCursor) :
    Except IdentityError (AccountRevision × Option EventHistoryCursor × Nat) := do
  cursor.verify wire key
  reject (cursor.accountId ≠ accountId) .accountMismatch
  let sourceRevision ←
    AccountRevision.fromFrozenHeads cursor.accountId cursor.sourceHeads.asSlice
  let afterCursor : Option EventHistoryCursor :=
    if cursor.nextItem = 0 then none else some ⟨sourceRevision, cursor.nextItem - 1⟩
  return (sourceRevision, afterCursor, cursor.deliveredBytes)

/-- The response once the revision is known; the page is read from the store as it is by then. -/
def serveFrom (read : StoredAccount c) (request : SyncRequest) (sourceRevision : AccountRevision)
    (afterCursor : Option EventHistoryCursor) (budget : SyncResponseBudget c) :
    Except IdentityError (SyncResponse c) :=
  if request.continuation.isNone ∧ request.knownHeads.asSlice = sourceRevision.heads then do
    let response ← SyncResponse.completeAt request.accountId sourceRevision.heads
    boundedSyncResponse wire response budget
  else do
    let page ← read.eventHistory wire sourceRevision afterCursor request.maxEvents
      MAX_HISTORY_PAGE_BYTES
    reject (page.sourceRevision ≠ sourceRevision) .storageCorruption
    if page.records.isEmpty then
      let response ← SyncResponse.completeAt request.accountId sourceRevision.heads
      boundedSyncResponse wire response budget
    else
      fitResponse wire key request.accountId sourceRevision budget page.records
        page.nextCursor.isSome

/-- The account is loaded first and its history is read later: the store is not locked between the
two. -/
def serveSyncRequestWithMeter (loaded read : StoredAccount c)
    (request : SyncRequest) (currentRequestBytes : Nat) (responseMeter : SyncResponseMeter c) :
    Except IdentityError (SyncResponse c) := do
  reject (request.accountId ≠ c.accountId loaded.genesis.toGenesisBody)
    (.invalidRelationship "account store missing account")
  let snapshot ← loaded.snapshot
  let (sourceRevision, afterCursor, deliveredBytes) ←
    match request.continuation with
    | some cursor => resumeAt wire key request.accountId cursor
    | none => .ok (snapshot.revision, none, 0)
  serveFrom wire key read request sourceRevision afterCursor
    ⟨deliveredBytes, currentRequestBytes, request.maxFrameBytes, responseMeter⟩

end Krikos.Identity
