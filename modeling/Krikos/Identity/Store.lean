import Krikos.Identity.Apply
import Krikos.Lib.Table

/-!
# Identity.Store

The account store: the stored envelopes with their journal, the projection, the outbox of effects
with its leases, and the group-key rotations with the gate on protected writes. An event that
conflicts with a state out of the lineage window is checked against the stored history.
-/

namespace Krikos.Identity

open Lib

variable {c : Primitives}

def MAX_EVENTS_PER_SYNC_BATCH : Nat := 256
def IDENTITY_QUEUE_CAPACITY : Nat := 256

/-! ## Historical conflicts -/

namespace AccountState

/-- The loop over the accepted path: its transitions and the state that it leads to. -/
def replayPath (s : AccountState c) (pathBytes : Nat) : List (AuthorizedEvent c) →
    Except IdentityError (List (LineageEntry c) × AccountState c)
  | [] => .ok ([], s)
  | accepted :: rest => do
    let preState := s.detachedSnapshot
    let acceptedEpoch ← preState.projection.expectedEpoch accepted.body.operation
    let _ ← validateEvent c preState.projection preState.projection accepted acceptedEpoch
    let next ← s.applyNewLinear accepted
    let transition : LineageEntry c := ⟨preState, none, acceptedEpoch, accepted⟩
    let bytes ← lineageEntryEvidenceBytes transition
    let pathBytes ← checkedEvidenceAdd pathBytes bytes
    reject (pathBytes > MAX_FORK_EVIDENCE_BYTES)
      (.limitExceeded "account fork evidence bytes" pathBytes MAX_FORK_EVIDENCE_BYTES)
    let (transitions, tip) ← next.replayPath pathBytes rest
    return (transition :: transitions, tip)

/-- `open_fork` with an authenticated path in the place of the lineage. -/
def openForkFrom (s : AccountState c) (event : AuthorizedEvent c) (commonState : AccountState c)
    (leftTransitions : List (LineageEntry c)) : Except IdentityError (AccountState c) := do
  let expectedEpoch ← commonState.projection.expectedEpoch event.body.operation
  let _ ← validateEvent c commonState.projection commonState.projection event expectedEpoch
  let rightState ← commonState.applyNewLinear event
  s.forkOff event commonState (commonAncestorOf commonState) leftTransitions rightState

/-- `validate_and_apply_historical_conflict`; the detached tips are equal when their projections
are. -/
def validateAndApplyHistoricalConflict (s historicalPreState : AccountState c)
    (acceptedPath : List (AuthorizedEvent c)) (incoming : AuthorizedEvent c) :
    Except IdentityError (AccountState c × ApplyOutcome) := do
  let accepted ← okOr acceptedPath.head? .storageCorruption
  reject (¬ s.historicalStateRequiredThrough.any fun through => incoming.body.sequence ≤ through)
    (.invalidRelationship "historical conflict cache boundary")
  reject (historicalPreState.projection.accountId ≠ s.projection.accountId ∨
    historicalPreState.projection.genesisAnchor ≠ s.projection.genesisAnchor) .accountMismatch
  reject (¬ accepted.sameSlot incoming ∨ accepted.eventId = incoming.eventId)
    (.invalidRelationship "historical conflict event pair")
  let preState := historicalPreState.projection
  let acceptedEpoch ← preState.expectedEpoch accepted.body.operation
  let _ ← validateEvent c preState preState accepted acceptedEpoch
  let incomingEpoch ← preState.expectedEpoch incoming.body.operation
  let _ ← validateEvent c preState preState incoming incomingEpoch
  let (transitions, tip) ← historicalPreState.detachedSnapshot.replayPath 0 acceptedPath
  reject (tip.projection ≠ s.projection) .storageCorruption
  let forked ← s.openForkFrom incoming historicalPreState.detachedSnapshot transitions
  return (forked, forkDetected incoming)

end AccountState

/-! ## Records -/

abbrev EventAuthorizationId := Digest
abbrev ApplicationId := Digest
abbrev GroupId := Digest
abbrev GroupKeyEpoch := Nat
abbrev EffectId := FixedBytes 32
abbrev LeaseId := {bytes : FixedBytes 16 // bytes ≠ FixedBytes.zero 16}

/-- The identifiers of the store: of one envelope, approvals included, and of an effect. -/
structure StoreHashes (c : Primitives) where
  eventAuthorizationId : AuthorizedEvent c → EventAuthorizationId
  effectId : AccountId → ProjectionEffect → EffectId

/-- An account with its complete head set. -/
structure AccountRevision where
  accountId : AccountId
  heads : List EventId
  deriving DecidableEq

def AccountState.revisionToken (s : AccountState c) : AccountRevision :=
  ⟨s.projection.accountId, s.projection.heads⟩

inductive EffectFailure where
  | transient (code : Nat)
  | permanent (code : Nat)

inductive PendingEffect where
  | scheduled (retryAt : Timestamp)
  | exhausted (since : Timestamp)

inductive EffectState where
  | pending (effect : PendingEffect)
  | claimed (leaseId : LeaseId) (leasedUntil : Timestamp)
  | completed (leaseId : LeaseId) (completedAt : Timestamp)

structure EffectRecord where
  id : EffectId
  accountId : AccountId
  effect : ProjectionEffect
  state : EffectState
  attemptCount : Nat
  lastFailure : Option EffectFailure

def EffectState.isCompleted : EffectState → Bool
  | .completed _ _ => true
  | .pending _ | .claimed _ _ => false

/-- The lease that claimed the effect, or under which it was completed. -/
def EffectState.owner : EffectState → Option LeaseId
  | .claimed leaseId _ | .completed leaseId _ => some leaseId
  | .pending _ => none

/-- The effect may be claimed now: its retry time has come, or its lease has run out. -/
def EffectState.eligible (state : EffectState) (now : Timestamp) : Bool :=
  match state with
  | .pending (.scheduled retryAt) => retryAt ≤ now
  | .claimed _ leasedUntil => leasedUntil ≤ now
  | .pending (.exhausted _) | .completed _ _ => false

def EffectState.claimedBy (state : EffectState) (leaseId : LeaseId) : Bool :=
  match state with
  | .claimed owner _ => owner = leaseId
  | .pending _ | .completed _ _ => false

/-- What a commit at another revision may still do. -/
def ApplyDisposition.commutes : ApplyDisposition → Bool
  | .replay | .approvalsMerged | .forkDetected => true
  | .applied => false

structure ClaimEffects where
  now : Timestamp
  leasedUntil : Timestamp
  leaseId : LeaseId
  limit : Nat
  lasting : now < leasedUntil
  positive : 0 < limit
  bounded : limit ≤ IDENTITY_QUEUE_CAPACITY

/-- A group key that is sealed to one device. -/
structure WrappedGroupKey where
  recipientDeviceId : DeviceId
  wrapped : Bytes
  deriving DecidableEq

abbrev RecipientKeyWraps := List WrappedGroupKey

structure StoredGroupKeyRotation where
  accountId : AccountId
  applicationId : ApplicationId
  groupId : GroupId
  authorizingAccountEpoch : Epoch
  groupKeyEpoch : GroupKeyEpoch
  revisionHeads : List EventId
  recipientKeyWraps : RecipientKeyWraps
  deriving DecidableEq

/-! ## Group-key rotations -/

def validateDistributionLifecycle (p : Projection) : Except IdentityError Unit :=
  match p.lifecycle with
  | .active | .migrationPending | .migrationDual => .ok ()
  | .recoveryPending => .error .recoveryPending
  | .forked => .error .accountForked
  | .upgradePending => .error .protocolUpgradeReadOnly
  | .retired => .error .accountRetired

structure DistributionRecipient where
  deviceId : DeviceId
  agreementPublicKey : AgreementPublicKey
  authorizationEpoch : Epoch

structure GroupKeyDistributionSnapshot where
  accountId : AccountId
  applicationId : ApplicationId
  groupId : GroupId
  authorizingAccountEpoch : Epoch
  groupKeyEpoch : GroupKeyEpoch
  accountRevision : AccountRevision
  recipients : List DistributionRecipient

/-- One recipient of `from_post_state`: an active device. -/
def distributionRecipient (p : Projection) (deviceId : DeviceId) :
    Except IdentityError DistributionRecipient := do
  let device ← okOr (lookup ProjectedDevice.id deviceId p.devices) .deviceNotAuthorized
  match device.lifecycle with
  | .active =>
    reject (device.authorizationEpoch > p.epoch) .invalidEpoch
    return ⟨deviceId, device.descriptor.agreementKey, device.authorizationEpoch⟩
  | .suspended => .error .deviceSuspended
  | .revoked => .error .deviceRevoked

def GroupKeyDistributionSnapshot.fromPostState (state : AccountState c)
    (applicationId : ApplicationId) (groupId : GroupId) (groupKeyEpoch : GroupKeyEpoch)
    (expectedRecipientIds : List DeviceId) : Except IdentityError GroupKeyDistributionSnapshot := do
  validateDistributionLifecycle state.projection
  reject (expectedRecipientIds = []) (.emptyCollection "group key distribution membership")
  reject (expectedRecipientIds.length > MAX_DEVICES)
    (.limitExceeded "group key distribution membership" expectedRecipientIds.length MAX_DEVICES)
  reject (¬ expectedRecipientIds.Nodup) (.duplicateElement "group key distribution membership")
  let recipients ← (sortByKey id expectedRecipientIds).mapM (distributionRecipient state.projection)
  return ⟨state.projection.accountId, applicationId, groupId, state.projection.epoch,
    groupKeyEpoch, state.revisionToken, recipients⟩

structure GroupKeyRotation where
  accountRevision : AccountRevision
  accountId : AccountId
  applicationId : ApplicationId
  groupId : GroupId
  authorizingAccountEpoch : Epoch
  groupKeyEpoch : GroupKeyEpoch
  recipientKeyWraps : RecipientKeyWraps

/-- A complete rotation has one wrap for each recipient of the snapshot. -/
def GroupKeyRotation.fromSnapshot (snapshot : GroupKeyDistributionSnapshot)
    (recipientKeyWraps : RecipientKeyWraps) : Except IdentityError GroupKeyRotation := do
  reject (recipientKeyWraps.map WrappedGroupKey.recipientDeviceId ≠
    snapshot.recipients.map DistributionRecipient.deviceId)
    (.invalidRelationship "group key rotation snapshot output")
  reject (snapshot.accountRevision.accountId ≠ snapshot.accountId) .storageCorruption
  return ⟨snapshot.accountRevision, snapshot.accountId, snapshot.applicationId, snapshot.groupId,
    snapshot.authorizingAccountEpoch, snapshot.groupKeyEpoch, recipientKeyWraps⟩

def GroupKeyRotation.validateCurrentRevision (rotation : GroupKeyRotation)
    (state : AccountState c) : Except IdentityError Unit := do
  reject (state.projection.accountId ≠ rotation.accountId) .accountMismatch
  validateDistributionLifecycle state.projection
  reject (state.revisionToken ≠ rotation.accountRevision ∨
    state.projection.epoch ≠ rotation.authorizingAccountEpoch) .staleRevision

/-! ## The store of one account -/

structure StoredAccount (c : Primitives) where
  genesis : AccountGenesis c
  events : Table EventAuthorizationId (AuthorizedEvent c)
  eventJournal : List EventId
  outbox : Table EffectId EffectRecord
  groupKeyRotations : Table (ApplicationId ×ₗ GroupId) StoredGroupKeyRotation
  projection : AccountState c

structure AccountSnapshot (c : Primitives) where
  state : AccountState c
  revision : AccountRevision
  events : List (AuthorizedEvent c)

namespace StoredAccount

def create (genesis : AccountGenesis c) : StoredAccount c where
  genesis := genesis
  events := .empty
  eventJournal := []
  outbox := .empty
  groupKeyRotations := .empty
  projection := .fromGenesis genesis

variable (a : StoredAccount c)

/-- The stored envelopes of an event, in the order of their identifiers. -/
def envelopes (eventId : EventId) : List (AuthorizedEvent c) :=
  (a.events.rows.map Prod.snd).filter fun event => event.eventId = eventId

/-- The loop of `events_in_journal_order`. -/
def orderedEvents (a : StoredAccount c) (seen : List EventId) : List EventId →
    Except IdentityError (List (AuthorizedEvent c))
  | [] => .ok []
  | eventId :: rest => do
    reject (eventId ∈ seen) .storageCorruption
    reject ((a.envelopes eventId).isEmpty) .storageCorruption
    let ordered ← a.orderedEvents (eventId :: seen) rest
    return a.envelopes eventId ++ ordered

def eventsInJournalOrder : Except IdentityError (List (AuthorizedEvent c)) := do
  let ordered ← a.orderedEvents [] a.eventJournal
  reject (ordered.length ≠ a.events.rows.length) .storageCorruption
  return ordered

def snapshot : Except IdentityError (AccountSnapshot c) := do
  reject (a.projection.projection.accountId ≠ c.accountId a.genesis.toGenesisBody)
    .storageCorruption
  let ordered ← a.eventsInJournalOrder
  return ⟨a.projection, a.projection.revisionToken, ordered⟩

def insertEvent (hashes : StoreHashes c) (a : StoredAccount c) (event : AuthorizedEvent c) :
    StoredAccount c :=
  let authorizationId := hashes.eventAuthorizationId event
  if (a.events.get authorizationId).isSome then a
  else { a with
    eventJournal := if (a.envelopes event.eventId).isEmpty then a.eventJournal ++ [event.eventId]
      else a.eventJournal
    events := a.events.insert authorizationId event }

def canonicalEnvelope (eventId : EventId) : Except IdentityError (AuthorizedEvent c) :=
  okOr (a.envelopes eventId).head? .storageCorruption

/-- The loop of `ancestor_closure`: the stack has its top first, and the journal has room for this
many events more than the closure has. -/
def closeAncestors (a : StoredAccount c) : Nat → List EventId → List EventId →
    Except IdentityError (List EventId)
  | 0, closure, pending =>
    match pending.dropWhile (· ∈ closure) with
    | [] => .ok closure
    | _ :: _ => .error .storageCorruption
  | room + 1, closure, pending =>
    match pending.dropWhile (· ∈ closure) with
    | [] => .ok closure
    | eventId :: pending => do
      let event ← a.canonicalEnvelope eventId
      match event.body.predecessors.eventHeads with
      | some predecessors =>
        a.closeAncestors room (eventId :: closure) (predecessors.reverse ++ pending)
      | none =>
        reject (event.body.predecessors.genesisAnchor ≠
          some (c.genesisAnchor a.genesis.toGenesisBody)) .storageCorruption
        a.closeAncestors room (eventId :: closure) pending

def ancestorClosure (heads : List EventId) : Except IdentityError (List EventId) :=
  a.closeAncestors a.eventJournal.length [] heads.reverse

/-- The loop of `authenticated_linear_path`, from the head back. -/
def linearPath (a : StoredAccount c) (acceptedId : EventId) (cursor : EventId)
    (path : List (AuthorizedEvent c)) : Except IdentityError (List (AuthorizedEvent c)) :=
  if path.length ≥ a.eventJournal.length then .error .storageCorruption
  else do
    let event ← a.canonicalEnvelope cursor
    if cursor = acceptedId then return event :: path
    else
      match event.body.predecessors.eventHeads with
      | some [predecessor] => a.linearPath acceptedId predecessor (event :: path)
      | _ => .error .storageCorruption
  termination_by a.eventJournal.length - path.length

def authenticatedLinearPath (currentHeads : List EventId)
    (acceptedId : EventId) : Except IdentityError (List (AuthorizedEvent c)) :=
  match currentHeads with
  | [currentHead] => a.linearPath acceptedId currentHead []
  | _ => .error .storageCorruption

/-- The loop of `reconstruct_pre_state`: any rejection of a stored event is a corruption. -/
def replayStored (state : AccountState c) : List (AuthorizedEvent c) →
    Except IdentityError (AccountState c)
  | [] => .ok state
  | event :: rest =>
    match state.validateAndApply event with
    | .ok (next, _) => replayStored next rest
    | .error _ => .error .storageCorruption

def reconstructPreState (incoming : AuthorizedEvent c) : Except IdentityError (AccountState c) :=
  match incoming.body.predecessors.genesisAnchor with
  | some anchor => do
    reject (anchor ≠ c.genesisAnchor a.genesis.toGenesisBody) .storageCorruption
    return .fromGenesis a.genesis
  | none => do
    let heads ← okOr incoming.body.predecessors.eventHeads .storageCorruption
    let closure ← a.ancestorClosure heads
    let bodies ← closure.mapM a.canonicalEnvelope
    let state ← replayStored (.fromGenesis a.genesis)
      (sortByKey (fun event => toLex (event.body.sequence, event.eventId)) bodies)
    reject (state.projection.heads ≠ heads) .storageCorruption
    return state

def applyAuthenticatedHistoricalConflict (state : AccountState c)
    (incoming : AuthorizedEvent c) : Except IdentityError (AccountState c × ApplyOutcome) := do
  let currentAncestors ← a.ancestorClosure state.projection.heads
  let accepted := (a.events.rows.map Prod.snd).filter fun candidate =>
    candidate.eventId ≠ incoming.eventId && candidate.eventId ∈ currentAncestors &&
      candidate.sameSlot incoming
  let first ← okOr (sortByKey AuthorizedEvent.eventId accepted).head? .storageCorruption
  let acceptedPath ← a.authenticatedLinearPath state.projection.heads first.eventId
  let historicalPreState ← a.reconstructPreState incoming
  state.validateAndApplyHistoricalConflict historicalPreState acceptedPath incoming

/-- An event on a staged state; the stored history settles what the state no longer retains. -/
def applyEvent (state : AccountState c) (event : AuthorizedEvent c) :
    Except IdentityError (AccountState c × ApplyOutcome) :=
  match state.validateAndApply event with
  | .ok result => .ok result
  | .error (.historicalStateRequired _) => a.applyAuthenticatedHistoricalConflict state event
  | .error e => .error e

/-! ## Event commits -/

/-- `insert_effects`: an effect that is already there keeps its record. -/
def insertEffects (hashes : StoreHashes c) (accountId : AccountId)
    (outbox : Table EffectId EffectRecord) : List ProjectionEffect → Table EffectId EffectRecord
  | [] => outbox
  | effect :: rest =>
    let id := hashes.effectId accountId effect
    if (outbox.get id).isSome then insertEffects hashes accountId outbox rest
    else insertEffects hashes accountId
      (outbox.insert id ⟨id, accountId, effect, .pending (.scheduled 0), 0, none⟩) rest

def absorb (hashes : StoreHashes c) (a : StoredAccount c) (accountId : AccountId)
    (event : AuthorizedEvent c) (state : AccountState c) (outcome : ApplyOutcome) :
    StoredAccount c :=
  { a.insertEvent hashes event with
    outbox := insertEffects hashes accountId a.outbox outcome.effects
    projection := state }

def commitEvent (hashes : StoreHashes c) (a : StoredAccount c) (expectedRevision : AccountRevision)
    (event : AuthorizedEvent c) : Except IdentityError (StoredAccount c × ApplyOutcome) := do
  reject (event.body.accountId ≠ expectedRevision.accountId) .accountMismatch
  let current ← a.snapshot
  let (state, outcome) ← a.applyEvent current.state event
  reject (current.revision ≠ expectedRevision ∧ ¬ outcome.disposition.commutes)
    .staleRevision
  let committed := a.absorb hashes expectedRevision.accountId event state outcome
  let snapshot ← committed.snapshot
  reject (snapshot.revision ≠ state.revisionToken) .storageCorruption
  return (committed, outcome)

def canonicalEventOrder (hashes : StoreHashes c) (events : List (AuthorizedEvent c)) :
    List (AuthorizedEvent c) :=
  sortByKey (fun event => toLex (event.body.sequence,
    toLex (event.eventId, hashes.eventAuthorizationId event))) events

/-- The loop of `commit_events`; the staged state is the projection of the staged store. -/
def absorbAll (hashes : StoreHashes c) (accountId : AccountId) (a : StoredAccount c) :
    List (AuthorizedEvent c) → Except IdentityError (StoredAccount c × List ApplyOutcome)
  | [] => .ok (a, [])
  | event :: rest => do
    reject (event.body.accountId ≠ accountId) .accountMismatch
    let (state, outcome) ← a.applyEvent a.projection event
    let (committed, outcomes) ←
      absorbAll hashes accountId (a.absorb hashes accountId event state outcome) rest
    return (committed, outcome :: outcomes)

def commitEvents (hashes : StoreHashes c) (a : StoredAccount c)
    (expectedRevision : AccountRevision) (events : List (AuthorizedEvent c)) :
    Except IdentityError (StoredAccount c × List ApplyOutcome) := do
  reject (events.length > MAX_EVENTS_PER_SYNC_BATCH)
    (.limitExceeded "atomic event batch" events.length MAX_EVENTS_PER_SYNC_BATCH)
  let current ← a.snapshot
  reject (current.revision ≠ expectedRevision) .staleRevision
  let (committed, outcomes) ←
    absorbAll hashes expectedRevision.accountId a (canonicalEventOrder hashes events)
  let snapshot ← committed.snapshot
  reject (snapshot.revision ≠ committed.projection.revisionToken) .storageCorruption
  return (committed, outcomes)

/-! ## Effects -/

def setRecord (effectId : EffectId) (record : EffectRecord) : StoredAccount c :=
  { a with outbox := a.outbox.insert effectId record }

/-- The loop of `claim_effects` over the records. -/
def claimRows (request : ClaimEffects) (a : StoredAccount c) (claimed : List EffectRecord) :
    List (EffectId × EffectRecord) → StoredAccount c × List EffectRecord
  | [] => (a, claimed)
  | (effectId, record) :: rest =>
    if claimed.length = request.limit then (a, claimed)
    else if ¬ record.state.eligible request.now then claimRows request a claimed rest
    else if record.attemptCount ≥ MAX_RETRIES then
      claimRows request
        (a.setRecord effectId { record with state := .pending (.exhausted request.now) }) claimed rest
    else
      let record := { record with
        attemptCount := record.attemptCount + 1
        state := .claimed request.leaseId request.leasedUntil }
      claimRows request (a.setRecord effectId record) (claimed ++ [record]) rest

def claimEffects (request : ClaimEffects) : StoredAccount c × List EffectRecord :=
  let records := a.outbox.rows.map Prod.snd
  match (records.filter fun record => record.state.claimedBy request.leaseId).take
      request.limit with
  | [] => claimRows request a [] a.outbox.rows
  | alreadyClaimed => (a, alreadyClaimed)

variable (effectId : EffectId) (leaseId : LeaseId)

def completeEffect (completedAt : Timestamp) : Except IdentityError (StoredAccount c) := do
  let record ← okOr (a.outbox.get effectId) (.invalidRelationship "unknown effect record")
  reject (record.state.owner ≠ some leaseId)
    (.invalidRelationship "effect completion lease ownership")
  if record.state.isCompleted then return a
  else return a.setRecord effectId { record with state := .completed leaseId completedAt }

/-- `retry_effect`, with whether the effect is exhausted. -/
def retryEffect (retryAt : Timestamp) (failure : EffectFailure) :
    Except IdentityError (StoredAccount c × Bool) := do
  let record ← okOr (a.outbox.get effectId) (.invalidRelationship "unknown effect record")
  match record.state with
  | .claimed owner _ =>
    reject (owner ≠ leaseId) (.invalidRelationship "effect retry lease ownership")
    let exhausted : Bool := record.attemptCount ≥ MAX_RETRIES ||
      match failure with
      | .permanent _ => true
      | .transient _ => false
    let pending := if exhausted then PendingEffect.exhausted retryAt else .scheduled retryAt
    return (a.setRecord effectId
      { record with lastFailure := some failure, state := .pending pending }, exhausted)
  | .pending _ | .completed _ _ => .error (.invalidRelationship "effect retry lifecycle")

/-! ## Rotations and protected writes -/

def rotation (applicationId : ApplicationId) (groupId : GroupId) : Option StoredGroupKeyRotation :=
  a.groupKeyRotations.get (toLex (applicationId, groupId))

def rotationRecord (rotation : GroupKeyRotation) : StoredGroupKeyRotation where
  accountId := rotation.accountId
  applicationId := rotation.applicationId
  groupId := rotation.groupId
  authorizingAccountEpoch := rotation.authorizingAccountEpoch
  groupKeyEpoch := rotation.groupKeyEpoch
  revisionHeads := rotation.accountRevision.heads
  recipientKeyWraps := rotation.recipientKeyWraps

def rotationEpoch : ProjectionEffect → Option Epoch
  | .rotateGroupKeys _ epoch => some epoch
  | .publishAccountEvent _ | .notifyAccountChanged _ | .notifyForkDetected _ => none

def putRotation (record : StoredGroupKeyRotation) : Except IdentityError (StoredAccount c) :=
  match a.rotation record.applicationId record.groupId with
  | none => .ok { a with groupKeyRotations :=
      a.groupKeyRotations.insert (toLex (record.applicationId, record.groupId)) record }
  | some previous =>
    if previous = record then .ok a
    else if previous.groupKeyEpoch ≥ record.groupKeyEpoch then .error .staleRevision
    else .ok { a with groupKeyRotations :=
      a.groupKeyRotations.insert (toLex (record.applicationId, record.groupId)) record }

def commitGroupKeyRotation (rotation : GroupKeyRotation) (completedAt : Timestamp) :
    Except IdentityError (StoredAccount c) := do
  rotation.validateCurrentRevision a.projection
  let effect ← okOr (a.outbox.get effectId) (.invalidRelationship "group rotation effect")
  let epoch ← okOr (rotationEpoch effect.effect)
    (.invalidRelationship "group rotation effect kind")
  reject (epoch ≠ rotation.authorizingAccountEpoch) .invalidEpoch
  reject (effect.state.owner ≠ some leaseId) (.invalidRelationship "group rotation effect lease")
  let stored ← a.putRotation (rotationRecord rotation)
  stored.completeEffect effectId leaseId completedAt

/-- The loop of `authorize_protected_write`: whether the epoch asks for a rotation. -/
def rotationRequired (epoch : Epoch) : List EffectRecord → Except IdentityError Bool
  | [] => .ok false
  | record :: rest =>
    if rotationEpoch record.effect = some epoch then
      if record.state.isCompleted then do
        let _ ← rotationRequired epoch rest
        return true
      else .error .protectedWritesBlocked
    else rotationRequired epoch rest

def authorizeProtectedWrite (expectedRevision : AccountRevision)
    (applicationId : ApplicationId) (groupId : GroupId) : Except IdentityError Unit := do
  reject (a.projection.revisionToken ≠ expectedRevision) .staleRevision
  let currentEpoch := a.projection.projection.epoch
  let required ← rotationRequired currentEpoch (a.outbox.rows.map Prod.snd)
  if required then
    let rotation ← okOr (a.rotation applicationId groupId) .protectedWritesBlocked
    reject (rotation.authorizingAccountEpoch ≠ currentEpoch) .protectedWritesBlocked
  else return ()

end StoredAccount
end Krikos.Identity
