import Krikos.Identity.Project

/-!
# Identity.Apply

`validate_and_apply`: replays, linear events, forks and their resolution, with the lineage of
accepted events in memory and the bounds on what it may hold.
-/

namespace Krikos.Identity

open Lib

variable {c : Primitives}

/-! ## Evidence bytes -/

def checkedEvidenceAdd (total amount : Nat) : Except IdentityError Nat :=
  checkedAdd total amount "account projection evidence bytes"

variable (stateBytes : AccountState c → Except IdentityError Nat) (total : Nat)

def addTransitionBytes (transition : LineageEntry c) : Except IdentityError Nat := do
  let total ← checkedEvidenceAdd total transition.event.encodedBytes
  let preState ← stateBytes transition.preState
  let total ← checkedEvidenceAdd total preState
  match transition.authorityState with
  | none => return total
  | some authority =>
    let authority ← stateBytes authority
    checkedEvidenceAdd total authority

variable (branch : ForkBranch c)

def addBranchBytes : Except IdentityError Nat := do
  let projected ← stateBytes branch.projectedState
  let total ← checkedEvidenceAdd total projected
  branch.transitions.foldlM (addTransitionBytes stateBytes) total

/-- `account_state_evidence_bytes`; the first argument counts down to the nesting limit. -/
def accountStateEvidenceBytes : Nat → AccountState c → Except IdentityError Nat
  | 0, _ => .error (.limitExceeded "nested account projection evidence"
      (MAX_HISTORY_PAGE_EVENTS + 1) MAX_HISTORY_PAGE_EVENTS)
  | remaining + 1, s =>
    match s.fork with
    | none => .ok (c.projectionBytes s.projection)
    | some fork => do
      let common ← accountStateEvidenceBytes remaining fork.commonState
      let total ← checkedEvidenceAdd (c.projectionBytes s.projection) common
      let total ← checkedEvidenceAdd total (c.ancestorBytes fork.commonAncestor)
      let total ← checkedEvidenceAdd total (c.predecessorsBytes fork.conflictPredecessors)
      fork.branches.foldlM (addBranchBytes (accountStateEvidenceBytes remaining)) total

def AccountState.evidenceBytes (s : AccountState c) : Except IdentityError Nat :=
  accountStateEvidenceBytes (MAX_HISTORY_PAGE_EVENTS + 1) s

def lineageEntryEvidenceBytes (entry : LineageEntry c) : Except IdentityError Nat := do
  let preState ← entry.preState.evidenceBytes
  let total ← checkedEvidenceAdd entry.event.encodedBytes preState
  match entry.authorityState with
  | none => return total
  | some authority =>
    let authority ← authority.evidenceBytes
    checkedEvidenceAdd total authority

/-- One branch of `validate_fork_evidence_bound`. -/
def addForkBranchBytes : Except IdentityError Nat := do
  let projected ← branch.projectedState.evidenceBytes
  let total ← checkedEvidenceAdd total projected
  branch.transitions.foldlM (fun total transition => do
    let bytes ← lineageEntryEvidenceBytes transition
    checkedEvidenceAdd total bytes) total

def validateForkEvidenceBound (commonState : AccountState c) (branches : List (ForkBranch c)) :
    Except IdentityError Unit := do
  let total ← commonState.evidenceBytes
  let total ← branches.foldlM addForkBranchBytes total
  reject (total > MAX_FORK_EVIDENCE_BYTES)
    (.limitExceeded "account fork evidence bytes" total MAX_FORK_EVIDENCE_BYTES)

/-! ## Lineage -/

/-- The lineage has no room for another entry of the given size. -/
def lineageFull (length lineageBytes entryBytes : Nat) : Except IdentityError Bool :=
  if length ≥ MAX_HISTORY_PAGE_EVENTS then .ok true
  else do
    let total ← checkedAdd lineageBytes entryBytes "account lineage bytes"
    return total > MAX_HISTORY_PAGE_BYTES

/-- The loop of `retain_lineage_entry` that drops the oldest entries until one fits. -/
def evict (entryBytes : Nat) : List (LineageEntry c) → Nat → Option Sequence →
    Except IdentityError (List (LineageEntry c) × Nat × Option Sequence)
  | [], lineageBytes, through => .ok ([], lineageBytes, through)
  | removed :: lineage, lineageBytes, through => do
    let full ← lineageFull (lineage.length + 1) lineageBytes entryBytes
    if full then
      let removedBytes ← lineageEntryEvidenceBytes removed
      reject (lineageBytes < removedBytes) .storageCorruption
      evict entryBytes lineage (lineageBytes - removedBytes) (some removed.event.body.sequence)
    else return (removed :: lineage, lineageBytes, through)

/-- The lineage fields after `retain_lineage_entry`. An entry over the limit is not retained. -/
def retainEntry (lineage : List (LineageEntry c)) (lineageBytes : Nat)
    (through : Option Sequence) (entry : LineageEntry c) :
    Except IdentityError (List (LineageEntry c) × Nat × Option Sequence) := do
  let entryBytes ← lineageEntryEvidenceBytes entry
  let (lineage, lineageBytes, through) ← evict entryBytes lineage lineageBytes through
  if entryBytes > MAX_HISTORY_PAGE_BYTES then
    return (lineage, lineageBytes, some entry.event.body.sequence)
  else
    let lineageBytes ← checkedAdd lineageBytes entryBytes "account lineage bytes"
    return (lineage ++ [entry], lineageBytes, through)

/-- The loop of `normalize_lineage_bound`. -/
def retainEntries (lineage : List (LineageEntry c)) (lineageBytes : Nat)
    (through : Option Sequence) : List (LineageEntry c) →
    Except IdentityError (List (LineageEntry c) × Nat × Option Sequence)
  | [] => .ok (lineage, lineageBytes, through)
  | entry :: rest => do
    let (lineage, lineageBytes, through) ← retainEntry lineage lineageBytes through entry
    retainEntries lineage lineageBytes through rest

namespace AccountState
variable (s : AccountState c)

def withLineage (lineage : List (LineageEntry c)) (bytes : Nat) (through : Option Sequence) :
    AccountState c :=
  { s with
    lineage := lineage
    lineageBytes := bytes
    historicalStateRequiredThrough := through }

def retainLineageEntry (entry : LineageEntry c) : Except IdentityError (AccountState c) := do
  let (lineage, lineageBytes, through) ←
    retainEntry s.lineage s.lineageBytes s.historicalStateRequiredThrough entry
  return s.withLineage lineage lineageBytes through

def normalizeLineageBound : Except IdentityError (AccountState c) := do
  let (lineage, lineageBytes, through) ←
    retainEntries [] 0 s.historicalStateRequiredThrough s.lineage
  return s.withLineage lineage lineageBytes through

def lineageEvidence (eventId : EventId) : Option AdmissionEvidenceId :=
  (s.lineage.find? fun entry => entry.event.eventId = eventId).map fun entry =>
    c.admissionEvidenceId entry.event.admissionEvidence

/-! ## Linear events -/

def applyNewLinear (event : AuthorizedEvent c) : Except IdentityError (AccountState c) := do
  let (expectedEpoch, projection) ← s.projection.applyLinear s.lineageEvidence event
  let next ← { s with projection := projection }.retainLineageEntry
    ⟨s.detachedSnapshot, none, expectedEpoch, event⟩
  return { next with fork := none }

end AccountState

/-! ## Branches of a fork -/

def ForkBranch.eventId : Option EventId :=
  branch.transitions.getLast?.map fun transition => transition.event.eventId

def forkBranchEventId : Except IdentityError EventId :=
  okOr branch.eventId .storageCorruption

variable (branches : List (ForkBranch c))

def sortForkBranches : Except IdentityError (List (ForkBranch c)) := do
  let identified ← branches.mapM fun branch => do
    let eventId ← forkBranchEventId branch
    return (eventId, branch)
  return (sortByKey Prod.fst identified).map Prod.snd

def forkHeadIds : Except IdentityError (List EventId) :=
  branches.mapM forkBranchEventId

def maximumSequence : Option Sequence :=
  (branches.map fun branch => branch.projectedState.projection.sequence).max?

def maximumBranchEpoch : Option Epoch :=
  (branches.map fun branch => branch.projectedState.projection.epoch).max?

def commonAncestorOf (commonState : AccountState c) : Except IdentityError ForkCommonAncestor :=
  if commonState.projection.sequence = 0 then
    .ok (.genesis commonState.projection.genesisAnchor)
  else
    match commonState.projection.heads with
    | [ancestor] => .ok (.event ancestor)
    | _ => .error .storageCorruption

def ForkProjection.transitionsOf (fork : ForkProjection c) (eventId : EventId) :
    List (LineageEntry c) :=
  fork.branches.flatMap fun branch =>
    branch.transitions.filter fun transition => transition.event.eventId = eventId

/-- The two events compete for one place in the history. -/
def AuthorizedEvent.sameSlot (left right : AuthorizedEvent c) : Bool :=
  left.body.sequence = right.body.sequence && left.body.predecessors = right.body.predecessors

namespace AccountState

/-! ## Resolution -/

def withoutLineage (s : AccountState c) : AccountState c :=
  { s with lineage := [], lineageBytes := 0 }

variable (s : AccountState c) (event : AuthorizedEvent c)

/-- The projection that a resolution makes: the fork, the selected branch, the expected epoch, and
the branch with the revocations applied. -/
def projectResolution :
    Except IdentityError (ForkProjection c × ForkBranch c × Epoch × Projection) :=
  match event.body.operation with
  | .resolveFork resolution => do
    let fork ← okOr s.fork .storageCorruption
    reject (resolution.fork.accountId ≠ s.projection.accountId) .accountMismatch
    reject (resolution.fork.heads ≠ s.projection.heads ∨
      resolution.fork.commonAncestor ≠ fork.commonAncestor) .invalidPredecessor
    let selected ← okOr
      (fork.branches.find? fun branch => branch.eventId = some resolution.selectedHead)
      .invalidPredecessor
    let maximumEpoch ← okOr (maximumBranchEpoch fork.branches) .storageCorruption
    let expectedEpoch ← Epoch.checkedNext maximumEpoch
    let _ ← validateEvent c s.projection fork.commonState.projection event expectedEpoch
    let projection ← selected.projectedState.projection.applyResolution resolution event
    return (fork, selected, expectedEpoch, projection)
  | _ => .error .accountForked

def applyForkResolution : Except IdentityError (AccountState c) := do
  let (fork, selected, expectedEpoch, projection) ← s.projectResolution event
  let resolved ← { selected.projectedState.detachedSnapshot with
      projection := projection }.retainLineageEntry
    ⟨s.withoutLineage, some fork.commonState.detachedSnapshot, expectedEpoch, event⟩
  return { resolved with fork := none }

/-! ## Forks -/

/-- The state that `project_transition` projects: a resolution of the fork of the pre-state, or a
linear event. -/
def projectedAfter (preState : AccountState c) (event : AuthorizedEvent c) :
    Except IdentityError (AccountState c) :=
  if preState.fork.isSome ∧ event.body.operation.isResolveFork then
    preState.withoutLineage.applyForkResolution event
  else preState.detachedSnapshot.applyNewLinear event

/-- `project_transition`: an event on a retained pre-state. -/
def projectTransition (preState : AccountState c) (event : AuthorizedEvent c) :
    Except IdentityError (LineageEntry c × AccountState c) := do
  let projected ← preState.projectedAfter event
  let transition ← okOr projected.lineage.getLast? .storageCorruption
  return (transition, projected.detachedSnapshot)

def forked (commonState : AccountState c) (commonAncestor : ForkCommonAncestor)
    (conflictSequence : Sequence) (conflictPredecessors : EventPredecessors)
    (branches : List (ForkBranch c)) : Except IdentityError (AccountState c) := do
  let sequence ← okOr (maximumSequence branches) .storageCorruption
  let heads ← forkHeadIds branches
  return { commonState.detachedSnapshot with
    projection := { commonState.projection with
      sequence := sequence
      heads := heads
      lifecycle := .forked }
    fork := some ⟨commonState, commonAncestor, conflictSequence, conflictPredecessors, branches⟩ }

/-- The two branches of a new fork, and the fork that they make. -/
def forkOff (commonState : AccountState c)
    (commonAncestor : Except IdentityError ForkCommonAncestor)
    (leftTransitions : List (LineageEntry c)) (rightState : AccountState c) :
    Except IdentityError (AccountState c) := do
  let rightTransition ← okOr rightState.lineage.getLast? .storageCorruption
  let branches ← sortForkBranches
    [⟨leftTransitions, s.detachedSnapshot⟩, ⟨[rightTransition], rightState.detachedSnapshot⟩]
  validateForkEvidenceBound commonState branches
  let commonAncestor ← commonAncestor
  forked commonState commonAncestor event.body.sequence event.body.predecessors branches

def lineageFrom (eventId : EventId) : Option (List (LineageEntry c)) :=
  (s.lineage.findIdx? fun entry => entry.event.eventId = eventId).map fun index =>
    s.lineage.drop index

def openResolutionFork (conflict : LineageEntry c) : Except IdentityError (AccountState c) := do
  let originalFork ← okOr conflict.preState.fork .storageCorruption
  let leftTransitions ← okOr (s.lineageFrom conflict.event.eventId) .storageCorruption
  let rightState ← conflict.preState.applyForkResolution event
  s.forkOff event originalFork.commonState.detachedSnapshot (.ok originalFork.commonAncestor)
    leftTransitions rightState

def openFork (conflict : LineageEntry c) : Except IdentityError (AccountState c) :=
  if conflict.preState.fork.isSome ∧ event.body.operation.isResolveFork then
    s.openResolutionFork event conflict
  else do
    let commonState := conflict.preState.detachedSnapshot
    let expectedEpoch ← commonState.projection.expectedEpoch event.body.operation
    let _ ← validateEvent c commonState.projection commonState.projection event expectedEpoch
    let leftTransitions ← okOr (s.lineageFrom conflict.event.eventId)
      (.historicalStateRequired conflict.event.body.sequence)
    let rightState ← commonState.applyNewLinear event
    s.forkOff event commonState (commonAncestorOf commonState) leftTransitions rightState

def findLineageConflict : Option (LineageEntry c) :=
  s.lineage.reverse.find? fun entry => entry.event.eventId ≠ event.eventId &&
    entry.event.body.accountId = event.body.accountId && entry.event.sameSlot event

def continues (branch : ForkBranch c) : Bool :=
  (Sequence.checkedNext branch.projectedState.projection.sequence).toOption =
      some event.body.sequence &&
    event.body.predecessors.eventHeads = some branch.projectedState.projection.heads

/-- A transition of a branch that competes with the event, with the transitions before it. -/
def branchConflict (branch : ForkBranch c) : Option (List (LineageEntry c) × LineageEntry c) := do
  let index ← branch.transitions.findIdx? fun transition => transition.event.sameSlot event
  let transition ← branch.transitions[index]?
  return (branch.transitions.take index, transition)

/-- The branches of a fork with one more event: on a branch, or as a branch of its own. -/
def extendBranches : Except IdentityError (List (ForkBranch c)) :=
  match branches.findIdx? (continues event) with
  | some index => do
    let parent ← okOr branches[index]? .storageCorruption
    let (transition, projectedState) ← parent.projectedState.projectTransition event
    return branches.set index ⟨parent.transitions ++ [transition], projectedState⟩
  | none => do
    let (transitions, conflicting) ← okOr (branches.findSome? (branchConflict event))
      .accountForked
    reject (branches.length ≥ MAX_FORK_HEADS)
      (.limitExceeded "account fork heads" (branches.length + 1) MAX_FORK_HEADS)
    let (incoming, projectedState) ← conflicting.preState.projectTransition event
    return branches ++ [⟨transitions ++ [incoming], projectedState⟩]

/-- `apply_while_forked`, up to its first branch, which resolves the fork. -/
def extendFork : Except IdentityError (AccountState c) := do
  let fork ← okOr s.fork .storageCorruption
  reject (fork.branches.length < 2) .storageCorruption
  let branches ← extendBranches fork.branches event
  let branches ← sortForkBranches branches
  validateForkEvidenceBound fork.commonState branches
  let sequence ← okOr (maximumSequence branches) .storageCorruption
  let heads ← forkHeadIds branches
  return { s with
    projection := { s.projection with sequence := sequence, heads := heads }
    fork := some { fork with branches := branches } }

/-! ## Replays -/

def mergeEventEvidence (retained incoming : AuthorizedEvent c) :
    Except IdentityError (AuthorizedEvent c) := do
  reject (retained.body ≠ incoming.body ∨ retained.admissionEvidence ≠ incoming.admissionEvidence)
    (.invalidIdentifier "admitted event identity")
  let approvals ← retained.approvals.merge incoming.approvals
  if approvals = retained.approvals then return retained
  else AuthorizedEvent.new retained.body retained.planValid retained.admissionEvidence approvals

/-- An event against a retained transition of the same identifier. -/
def revalidate (entry : LineageEntry c) (event : AuthorizedEvent c) :
    Except IdentityError (Option Timestamp) :=
  validateEvent c entry.preState.projection entry.authority.projection event entry.expectedEpoch

def replayed (changed : Bool) : ApplyOutcome where
  disposition := if changed then .approvalsMerged else .replay
  eventId := event.eventId
  effects := []

def replayLineage (index : Nat)
    (entry : LineageEntry c) : Except IdentityError (AccountState c × ApplyOutcome) := do
  let _ ← revalidate entry event
  let merged ← mergeEventEvidence entry.event event
  if merged ≠ entry.event then
    let s ← { s with lineage := s.lineage.set index { entry with event := merged } }
      |>.normalizeLineageBound
    return (s, replayed event true)
  else return (s, replayed event false)

/-- The replay loop over the transitions of one identifier. -/
def mergeTransitions (event merged : AuthorizedEvent c) :
    List (LineageEntry c) → Except IdentityError (AuthorizedEvent c)
  | [] => .ok merged
  | transition :: rest => do
    let _ ← revalidate transition event
    let merged ← mergeEventEvidence transition.event merged
    mergeTransitions event merged rest

def replaceEvent (merged : AuthorizedEvent c) (branch : ForkBranch c) : ForkBranch c :=
  { branch with transitions := branch.transitions.map fun transition =>
      if transition.event.eventId = merged.eventId then { transition with event := merged }
      else transition }

def replayFork (fork : ForkProjection c) (transitions : List (LineageEntry c)) :
    Except IdentityError (AccountState c × ApplyOutcome) := do
  let merged ← mergeTransitions event event transitions
  if transitions.any fun transition => transition.event ≠ merged then
    let branches := fork.branches.map (replaceEvent merged)
    validateForkEvidenceBound fork.commonState branches
    return ({ s with fork := some { fork with branches := branches } }, replayed event true)
  else return (s, replayed event false)

def tryReplay : Except IdentityError (Option (AccountState c × ApplyOutcome)) := do
  match s.lineage.findIdx? fun entry => entry.event.eventId = event.eventId with
  | some index =>
    let entry ← okOr s.lineage[index]? .storageCorruption
    let outcome ← s.replayLineage event index entry
    return some outcome
  | none =>
    match s.fork with
    | none => return none
    | some fork =>
      match fork.transitionsOf event.eventId with
      | [] => return none
      | transition :: rest =>
        let outcome ← s.replayFork event fork (transition :: rest)
        return some outcome

/-! ## Deliveries -/

def transitionEffects (eventId : EventId) (epoch : Epoch) (changesEpoch : Bool) :
    List ProjectionEffect :=
  if changesEpoch then
    [.publishAccountEvent eventId, .rotateGroupKeys eventId epoch, .notifyAccountChanged eventId]
  else [.publishAccountEvent eventId, .notifyAccountChanged eventId]

def applied (event : AuthorizedEvent c) (s : AccountState c) (changesEpoch : Bool) :
    ApplyOutcome where
  disposition := .applied
  eventId := event.eventId
  effects := transitionEffects event.eventId s.projection.epoch changesEpoch

def forkDetected (event : AuthorizedEvent c) : ApplyOutcome where
  disposition := .forkDetected
  eventId := event.eventId
  effects := [.publishAccountEvent event.eventId, .notifyForkDetected event.eventId]

def applyWhileForked : Except IdentityError (AccountState c × ApplyOutcome) :=
  if event.body.operation.isResolveFork ∧
      event.body.predecessors.eventHeads = some s.projection.heads then do
    let resolved ← s.applyForkResolution event
    return (resolved, applied event resolved true)
  else do
    let extended ← s.extendFork event
    return (extended, forkDetected event)

/-- The lineage has dropped the states that the event belongs to. -/
def requiresHistoricalState : Bool :=
  event.body.accountId = s.projection.accountId &&
    s.historicalStateRequiredThrough.any fun through => event.body.sequence ≤ through

def applyNew : Except IdentityError (AccountState c × ApplyOutcome) :=
  if s.fork.isSome then s.applyWhileForked event
  else
    match s.findLineageConflict event with
    | some conflict => do
      let forked ← s.openFork event conflict
      return (forked, forkDetected event)
    | none => do
      reject (s.requiresHistoricalState event) (.historicalStateRequired event.body.sequence)
      let next ← s.applyNewLinear event
      return (next, applied event next (operationChangesEpoch event.body.operation))

/-- `validate_and_apply`: the new state with the outcome, or an error, which changes nothing. -/
def validateAndApply : Except IdentityError (AccountState c × ApplyOutcome) := do
  match ← s.tryReplay event with
  | some outcome => return outcome
  | none => s.applyNew event

def deliver : AccountState c :=
  match s.validateAndApply event with
  | .ok (next, _) => next
  | .error _ => s

/-- The states that deliveries, accepted or rejected, lead to. -/
inductive Reachable (genesis : AccountGenesis c) : AccountState c → Prop where
  | fromGenesis : Reachable genesis (fromGenesis genesis)
  | deliver {s : AccountState c} (event : AuthorizedEvent c) :
      Reachable genesis s → Reachable genesis (s.deliver event)

end AccountState
end Krikos.Identity
