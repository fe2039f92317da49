import Krikos.Identity.Event
import Krikos.Identity.MerkleSet

/-!
# Identity.State

The projected state of an account. `Projection` is the semantic part, which the source encodes as
`CanonicalProjectionView`; `AccountState` adds the evidence that is kept in memory: the lineage of
accepted events with their pre-states, and the branches of an open fork.
-/

namespace Krikos.Identity

open Lib

/-! ## The projection -/

structure PendingRecoveryObservation where
  admissionEvidenceId : AdmissionEvidenceId
  providerPolicyId : ProviderPolicyId
  requiredQuorum : Nat
  observedAt : Timestamp
  delayDeadline : Timestamp
  lifetimeDeadline : Timestamp
  receipts : ProviderReceipts
  deriving DecidableEq

structure PendingRecovery where
  recoveryId : RecoveryId
  proposal : RecoveryProposal
  preRecoveryControlPolicyId : ControlPolicyId
  beginEventId : EventId
  beginProposalId : ProposalId
  beginObservation : PendingRecoveryObservation
  deriving DecidableEq

structure MigrationKey where
  controllerId : ControllerId
  key : AlgorithmPublicKey
  deriving DecidableEq

structure RetiredCryptoSuite where
  suiteId : CryptoSuiteId
  retiredAt : Epoch
  deriving DecidableEq

structure StableCrypto where
  suite : CryptoSuiteDescriptor
  migratedKeys : List MigrationKey
  retiredSuites : List RetiredCryptoSuite
  keyTombstones : List AlgorithmPublicKey
  deriving DecidableEq

inductive CryptoProjection where
  | stable (stable : StableCrypto)
  | candidate (previous : StableCrypto) (migration : CryptoMigrationBody) (beginEventId : EventId)
  | dual (previous : StableCrypto) (migration : CryptoMigrationBody) (beginEventId : EventId)
      (activationEventId : EventId)
  deriving DecidableEq

inductive RetirementProjection where
  | account (retire : RetireAccount)
  | cryptoMigration (migrationId : CryptoMigrationId) (successorAccountId : AccountId)
      (retiredAt : Epoch)
  deriving DecidableEq

inductive ProjectionLifecycle where
  | active
  | recoveryPending
  | forked
  | migrationPending
  | migrationDual
  | upgradePending
  | retired
  deriving DecidableEq

structure ProjectedController where
  id : ControllerId
  descriptor : ControllerDescriptor
  deriving DecidableEq

def ProjectedController.signingKey (controller : ProjectedController) : SigningPublicKey :=
  controller.descriptor.signingKey

inductive ProjectedDeviceLifecycle where
  | active
  | suspended
  | revoked
  deriving DecidableEq

structure ProjectedDevice where
  id : DeviceId
  descriptor : DeviceDescriptor
  deviceClass : DeviceClass
  metadataCommitment : Option (FixedBytes 32)
  capabilities : List CapabilityGrant
  authorizationEpoch : Epoch
  lifecycle : ProjectedDeviceLifecycle
  deriving DecidableEq

structure Projection where
  accountId : AccountId
  genesisAnchor : GenesisAnchor
  protocolMajor : Nat
  sequence : Sequence
  epoch : Epoch
  heads : List EventId
  activeControllers : List ProjectedController
  revokedControllers : List ProjectedController
  devices : List ProjectedDevice
  controlPolicy : ControlPolicy
  controlPolicyId : ControlPolicyId
  recoveryPolicy : RecoveryPolicy
  recoveryPolicyId : RecoveryPolicyId
  providerPolicy : ProviderPolicy
  providerPolicyId : ProviderPolicyId
  pendingRecovery : Option PendingRecovery
  crypto : CryptoProjection
  upgrade : Option ProtocolUpgrade
  retirement : Option RetirementProjection
  lifecycle : ProjectionLifecycle
  deriving DecidableEq

/-! ## Functions from outside -/

/-- What a leaf of a guardian set commits: a grant without its policy, and a blinding. -/
structure GuardianLeaf where
  protectedAccountId : AccountId
  guardianAccountId : AccountId
  guardianSigningKey : SigningPublicKey
  weight : Nat
  validFromEpoch : Epoch
  expiresAt : Option Timestamp
  extensions : Extensions
  blinding : FixedBytes 32
  deriving DecidableEq

/-- Hashes, encodings and verification. The identifiers are hashes of canonical encodings, the
`Bytes` functions are the canonical encodings that signatures cover, the `Nat` functions are
encoded sizes, and the rest verifies Ed25519 signatures and provider receipts. -/
structure Primitives where
  accountId : GenesisBody → AccountId
  genesisAnchor : GenesisBody → GenesisAnchor
  controllerId : ControllerDescriptor → ControllerId
  providerId : ProviderDescriptor → ProviderId
  controlPolicyId : ControlPolicy → ControlPolicyId
  recoveryPolicyId : RecoveryPolicy → RecoveryPolicyId
  providerPolicyId : ProviderPolicy → ProviderPolicyId
  cryptoSuiteId : CryptoSuiteDescriptor → CryptoSuiteId
  cryptoMigrationId : CryptoMigrationBody → CryptoMigrationId
  guardianLeafId : GuardianLeaf → Digest
  guardianLeafValue : Digest → Digest
  merkleHash : Lib.HashTree.Preimage MerkleSetLeaf Digest → Digest
  signingKeyId : SigningPublicKey → ControllerKeyId
  algorithmKeyId : AlgorithmPublicKey → ControllerKeyId
  proposalId : EventBody → ProposalId
  admissionEvidenceId : AdmissionEvidence → AdmissionEvidenceId
  admittedEventId : EventBody → AdmissionEvidenceId → EventId
  approvalBytes : ControllerApprovalBody → Bytes
  intentBytes : EventIntentApprovalBody → Bytes
  guardianBytes : GuardianApprovalBody → Bytes
  migrationBytes : CryptoMigrationId → Bytes
  eventBytes : EventBody → AdmissionEvidence → ControllerApprovals → Nat
  projectionBytes : Projection → Nat
  ancestorBytes : ForkCommonAncestor → Nat
  predecessorsBytes : EventPredecessors → Nat
  verifyEd25519 (publicKey signature message : Bytes) : Bool
  verifyReceipt : InclusionReceipt → ProviderDescriptor → Except IdentityError Unit

/-! ## Genesis and authorized events -/

/-- A genesis that passed `AccountGenesis::from_sorted`. -/
structure AccountGenesis (c : Primitives) extends GenesisBody where
  nonce : accountNonce ≠ FixedBytes.zero 32
  providerVersion : initialProviderPolicy.policyVersion = 0
  recoveryVersion : initialRecoveryPolicy.policyVersion = 0
  nonempty : initialControllers ≠ []
  bounded : initialControllers.length ≤ MAX_CONTROLLERS
  sorted : SortedBy c.controllerId initialControllers
  distinct : initialControllers.Pairwise fun left right => left.signingKey ≠ right.signingKey
  satisfiable : initialPolicy.validateSatisfiable c.controllerId initialControllers = .ok ()
  recoverable :
    initialRecoveryPolicy.validateControllerAuthority c.controllerId initialControllers = .ok ()

/-- What `RecoveryAuthorityPlan::from_sorted` checks and `install_recovery_plan` relies on. -/
structure RecoveryAuthorityPlan.Valid (c : Primitives) (plan : RecoveryAuthorityPlan) : Prop where
  nonempty : plan.replacementControllers ≠ []
  sorted : SortedBy c.controllerId plan.replacementControllers
  distinct : plan.replacementControllers.Pairwise fun left right =>
    left.signingKey ≠ right.signingKey
  satisfiable : plan.replacementControlPolicy.validateSatisfiable c.controllerId
    plan.replacementControllers = .ok ()
  recoverable : plan.replacementRecoveryPolicy.validateControllerAuthority c.controllerId
    plan.replacementControllers = .ok ()

/-- A recovery plan that the operation installs is valid, and a migration that it begins leads to
another suite. -/
def AccountOperation.PlanValid (c : Primitives) : AccountOperation → Prop
  | .beginRecovery begin => begin.proposal.plan.Valid c
  | .beginCryptoMigration begin =>
    begin.migration.fromSuiteId ≠ c.cryptoSuiteId begin.migration.toSuite
  | _ => True

/-- The checkpoint that a begun recovery is admitted at. -/
def AccountOperation.CheckpointFits (evidence : AdmissionEvidence) : AccountOperation → Prop
  | .beginRecovery begin =>
    evidence.precedingCheckpoint = begin.proposal.plan.priorCheckpointId
  | _ => True

instance {evidence : AdmissionEvidence} (operation : AccountOperation) :
    Decidable (operation.CheckpointFits evidence) := by
  unfold AccountOperation.CheckpointFits
  split <;> infer_instance

def AccountOperation.requiresEmptyControllerApprovals : AccountOperation → Bool
  | .beginRecovery begin => begin.thresholdEvidence.asGuardianApprovals.isSome
  | .cancelRecovery cancel => cancel.thresholdEvidence.asGuardianApprovals.isSome
  | .finalizeRecovery _ => true
  | _ => false

/-- An event that passed `AuthorizedEvent::new`: every approval is for this very event. -/
structure AuthorizedEvent (c : Primitives) where
  body : EventBody
  admissionEvidence : AdmissionEvidence
  approvals : ControllerApprovals
  planValid : body.operation.PlanValid c
  proposed : admissionEvidence.proposalId = c.proposalId body
  checkpoint : body.operation.CheckpointFits admissionEvidence
  cardinality :
    approvals.asSlice.isEmpty = body.operation.requiresEmptyControllerApprovals
  subjects : ∀ approval ∈ approvals.asSlice, approval.body.subject =
    .event (c.admittedEventId body (c.admissionEvidenceId admissionEvidence))
      (c.admissionEvidenceId admissionEvidence)
  bounded : c.eventBytes body admissionEvidence approvals ≤ MAX_ACCOUNT_EVENT_BYTES
  deriving DecidableEq

namespace AuthorizedEvent
variable {c : Primitives}

/-- The identifier of the body under its admission evidence; approvals do not change it. -/
def eventId (event : AuthorizedEvent c) : EventId :=
  c.admittedEventId event.body (c.admissionEvidenceId event.admissionEvidence)

def encodedBytes (event : AuthorizedEvent c) : Nat :=
  c.eventBytes event.body event.admissionEvidence event.approvals

/-- `AuthorizedEvent::new` on a body whose recovery plan is valid. -/
def new (body : EventBody) (planValid : body.operation.PlanValid c) (evidence : AdmissionEvidence)
    (approvals : ControllerApprovals) : Except IdentityError (AuthorizedEvent c) :=
  let evidenceId := c.admissionEvidenceId evidence
  let eventId := c.admittedEventId body evidenceId
  if proposed : evidence.proposalId = c.proposalId body then
    if checkpoint : body.operation.CheckpointFits evidence then
      if cardinality :
          approvals.asSlice.isEmpty = body.operation.requiresEmptyControllerApprovals then
        if subjects : ∀ approval ∈ approvals.asSlice,
            approval.body.subject = .event eventId evidenceId then
          if bounded : c.eventBytes body evidence approvals ≤ MAX_ACCOUNT_EVENT_BYTES then
            .ok ⟨body, evidence, approvals, planValid, proposed, checkpoint, cardinality,
              subjects, bounded⟩
          else
            .error (.limitExceeded "authorized account event bytes"
              (c.eventBytes body evidence approvals) MAX_ACCOUNT_EVENT_BYTES)
        else .error (.invalidRelationship "authorized event approval subject")
      else .error (.invalidRelationship "authorized event controller approval cardinality")
    else .error (.invalidRelationship "begin recovery admission checkpoint")
  else .error (.invalidRelationship "authorized event admission subject")

lemma new_ok {body : EventBody} {planValid : body.operation.PlanValid c}
    {evidence : AdmissionEvidence} {approvals : ControllerApprovals} {event : AuthorizedEvent c}
    (h : new body planValid evidence approvals = .ok event) :
    event.body = body ∧ event.admissionEvidence = evidence ∧ event.approvals = approvals := by
  revert h
  fun_cases new body planValid evidence approvals with
  | case1 =>
    rintro ⟨⟩
    exact ⟨rfl, rfl, rfl⟩
  | _ => nofun

end AuthorizedEvent

/-! ## The state -/

mutual

/-- A projection with its retained evidence. -/
structure AccountState (c : Primitives) where
  projection : Projection
  lineage : List (LineageEntry c)
  lineageBytes : Nat
  historicalStateRequiredThrough : Option Sequence
  fork : Option (ForkProjection c)

/-- An accepted event with the state that it was accepted in. -/
structure LineageEntry (c : Primitives) where
  preState : AccountState c
  authorityState : Option (AccountState c)
  expectedEpoch : Epoch
  event : AuthorizedEvent c

structure ForkBranch (c : Primitives) where
  transitions : List (LineageEntry c)
  projectedState : AccountState c

structure ForkProjection (c : Primitives) where
  commonState : AccountState c
  commonAncestor : ForkCommonAncestor
  conflictSequence : Sequence
  conflictPredecessors : EventPredecessors
  branches : List (ForkBranch c)

end

inductive ApplyDisposition where
  | applied
  | replay
  | approvalsMerged
  | forkDetected
  deriving DecidableEq

inductive ProjectionEffect where
  | publishAccountEvent (eventId : EventId)
  | rotateGroupKeys (eventId : EventId) (epoch : Epoch)
  | notifyAccountChanged (eventId : EventId)
  | notifyForkDetected (eventId : EventId)
  deriving DecidableEq

structure ApplyOutcome where
  disposition : ApplyDisposition
  eventId : EventId
  effects : List ProjectionEffect

variable {c : Primitives}

def AccountState.fromGenesis (genesis : AccountGenesis c) : AccountState c where
  projection :=
    { accountId := c.accountId genesis.toGenesisBody
      genesisAnchor := c.genesisAnchor genesis.toGenesisBody
      protocolMajor := 1
      sequence := 0
      epoch := 0
      heads := []
      activeControllers := genesis.initialControllers.map fun descriptor =>
        ⟨c.controllerId descriptor, descriptor⟩
      revokedControllers := []
      devices := []
      controlPolicy := genesis.initialPolicy
      controlPolicyId := c.controlPolicyId genesis.initialPolicy
      recoveryPolicy := genesis.initialRecoveryPolicy
      recoveryPolicyId := c.recoveryPolicyId genesis.initialRecoveryPolicy
      providerPolicy := genesis.initialProviderPolicy
      providerPolicyId := c.providerPolicyId genesis.initialProviderPolicy
      pendingRecovery := none
      crypto := .stable ⟨.v1, [], [], []⟩
      upgrade := none
      retirement := none
      lifecycle := .active }
  lineage := []
  lineageBytes := 0
  historicalStateRequiredThrough := none
  fork := none

def AccountState.detachedSnapshot (s : AccountState c) : AccountState c :=
  { s with lineage := [], lineageBytes := 0, fork := none }

/-- The state that the approvals of the event were judged by. -/
def LineageEntry.authority (entry : LineageEntry c) : AccountState c :=
  entry.authorityState.getD entry.preState

end Krikos.Identity
