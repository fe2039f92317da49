import Krikos.Identity.Policy

/-!
# Identity.Operation

Provider evidence and the payloads of the account operations. A payload type carries the
structural checks of its constructor as fields where the projection relies on them.
-/

namespace Krikos.Identity

open Lib

/-! ## Provider receipts -/

inductive ProviderLogSubject where
  | checkpoint (checkpointId : CheckpointId)
  | eventIntent (proposalId : ProposalId)
  deriving DecidableEq

structure ProviderLogEntryBody where
  providerId : ProviderId
  logId : ProviderLogId
  accountId : AccountId
  subject : ProviderLogSubject
  observedAt : Timestamp
  extensions : Extensions
  deriving DecidableEq

structure ProviderHeadBody where
  providerId : ProviderId
  logId : ProviderLogId
  keyVersion : Nat
  treeSize : Nat
  treeRoot : Digest
  observedAt : Timestamp
  extensions : Extensions
  deriving DecidableEq

structure SignedProviderHead where
  body : ProviderHeadBody
  signature : Bytes
  deriving DecidableEq

structure InclusionReceipt where
  entry : ProviderLogEntryBody
  leafIndex : Nat
  auditPath : List Digest
  signedHead : SignedProviderHead
  deriving DecidableEq

def InclusionReceipt.providerId (receipt : InclusionReceipt) : ProviderId :=
  receipt.entry.providerId

/-- Receipts of distinct providers, sorted by provider. -/
structure ProviderReceipts where
  asSlice : List InclusionReceipt
  sorted : SortedBy InclusionReceipt.providerId asSlice
  deriving DecidableEq

inductive FreshnessEvidence where
  | localKnown (checkpointId : CheckpointId)
  | providerQuorum (checkpointId : CheckpointId) (providerPolicyId : ProviderPolicyId)
      (receipts : ProviderReceipts)
  deriving DecidableEq

def FreshnessEvidence.providerPolicyId : FreshnessEvidence → Option ProviderPolicyId
  | .localKnown _ => none
  | .providerQuorum _ providerPolicyId _ => some providerPolicyId

def FreshnessEvidence.providerReceipts : FreshnessEvidence → Option ProviderReceipts
  | .localKnown _ => none
  | .providerQuorum _ _ receipts => some receipts

/-! ## Devices -/

structure DeviceAuthorization where
  deviceId : DeviceId
  descriptor : DeviceDescriptor
  deviceClass : DeviceClass
  metadataCommitment : Option (FixedBytes 32)
  capabilities : List CapabilityGrant
  authorizationEpoch : Epoch
  extensions : Extensions
  deriving DecidableEq

structure DeviceAuthorizationUpdate where
  deviceId : DeviceId
  deviceClass : DeviceClass
  capabilities : List CapabilityGrant
  authorizationEpoch : Epoch
  extensions : Extensions
  deriving DecidableEq

structure DeviceMetadataUpdate where
  deviceId : DeviceId
  metadataCommitment : Option (FixedBytes 32)
  extensions : Extensions
  deriving DecidableEq

structure SuspendDevice where
  deviceId : DeviceId
  extensions : Extensions
  deriving DecidableEq

structure ReinstateDevice where
  deviceId : DeviceId
  extensions : Extensions
  deriving DecidableEq

structure RevokeDevice where
  deviceId : DeviceId
  reasonCode : Option Nat
  extensions : Extensions
  deriving DecidableEq

structure RotateDeviceKeys where
  oldDeviceId : DeviceId
  newAuthorization : DeviceAuthorization
  extensions : Extensions
  deriving DecidableEq

/-! ## Recovery -/

structure RecoveryAuthorityPlan where
  accountId : AccountId
  priorCheckpointId : CheckpointId
  priorEventHead : EventId
  recoveryPolicyId : RecoveryPolicyId
  recoveryPolicyVersion : Nat
  nonce : FixedBytes 32
  replacementControllers : List ControllerDescriptor
  replacementControlPolicy : ControlPolicy
  replacementRecoveryPolicy : RecoveryPolicy
  retainedDevices : List DeviceId
  expiresAt : Timestamp
  extensions : Extensions
  deriving DecidableEq

structure RecoveryProposal where
  plan : RecoveryAuthorityPlan
  extensions : Extensions
  deriving DecidableEq

inductive GuardianApprovalDecision where
  | begin
  | cancel
  deriving DecidableEq

/-- The private authority of one guardian. -/
structure GuardianGrant where
  protectedAccountId : AccountId
  recoveryPolicyId : RecoveryPolicyId
  guardianAccountId : AccountId
  guardianSigningKey : SigningPublicKey
  weight : Nat
  validFromEpoch : Epoch
  expiresAt : Option Timestamp
  extensions : Extensions
  deriving DecidableEq

/-- A revealed grant with its place in the committed guardian set. -/
structure GuardianGrantOpening where
  guardianGrantId : GuardianGrantId
  grant : GuardianGrant
  blinding : FixedBytes 32
  guardianSetRoot : Digest
  leafIndex : Nat
  auditPath : List Digest
  extensions : Extensions
  deriving DecidableEq

structure GuardianApprovalBody where
  protectedAccountId : AccountId
  recoveryId : RecoveryId
  decision : GuardianApprovalDecision
  guardianGrantId : GuardianGrantId
  accountEpoch : Epoch
  approvedAt : Timestamp
  extensions : Extensions
  deriving DecidableEq

structure SignedGuardianApproval where
  body : GuardianApprovalBody
  opening : GuardianGrantOpening
  signature : Bytes
  deriving DecidableEq

namespace SignedGuardianApproval

def SameSubject (approval first : SignedGuardianApproval) : Prop :=
  approval.body.protectedAccountId = first.body.protectedAccountId ∧
  approval.body.recoveryId = first.body.recoveryId ∧
  approval.body.decision = first.body.decision ∧
  approval.opening.guardianSetRoot = first.opening.guardianSetRoot ∧
  approval.opening.grant.recoveryPolicyId = first.opening.grant.recoveryPolicyId

/-- Different guardians, with different keys, at different places. -/
def Separate (left right : SignedGuardianApproval) : Prop :=
  left.opening.grant.guardianAccountId ≠ right.opening.grant.guardianAccountId ∧
  left.opening.grant.guardianSigningKey ≠ right.opening.grant.guardianSigningKey ∧
  left.opening.leafIndex ≠ right.opening.leafIndex

instance instDecidableSameSubject (approval first : SignedGuardianApproval) :
    Decidable (approval.SameSubject first) :=
  inferInstanceAs (Decidable (_ ∧ _ ∧ _ ∧ _ ∧ _))

instance instDecidableSeparate (left right : SignedGuardianApproval) :
    Decidable (left.Separate right) :=
  inferInstanceAs (Decidable (_ ∧ _ ∧ _))

end SignedGuardianApproval

/-- Approvals that passed `GuardianApprovalSet::from_sorted`. -/
structure GuardianApprovalSet where
  first : SignedGuardianApproval
  rest : List SignedGuardianApproval
  bounded : (first :: rest).length ≤ MAX_RECOVERY_GUARDIANS
  sorted : SortedBy (fun approval => approval.body.guardianGrantId) (first :: rest)
  subject : ∀ approval ∈ rest, approval.SameSubject first
  separate : (first :: rest).Pairwise SignedGuardianApproval.Separate
  deriving DecidableEq

def GuardianApprovalSet.asSlice (approvals : GuardianApprovalSet) : List SignedGuardianApproval :=
  approvals.first :: approvals.rest

structure GuardianAuthorityContext where
  protectedAccountId : AccountId
  recoveryId : RecoveryId
  recoveryPolicyId : RecoveryPolicyId
  recoveryPolicyVersion : Nat
  accountEpoch : Epoch
  decision : GuardianApprovalDecision
  authorityTime : Timestamp
  deriving DecidableEq

structure RecoveryThresholdEvidence where
  recoveryPolicyId : RecoveryPolicyId
  recoveryPolicyVersion : Nat
  asGuardianApprovals : Option GuardianApprovalSet
  deriving DecidableEq

structure BeginRecovery where
  expectedPendingRecovery : Option RecoveryId
  recoveryId : RecoveryId
  proposal : RecoveryProposal
  thresholdEvidence : RecoveryThresholdEvidence
  extensions : Extensions
  deriving DecidableEq

def BeginRecovery.requiresVacantRecoverySlot (begin : BeginRecovery) : Bool :=
  begin.expectedPendingRecovery.isNone

structure VetoRecovery where
  expectedPendingRecovery : RecoveryId
  preRecoveryControlPolicyId : ControlPolicyId
  freshness : FreshnessEvidence
  extensions : Extensions
  deriving DecidableEq

structure CancelRecovery where
  expectedPendingRecovery : RecoveryId
  thresholdEvidence : RecoveryThresholdEvidence
  freshness : FreshnessEvidence
  extensions : Extensions
  deriving DecidableEq

structure RecoveryDelayAnchor where
  accountId : AccountId
  recoveryId : RecoveryId
  beginProposalId : ProposalId
  providerPolicyId : ProviderPolicyId
  requiredQuorum : Nat
  observedAt : Timestamp
  receipts : ProviderReceipts
  extensions : Extensions
  positive : 0 < requiredQuorum
  deriving DecidableEq

structure FinalizeRecovery where
  expectedPendingRecovery : RecoveryId
  delayAnchor : RecoveryDelayAnchor
  finalizedAt : Timestamp
  extensions : Extensions
  deriving DecidableEq

/-! ## Forks -/

inductive ForkCommonAncestor where
  | genesis (anchor : GenesisAnchor)
  | event (eventId : EventId)
  deriving DecidableEq

/-- `ForkDescriptor::from_sorted` takes at least two heads. -/
structure ForkDescriptor where
  accountId : AccountId
  commonAncestor : ForkCommonAncestor
  heads : List EventId
  extensions : Extensions
  branched : 2 ≤ heads.length
  deriving DecidableEq

structure ResolveFork where
  fork : ForkDescriptor
  selectedHead : EventId
  revokedControllers : List ControllerId
  revokedDevices : List DeviceId
  extensions : Extensions
  deriving DecidableEq

/-! ## Cryptographic migration, upgrade and retirement -/

structure CryptoSuiteDescriptor where
  suiteCode : Nat
  hashAlgorithmCode : Nat
  signatureAlgorithmCode : Nat
  agreementAlgorithmCode : Nat
  kdfAlgorithmCode : Nat
  aeadAlgorithmCode : Nat
  extensions : Extensions
  deriving DecidableEq

def CryptoSuiteDescriptor.v1 : CryptoSuiteDescriptor where
  suiteCode := 1
  hashAlgorithmCode := 1
  signatureAlgorithmCode := ed25519Code
  agreementAlgorithmCode := 1
  kdfAlgorithmCode := 1
  aeadAlgorithmCode := 1
  extensions := []

structure ControllerKeyBinding where
  controllerId : ControllerId
  oldKeyId : ControllerKeyId
  newSigningKey : AlgorithmPublicKey
  extensions : Extensions
  deriving DecidableEq

/-- The bindings name each controller once, in order, with distinct keys of the new suite. -/
structure CryptoMigrationBody where
  accountId : AccountId
  fromSuiteId : CryptoSuiteId
  toSuite : CryptoSuiteDescriptor
  bindings : List ControllerKeyBinding
  successorAccountId : Option AccountId
  nonce : FixedBytes 32
  extensions : Extensions
  nonempty : bindings ≠ []
  sorted : SortedBy ControllerKeyBinding.controllerId bindings
  distinct : bindings.Pairwise fun left right => left.newSigningKey ≠ right.newSigningKey
  algorithm : ∀ binding ∈ bindings,
    binding.newSigningKey.algorithmCode = toSuite.signatureAlgorithmCode
  deriving DecidableEq

structure ControllerKeyBindingProof where
  migrationId : CryptoMigrationId
  controllerId : ControllerId
  oldKeySignature : AlgorithmSignature
  newKeySignature : AlgorithmSignature
  deriving DecidableEq

structure BeginCryptoMigration where
  migration : CryptoMigrationBody
  proofs : List ControllerKeyBindingProof
  extensions : Extensions
  deriving DecidableEq

structure ActivateCryptoMigration where
  migrationId : CryptoMigrationId
  beginEventId : EventId
  extensions : Extensions
  deriving DecidableEq

inductive RetireCryptoSuiteMode where
  | abortCandidate
  | retirePrevious
  deriving DecidableEq

structure RetireCryptoSuite where
  migrationId : CryptoMigrationId
  mode : RetireCryptoSuiteMode
  phaseEventId : EventId
  successorAccountId : Option AccountId
  extensions : Extensions
  deriving DecidableEq

structure ProtocolUpgrade where
  fromMajor : Nat
  toMajor : Nat
  specificationDigest : Digest
  successorAccountId : Option AccountId
  extensions : Extensions
  deriving DecidableEq

structure RetireAccount where
  successorAccountId : Option AccountId
  reasonCode : Option Nat
  extensions : Extensions
  deriving DecidableEq

/-! ## Operations -/

inductive AccountOperation where
  | authorizeDevice (authorization : DeviceAuthorization)
  | updateDeviceAuthorization (update : DeviceAuthorizationUpdate)
  | updateDeviceMetadata (update : DeviceMetadataUpdate)
  | suspendDevice (suspend : SuspendDevice)
  | reinstateDevice (reinstate : ReinstateDevice)
  | revokeDevice (revoke : RevokeDevice)
  | rotateDeviceKeys (rotation : RotateDeviceKeys)
  | addController (descriptor : ControllerDescriptor)
  | removeController (controllerId : ControllerId)
  | changeControlPolicy (policy : ControlPolicy)
  | changeRecoveryPolicy (policy : RecoveryPolicy)
  | changeProviderPolicy (policy : ProviderPolicy)
  | beginRecovery (begin : BeginRecovery)
  | vetoRecovery (veto : VetoRecovery)
  | cancelRecovery (cancel : CancelRecovery)
  | finalizeRecovery (finalize : FinalizeRecovery)
  | resolveFork (resolution : ResolveFork)
  | beginCryptoMigration (begin : BeginCryptoMigration)
  | activateCryptoMigration (activate : ActivateCryptoMigration)
  | retireCryptoSuite (retire : RetireCryptoSuite)
  | upgradeProtocol (upgrade : ProtocolUpgrade)
  | retireAccount (retire : RetireAccount)
  deriving DecidableEq

def AccountOperation.kind : AccountOperation → OperationKind
  | .authorizeDevice _ => .authorizeDevice
  | .updateDeviceAuthorization _ => .updateDeviceAuthorization
  | .updateDeviceMetadata _ => .updateDeviceMetadata
  | .suspendDevice _ => .suspendDevice
  | .reinstateDevice _ => .reinstateDevice
  | .revokeDevice _ => .revokeDevice
  | .rotateDeviceKeys _ => .rotateDeviceKeys
  | .addController _ => .addController
  | .removeController _ => .removeController
  | .changeControlPolicy _ => .changeControlPolicy
  | .changeRecoveryPolicy _ => .changeRecoveryPolicy
  | .changeProviderPolicy _ => .changeProviderPolicy
  | .beginRecovery _ => .beginRecovery
  | .vetoRecovery _ => .vetoRecovery
  | .cancelRecovery _ => .cancelRecovery
  | .finalizeRecovery _ => .finalizeRecovery
  | .resolveFork _ => .resolveFork
  | .beginCryptoMigration _ => .beginCryptoMigration
  | .activateCryptoMigration _ => .activateCryptoMigration
  | .retireCryptoSuite _ => .retireCryptoSuite
  | .upgradeProtocol _ => .upgradeProtocol
  | .retireAccount _ => .retireAccount

def AccountOperation.isResolveFork : AccountOperation → Bool
  | .resolveFork _ => true
  | _ => false

/-- The epoch rule by operation kind; `none` means that the retirement mode decides. -/
def operationKindAdvancesEpoch : OperationKind → Option Bool
  | .updateDeviceMetadata => some false
  | .beginCryptoMigration => some false
  | .retireCryptoSuite => none
  | _ => some true

def operationChangesEpoch (operation : AccountOperation) : Bool :=
  match operationKindAdvancesEpoch operation.kind with
  | some changesEpoch => changesEpoch
  | none =>
    match operation with
    | .retireCryptoSuite retire => retire.mode = .retirePrevious
    | _ => false

end Krikos.Identity
