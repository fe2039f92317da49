import Krikos.Identity.Guardian

/-!
# Identity.Verifier

Validation of one authorized event against a pre-state: envelope binding, provider freshness and
delay, and the weighted approvals of the controllers.
-/

namespace Krikos.Identity

open Lib

variable (c : Primitives)

/-! ## Controllers and their verification keys -/

structure VerificationKey where
  cryptoSuiteId : CryptoSuiteId
  controllerKeyId : ControllerKeyId
  algorithmCode : Nat
  publicKey : Bytes

def VerificationKey.sortKey (key : VerificationKey) : CryptoSuiteId ×ₗ ControllerKeyId :=
  toLex (key.cryptoSuiteId, key.controllerKeyId)

variable (p : Projection) (controllerId : ControllerId)

def Projection.activeController : Option ProjectedController :=
  lookup ProjectedController.id controllerId p.activeControllers

def Projection.revokedController : Option ProjectedController :=
  lookup ProjectedController.id controllerId p.revokedControllers

def Projection.activeControllerDescriptors : List ControllerDescriptor :=
  p.activeControllers.map ProjectedController.descriptor

def stableVerificationKeys (stable : StableCrypto) (controller : ProjectedController) :
    Except IdentityError (List VerificationKey) :=
  if stable.migratedKeys = [] then
    .ok [{ cryptoSuiteId := c.cryptoSuiteId stable.suite
           controllerKeyId := c.signingKeyId controller.signingKey
           algorithmCode := ed25519Code
           publicKey := controller.signingKey.asBytes.val }]
  else do
    let migrated ← okOr (lookup MigrationKey.controllerId controller.id stable.migratedKeys)
      (.invalidRelationship "migrated controller verification key")
    return [{ cryptoSuiteId := c.cryptoSuiteId stable.suite
              controllerKeyId := c.algorithmKeyId migrated.key
              algorithmCode := migrated.key.algorithmCode
              publicKey := migrated.key.asBytes }]

def CryptoMigrationBody.verificationKey (migration : CryptoMigrationBody)
    (binding : ControllerKeyBinding) : VerificationKey where
  cryptoSuiteId := c.cryptoSuiteId migration.toSuite
  controllerKeyId := c.algorithmKeyId binding.newSigningKey
  algorithmCode := binding.newSigningKey.algorithmCode
  publicKey := binding.newSigningKey.asBytes

def Projection.verificationKeys : Except IdentityError (List VerificationKey) := do
  let controller ← okOr (p.activeController controllerId) .unknownController
  match p.crypto with
  | .stable stable => stableVerificationKeys c stable controller
  | .candidate previous _ _ => stableVerificationKeys c previous controller
  | .dual previous migration _ _ =>
    let keys ← stableVerificationKeys c previous controller
    let binding ← okOr (lookup ControllerKeyBinding.controllerId controllerId migration.bindings)
      (.invalidRelationship "dual migration controller binding")
    return sortByKey VerificationKey.sortKey (keys ++ [migration.verificationKey c binding])

def Projection.requireV1RecoveryCrypto : Except IdentityError Unit :=
  match p.crypto with
  | .stable stable =>
    reject (¬ (stable.suite = .v1 ∧ stable.migratedKeys = []))
      (.unsupportedPolicyFeature "recovery under a migrated cryptographic suite")
  | .candidate _ _ _ =>
    .error (.unsupportedPolicyFeature "recovery under a migrated cryptographic suite")
  | .dual _ _ _ _ =>
    .error (.unsupportedPolicyFeature "recovery under a migrated cryptographic suite")

/-! ## Signatures -/

def verifyAlgorithmSignature (algorithmCode : Nat) (publicKey : Bytes)
    (signature : AlgorithmSignature) (message : Bytes) : Except IdentityError Unit := do
  reject (signature.algorithmCode ≠ algorithmCode) .invalidSignature
  if algorithmCode = 1 then
    reject (c.verifyEd25519 publicKey signature.asBytes message = false) .invalidSignature
  else .error (.unsupportedAlgorithm .signature algorithmCode)

def signatureFor (signatures : List KeyedSignature) (expected : VerificationKey) :
    Option KeyedSignature :=
  signatures.find? fun signature => signature.cryptoSuiteId = expected.cryptoSuiteId ∧
    signature.controllerKeyId = expected.controllerKeyId

def verifyKeys (signatures : List KeyedSignature) (message : Bytes) :
    List VerificationKey → Except IdentityError Unit
  | [] => .ok ()
  | expected :: rest => do
    let keyed ← okOr (signatureFor signatures expected) .invalidSignature
    verifyAlgorithmSignature c expected.algorithmCode expected.publicKey keyed.signature message
    verifyKeys signatures message rest

variable (authority : Projection)

def verifySignatures (controllerId : ControllerId)
    (signatures : List KeyedSignature) (message : Bytes) : Except IdentityError Unit := do
  let keys ← authority.verificationKeys c controllerId
  reject (signatures.length ≠ keys.length) .invalidSignature
  verifyKeys c signatures message keys

def verifyControllerApproval (approval : SignedControllerApproval) : Except IdentityError Unit :=
  verifySignatures c authority approval.body.controllerId approval.signatures
    (c.approvalBytes approval.body)

def approvalController (controllerId : ControllerId) : Except IdentityError ProjectedController :=
  match authority.activeController controllerId with
  | some controller => .ok controller
  | none =>
    match authority.revokedController controllerId with
    | some _ => .error .revokedController
    | none => .error .unknownController

/-- One approval in the loop of a threshold: the signer differs from the previous one, is active,
may approve the operation and is selected. -/
def validateSigner (operation : OperationKind)
    (selector : ControllerSelector) (previous : Option ControllerId) (signer : ControllerId) :
    Except IdentityError ProjectedController := do
  reject (previous = some signer) .duplicateSigner
  let controller ← approvalController authority signer
  reject (¬ (controller.descriptor.scope.allows operation ∧
    selector.matchesController c.controllerId controller.descriptor)) .ineligibleController
  return controller

def approvedWeight (authority : Projection) (operation : OperationKind)
    (selector : ControllerSelector) (resource : String) :
    Option ControllerId → List SignedControllerApproval → Nat → Except IdentityError Nat
  | _, [], total => .ok total
  | previous, approval :: rest, total => do
    let controller ← validateSigner c authority operation selector previous
      approval.body.controllerId
    verifyControllerApproval c authority approval
    let total ← checkedAdd total controller.descriptor.weight resource
    approvedWeight authority operation selector resource (some approval.body.controllerId) rest
      total

variable (event : AuthorizedEvent c) (rule : PolicyRule)

def validateApprovals : Except IdentityError Unit := do
  let total ← approvedWeight c authority event.body.operation.kind rule.eligibleControllers
    "controller authorization weight" none event.approvals.asSlice 0
  reject (total < rule.requiredWeight) .authorizationDenied

/-! ## Provider freshness and delay -/

def configuredProvider (providers : List ProviderDescriptor) (providerId : ProviderId) :
    Option ProviderDescriptor :=
  providers.find? fun provider => c.providerId provider = providerId

def configuredReceipts (accountId : AccountId) (providers : List ProviderDescriptor) :
    List InclusionReceipt → Except IdentityError (List InclusionReceipt)
  | [] => .ok []
  | receipt :: rest => do
    reject (receipt.entry.accountId ≠ accountId) .accountMismatch
    match configuredProvider c providers receipt.providerId with
    | none => configuredReceipts accountId providers rest
    | some provider =>
      c.verifyReceipt receipt provider
      let receipts ← configuredReceipts accountId providers rest
      return receipt :: receipts

/-- The receipts of configured providers that are recent enough, and whether one was not. -/
def freshReceipts (accountId : AccountId) (providers : List ProviderDescriptor)
    (maximumAge : DurationMillis) :
    List InclusionReceipt → Except IdentityError (List InclusionReceipt × Bool)
  | [] => .ok ([], false)
  | receipt :: rest => do
    reject (receipt.entry.accountId ≠ accountId) .accountMismatch
    match configuredProvider c providers receipt.providerId with
    | none => freshReceipts accountId providers maximumAge rest
    | some provider =>
      c.verifyReceipt receipt provider
      reject (receipt.signedHead.body.observedAt < receipt.entry.observedAt)
        (.invalidRelationship "provider head observation time")
      let age := receipt.signedHead.body.observedAt - receipt.entry.observedAt
      let (receipts, stale) ← freshReceipts accountId providers maximumAge rest
      if age > maximumAge then return (receipts, true)
      else return (receipt :: receipts, stale)

/-- The time by which a quorum had observed; the callers have checked that there are enough. -/
def quorumTime (times : List Timestamp) (required : Nat) : Timestamp :=
  (times.insertionSort (· ≤ ·)).getD (required - 1) 0

def headTimes (receipts : List InclusionReceipt) : List Timestamp :=
  receipts.map fun receipt => receipt.signedHead.body.observedAt

def entryTimes (receipts : List InclusionReceipt) : List Timestamp :=
  receipts.map fun receipt => receipt.entry.observedAt

def ProviderPolicy.replicatedPolicy (policy : ProviderPolicy) :
    Except IdentityError ReplicatedProviderPolicy :=
  match policy.mode with
  | .localOnly => .error .freshnessUnavailable
  | .replicated policy => .ok policy

def intentWeight (authority : Projection) (operation : OperationKind)
    (selector : ControllerSelector) :
    Option ControllerId → List SignedEventIntentApproval → Nat → Except IdentityError Nat
  | _, [], total => .ok total
  | previous, approval :: rest, total => do
    let controller ← validateSigner c authority operation selector previous
      approval.body.controllerId
    verifySignatures c authority approval.body.controllerId approval.signatures
      (c.intentBytes approval.body)
    let total ← checkedAdd total controller.descriptor.weight "event intent authorization weight"
    intentWeight authority operation selector (some approval.body.controllerId) rest total

def validateIntentThreshold (body : EventBody) (approvals : EventIntentApprovals)
    (selector : ControllerSelector) (requiredWeight : Nat) : Except IdentityError Unit := do
  let total ← intentWeight c authority body.operation.kind selector none approvals.asSlice 0
  reject (total < requiredWeight) .authorizationDenied

/-- Who has to approve the intent: a selector with its weight, or nobody for guardian recovery. -/
def intentAuthority (body : EventBody) (delay : DelayEvidence)
    (rule : PolicyRule) : Except IdentityError (Option (ControllerSelector × Nat)) :=
  match body.operation with
  | .beginRecovery _ | .cancelRecovery _ =>
    match authority.recoveryPolicy.authority with
    | .controllerThreshold threshold => do
      reject delay.isGuardianRecovery
        (.invalidRelationship "guardian delay evidence under controller recovery policy")
      return some (threshold.selector, threshold.requiredWeight)
    | .guardianThreshold _ => do
      reject (delay.isGuardianRecovery = false)
        (.invalidRelationship "guardian recovery delay evidence shape")
      return none
  | _ => do
    reject delay.isGuardianRecovery
      (.invalidRelationship "guardian delay evidence for ordinary operation")
    return some (rule.eligibleControllers, rule.requiredWeight)

def validateIntentApprovals : Except IdentityError Unit := do
  let proposalId := c.proposalId event.body
  let delay := event.admissionEvidence.delay
  let receipts ← okOr delay.providerReceipts .freshnessUnavailable
  reject (receipts.asSlice.any fun receipt => receipt.entry.subject ≠ .eventIntent proposalId)
    (.invalidRelationship "delayed intent receipt subject")
  match ← intentAuthority authority event.body delay rule with
  | none => return ()
  | some (selector, requiredWeight) =>
    let approvals ← okOr delay.intentApprovals .freshnessUnavailable
    reject (approvals.proposalId ≠ proposalId) (.invalidRelationship "delayed intent proposal")
    validateIntentThreshold c authority event.body approvals selector requiredWeight

/-- The delay receipts of configured providers: their quorum observed the proposal at the time
that the evidence claims. -/
def observedDelay (ruleProviderQuorum : Nat) (resource : String) :
    Except IdentityError (Timestamp × Nat × List InclusionReceipt) := do
  let delay := event.admissionEvidence.delay
  let delayAnchor ← okOr delay.observedAt .freshnessUnavailable
  reject (delay.providerPolicyId ≠ some authority.providerPolicyId) .policyVersionMismatch
  let policy ← authority.providerPolicy.replicatedPolicy
  let declaredQuorum ← okOr delay.requiredQuorum .freshnessUnavailable
  let minimumRequired := max policy.sufficientThreshold ruleProviderQuorum
  reject (declaredQuorum < minimumRequired) .freshnessUnavailable
  let required := max minimumRequired declaredQuorum
  let receipts ← okOr delay.providerReceipts .freshnessUnavailable
  let configured ← configuredReceipts c authority.accountId policy.providers receipts.asSlice
  reject (configured.length < required) .freshnessUnavailable
  reject (quorumTime (entryTimes configured) required ≠ delayAnchor)
    (.invalidRelationship resource)
  validateIntentApprovals c authority event rule
  return (delayAnchor, required, configured)

/-- Begin starts the recovery delay at this observation; a guardian cancel only takes the time of
its authority from it. -/
def validateRecoveryIntentObservation (ruleProviderQuorum : Nat)
    (providerAuthorityTime : Option Timestamp) : Except IdentityError (Option Timestamp) := do
  let (_, required, configured) ← observedDelay c authority event rule ruleProviderQuorum
    "configured-provider recovery intent observation anchor"
  let startAuthorityTime := quorumTime (headTimes configured) required
  match providerAuthorityTime with
  | none => return some startAuthorityTime
  | some freshnessTime => return some (max freshnessTime startAuthorityTime)

/-- The freshness part of a rule: receipts that count, the quorum, and the authority time. -/
def validateRuleFreshness : Except IdentityError (List InclusionReceipt × Nat × Option Timestamp) :=
  let evidence := event.admissionEvidence
  match rule.freshness with
  | .latestKnown => .ok ([], 0, none)
  | .providerQuorum requirement => do
    let receipts ← okOr evidence.freshness.providerReceipts .freshnessUnavailable
    reject (evidence.freshness.providerPolicyId ≠ some authority.providerPolicyId)
      .policyVersionMismatch
    let policy ← authority.providerPolicy.replicatedPolicy
    let required := max requirement.required policy.sufficientThreshold
    let maximumAge := min requirement.maximumAge policy.maximumEvidenceAge
    let (valid, stale) ← freshReceipts c authority.accountId policy.providers maximumAge
      receipts.asSlice
    reject (valid.length < required) (if stale then .staleEvidence else .freshnessUnavailable)
    return (valid, requirement.required, some (quorumTime (headTimes valid) required))

def requiresRecoveryObservation (operation : AccountOperation) : Bool :=
  match operation with
  | .beginRecovery _ => true
  | .cancelRecovery _ =>
    match authority.recoveryPolicy.authority with
    | .guardianThreshold _ => true
    | .controllerThreshold _ => false
  | _ => false

def validateFreshness : Except IdentityError (Option Timestamp) := do
  let (validCompletion, ruleProviderQuorum, providerAuthorityTime) ←
    validateRuleFreshness c authority event rule
  if requiresRecoveryObservation authority event.body.operation then
    validateRecoveryIntentObservation c authority event rule ruleProviderQuorum
      providerAuthorityTime
  else
    match rule.delay with
    | none =>
      reject event.admissionEvidence.delay.observedAt.isSome
        (.invalidRelationship "unexpected policy delay evidence")
      return providerAuthorityTime
    | some delay =>
      let (delayAnchor, required, configured) ← observedDelay c authority event rule
        ruleProviderQuorum "configured-provider delay observation anchor"
      let deadline ← Timestamp.checkedAdd delayAnchor delay
      let completion := match rule.freshness with
        | .latestKnown => configured
        | .providerQuorum _ => validCompletion
      let elapsed := (headTimes completion).filter fun observedAt => observedAt ≥ deadline
      reject (elapsed.length < required) .delayNotElapsed
      return some (quorumTime elapsed required)

/-! ## Recovery authority -/

/-- The loop of `validate_recovery_authority`, which counts a signer before it verifies it. -/
def recoveryWeight (authority : Projection) (operation : OperationKind)
    (selector : ControllerSelector) :
    Option ControllerId → List SignedControllerApproval → Nat → Except IdentityError Nat
  | _, [], total => .ok total
  | previous, approval :: rest, total => do
    let controller ← validateSigner c authority operation selector previous
      approval.body.controllerId
    let total ← checkedAdd total controller.descriptor.weight "controller recovery weight"
    verifyControllerApproval c authority approval
    recoveryWeight authority operation selector (some approval.body.controllerId) rest total

def validateRecoveryAuthority (evidence : RecoveryThresholdEvidence) (recoveryId : RecoveryId)
    (expectedDecision : GuardianApprovalDecision) (operation : OperationKind)
    (providerAuthorityTime : Option Timestamp) : Except IdentityError Unit := do
  reject (evidence.recoveryPolicyId ≠ authority.recoveryPolicyId ∨
    evidence.recoveryPolicyVersion ≠ authority.recoveryPolicy.policyVersion)
    .policyVersionMismatch
  match authority.recoveryPolicy.authority with
  | .controllerThreshold threshold =>
    reject evidence.asGuardianApprovals.isSome
      (.invalidRelationship "guardian evidence for controller recovery authority")
    let total ← recoveryWeight c authority operation threshold.selector none
      event.approvals.asSlice 0
    reject (total < threshold.requiredWeight) .authorizationDenied
  | .guardianThreshold _ =>
    reject (event.approvals.asSlice ≠ [])
      (.invalidRelationship "guardian recovery controller approvals")
    let approvals ← okOr evidence.asGuardianApprovals .authorizationDenied
    let authorityTime ← okOr providerAuthorityTime .freshnessUnavailable
    reject (authorityTime = 0) (.zeroValue "guardian authority time")
    let _verified ← verifyGuardianAuthority c authority.recoveryPolicy approvals
      { protectedAccountId := authority.accountId
        recoveryId := recoveryId
        recoveryPolicyId := authority.recoveryPolicyId
        recoveryPolicyVersion := authority.recoveryPolicy.policyVersion
        accountEpoch := authority.epoch
        decision := expectedDecision
        authorityTime := authorityTime }

/-! ## Events -/

def validateBodyPredecessors (lineage : Projection) (body : EventBody) :
    Except IdentityError Unit :=
  if lineage.sequence = 0 then
    reject (body.predecessors.genesisAnchor ≠ some lineage.genesisAnchor) .invalidPredecessor
  else reject (body.predecessors.eventHeads ≠ some lineage.heads) .invalidPredecessor

/-- `authority.require_v1_recovery_crypto()` for the operations that need it. -/
def validateRecoveryCrypto (operation : AccountOperation) : Except IdentityError Unit :=
  match operation with
  | .beginRecovery _ | .finalizeRecovery _ => authority.requireV1RecoveryCrypto
  | _ => .ok ()

def validateAuthority (providerAuthorityTime : Option Timestamp) : Except IdentityError Unit :=
  match event.body.operation with
  | .beginRecovery begin =>
    validateRecoveryAuthority c authority event begin.thresholdEvidence begin.recoveryId .begin
      .beginRecovery providerAuthorityTime
  | .cancelRecovery cancel =>
    validateRecoveryAuthority c authority event cancel.thresholdEvidence
      cancel.expectedPendingRecovery .cancel .cancelRecovery providerAuthorityTime
  | .finalizeRecovery _ =>
    reject (event.approvals.asSlice ≠ [])
      (.invalidRelationship "finalize recovery controller approvals")
  | _ => validateApprovals c authority event rule

/-- Envelope binding and weighted authorization against an immutable pre-state; the result is the
time of the provider authority, if the rule asks for one. -/
def validateEvent (lineage authority : Projection) (event : AuthorizedEvent c)
    (expectedEpoch : Epoch) : Except IdentityError (Option Timestamp) := do
  let body := event.body
  reject (body.accountId ≠ lineage.accountId) .accountMismatch
  let next ← Sequence.checkedNext lineage.sequence
  reject (body.sequence ≠ next) .invalidSequence
  validateBodyPredecessors lineage body
  reject (body.resultingEpoch ≠ expectedEpoch) .invalidEpoch
  reject (event.admissionEvidence.proposalId ≠ c.proposalId body)
    (.invalidRelationship "projected event admission subject")
  reject (event.admissionEvidence.providerPolicyId ≠ authority.providerPolicyId)
    .policyVersionMismatch
  let rule ← okOr (authority.controlPolicy.ruleFor body.operation.kind) .authorizationDenied
  validateRecoveryCrypto authority body.operation
  let providerAuthorityTime ← validateFreshness c authority event rule
  validateAuthority c authority event rule providerAuthorityTime
  return providerAuthorityTime

end Krikos.Identity
