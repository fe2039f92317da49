import Krikos.Identity.Verifier

/-!
# Identity.Project

What each account operation does to the projection. The functions take the projection that the
event was validated against and return the projected one or the error of the source.
-/

namespace Krikos.Identity

open Lib

variable (c : Primitives)

/-! ## Key material -/

def DeviceDescriptor.keys (descriptor : DeviceDescriptor) : List Bytes :=
  [descriptor.applicationSigningKey.asBytes.val, descriptor.agreementKey.asBytes.val,
    descriptor.endpointKey.asSigningKey.asBytes.val]

def deviceDescriptorsReuseKey (left right : DeviceDescriptor) : Bool :=
  left.keys.any fun leftKey => right.keys.any fun rightKey => leftKey = rightKey

def deviceDescriptorReusesControllerKey (descriptor : DeviceDescriptor)
    (controllerKey : SigningPublicKey) : Bool :=
  descriptor.applicationSigningKey = controllerKey ||
    descriptor.agreementKey.asBytes = controllerKey.asBytes ||
    descriptor.endpointKey.asSigningKey = controllerKey

def StableCrypto.reuses (stable : StableCrypto) (candidate : Bytes) : Bool :=
  (stable.migratedKeys.any fun retained => retained.key.asBytes = candidate) ||
    stable.keyTombstones.any fun retired => retired.asBytes = candidate

def CryptoMigrationBody.reuses (migration : CryptoMigrationBody) (candidate : Bytes) : Bool :=
  migration.bindings.any fun binding => binding.newSigningKey.asBytes = candidate

variable (p : Projection)

def Projection.cryptoRetainsKeyMaterial (candidate : Bytes) : Bool :=
  match p.crypto with
  | .stable stable => stable.reuses candidate
  | .candidate previous migration _ => previous.reuses candidate || migration.reuses candidate
  | .dual previous migration _ _ => previous.reuses candidate || migration.reuses candidate

def Projection.controllers : List ProjectedController :=
  p.activeControllers ++ p.revokedControllers

/-- `AlgorithmPublicKey::new` on the bytes of a signing key, which are valid key bytes. -/
def SigningPublicKey.toAlgorithmKey (key : SigningPublicKey) (algorithmCode : Nat) :
    AlgorithmPublicKey :=
  ⟨algorithmCode, key.asBytes.val⟩

def stableSuiteKeys (stable : StableCrypto) (controllers : List ProjectedController) :
    List AlgorithmPublicKey :=
  if stable.migratedKeys ≠ [] then stable.migratedKeys.map MigrationKey.key
  else controllers.map fun controller =>
    controller.signingKey.toAlgorithmKey stable.suite.signatureAlgorithmCode

def migrationKeyReusesRetainedMaterial (candidate : AlgorithmPublicKey) (stable : StableCrypto)
    (controllers : List ProjectedController) (devices : List ProjectedDevice) : Bool :=
  stable.reuses candidate.asBytes ||
    (controllers.any fun controller => controller.signingKey.asBytes.val = candidate.asBytes) ||
    devices.any fun device => device.descriptor.keys.any fun key => key = candidate.asBytes

/-! ## Devices -/

/-- `device_mut` and the change that follows it. -/
def Projection.modifyDevice (deviceId : DeviceId)
    (change : ProjectedDevice → Except IdentityError ProjectedDevice) :
    Except IdentityError Projection :=
  match search ProjectedDevice.id deviceId p.devices with
  | .error _ => .error .deviceNotAuthorized
  | .ok index =>
    match p.devices[index]? with
    | none => .error .deviceNotAuthorized
    | some device => do
      let device ← change device
      return { p with devices := p.devices.set index device }

def Projection.validateNewDeviceDescriptor (descriptor : DeviceDescriptor) :
    Except IdentityError Unit := do
  reject (p.devices.any fun device => deviceDescriptorsReuseKey device.descriptor descriptor)
    (.invalidRelationship "retained device public-key reuse")
  reject (p.controllers.any fun controller =>
      deviceDescriptorReusesControllerKey descriptor controller.signingKey)
    (.invalidRelationship "controller/device public-key role separation")
  reject (descriptor.keys.any fun key => p.cryptoRetainsKeyMaterial key)
    (.invalidRelationship "device/cryptographic key tombstone separation")

def DeviceAuthorization.project (authorization : DeviceAuthorization) : ProjectedDevice where
  id := authorization.deviceId
  descriptor := authorization.descriptor
  deviceClass := authorization.deviceClass
  metadataCommitment := authorization.metadataCommitment
  capabilities := authorization.capabilities
  authorizationEpoch := authorization.authorizationEpoch
  lifecycle := .active

def Projection.authorizeDevice (authorization : DeviceAuthorization)
    (resultingEpoch : Epoch) : Except IdentityError Projection := do
  reject (authorization.authorizationEpoch ≠ resultingEpoch) .invalidEpoch
  match search ProjectedDevice.id authorization.deviceId p.devices with
  | .ok index =>
    reject (p.devices[index]?.map ProjectedDevice.lifecycle = some .revoked) .deviceRevoked
    .error (.invalidRelationship "duplicate active device authorization")
  | .error index =>
    p.validateNewDeviceDescriptor authorization.descriptor
    reject (p.devices.length ≥ MAX_DEVICES)
      (.limitExceeded "projected devices" (p.devices.length + 1) MAX_DEVICES)
    return { p with devices := p.devices.insertIdx index authorization.project }

def Projection.updateDeviceAuthorization (update : DeviceAuthorizationUpdate)
    (resultingEpoch : Epoch) : Except IdentityError Projection := do
  reject (update.authorizationEpoch ≠ resultingEpoch) .invalidEpoch
  p.modifyDevice update.deviceId fun device => do
    reject (device.lifecycle = .revoked) .deviceRevoked
    return { device with
      deviceClass := update.deviceClass
      capabilities := update.capabilities
      authorizationEpoch := update.authorizationEpoch }

variable (device : ProjectedDevice)

def ProjectedDevice.suspend : Except IdentityError ProjectedDevice :=
  match device.lifecycle with
  | .active => .ok { device with lifecycle := .suspended }
  | .suspended => .error .deviceSuspended
  | .revoked => .error .deviceRevoked

def ProjectedDevice.reinstate : Except IdentityError ProjectedDevice :=
  match device.lifecycle with
  | .suspended => .ok { device with lifecycle := .active }
  | .active => .error (.invalidRelationship "reinstate active device")
  | .revoked => .error .deviceRevoked

def ProjectedDevice.revoke : Except IdentityError ProjectedDevice := do
  reject (device.lifecycle = .revoked) .deviceRevoked
  return { device with lifecycle := .revoked }

def Projection.rotateDeviceKeys (rotation : RotateDeviceKeys)
    (resultingEpoch : Epoch) : Except IdentityError Projection := do
  let p ← p.modifyDevice rotation.oldDeviceId ProjectedDevice.revoke
  p.authorizeDevice rotation.newAuthorization resultingEpoch

/-! ## Controllers and policies -/

def Projection.enrollmentKey (descriptor : ControllerDescriptor) :
    Except IdentityError (Option AlgorithmPublicKey) :=
  match p.crypto with
  | .stable stable =>
    if stable.suite ≠ .v1 ∨ stable.migratedKeys ≠ [] then do
      let algorithmCode := stable.suite.signatureAlgorithmCode
      reject (algorithmCode ≠ ed25519Code) (.unsupportedPolicyFeature
        "post-migration controller enrollment for non-Ed25519 suites")
      let key := descriptor.signingKey.toAlgorithmKey algorithmCode
      reject (stable.migratedKeys.any fun retained => retained.key = key) .duplicateSigningKey
      return some key
    else .ok none
  | .candidate _ _ _ => .error
    (.invalidRelationship "controller enrollment cryptographic migration phase")
  | .dual _ _ _ _ => .error
    (.invalidRelationship "controller enrollment cryptographic migration phase")

def CryptoProjection.enroll (crypto : CryptoProjection) (controllerId : ControllerId)
    (migratedKey : Option AlgorithmPublicKey) : Except IdentityError CryptoProjection :=
  match migratedKey with
  | none => .ok crypto
  | some key =>
    match crypto with
    | .stable current => do
      let migratedKeys ← insertNew MigrationKey.controllerId .storageCorruption
        ⟨controllerId, key⟩ current.migratedKeys
      return .stable { current with migratedKeys := migratedKeys }
    | .candidate _ _ _ => .error .storageCorruption
    | .dual _ _ _ _ => .error .storageCorruption

namespace Projection

def addController (descriptor : ControllerDescriptor) :
    Except IdentityError Projection := do
  let controllerId := c.controllerId descriptor
  reject (p.cryptoRetainsKeyMaterial descriptor.signingKey.asBytes.val) .duplicateSigningKey
  let migratedKey ← p.enrollmentKey descriptor
  reject (p.revokedController controllerId).isSome .revokedController
  reject (p.activeController controllerId).isSome
    (.invalidRelationship "duplicate active controller")
  reject (p.controllers.any fun controller => controller.signingKey = descriptor.signingKey)
    .duplicateSigningKey
  reject (p.devices.any fun device =>
      deviceDescriptorReusesControllerKey device.descriptor descriptor.signingKey)
    (.invalidRelationship "controller/device public-key role separation")
  let retained ← checkedAdd p.activeControllers.length p.revokedControllers.length
    "projected controller count"
  let retainedCount ← checkedAdd retained 1 "projected controller count"
  reject (retainedCount > MAX_CONTROLLERS)
    (.limitExceeded "projected controllers" retainedCount MAX_CONTROLLERS)
  let activeControllers ← insertNew ProjectedController.id .storageCorruption
    ⟨controllerId, descriptor⟩ p.activeControllers
  let crypto ← p.crypto.enroll controllerId migratedKey
  return { p with activeControllers := activeControllers, crypto := crypto }

def validatePolicies : Except IdentityError Unit := do
  p.controlPolicy.validateSatisfiable c.controllerId p.activeControllerDescriptors
  p.recoveryPolicy.validateControllerAuthority c.controllerId p.activeControllerDescriptors

/-- A controller that moves from the active to the revoked ones. The source checks the policies
between the removal and the insertion. -/
def removeController (controllerId : ControllerId) :
    Except IdentityError Projection := do
  reject (p.revokedController controllerId).isSome .revokedController
  let (removed, remaining) ←
    okOr (takeOut ProjectedController.id controllerId p.activeControllers) .unknownController
  let p := { p with activeControllers := remaining }
  reject (p.activeControllers = []) .unsatisfiableThreshold
  p.validatePolicies c
  let revoked ← insertNew ProjectedController.id .storageCorruption removed p.revokedControllers
  return { p with revokedControllers := revoked }

def revokeControllerForResolution (controllerId : ControllerId) :
    Except IdentityError Projection :=
  if (p.revokedController controllerId).isSome then .ok p
  else do
    let (removed, remaining) ←
      okOr (takeOut ProjectedController.id controllerId p.activeControllers) .unknownController
    let revoked ← insertNew ProjectedController.id .storageCorruption removed p.revokedControllers
    return { p with activeControllers := remaining, revokedControllers := revoked }

def changeControlPolicy (policy : ControlPolicy) : Except IdentityError Projection := do
  policy.validateSatisfiable c.controllerId p.activeControllerDescriptors
  return { p with controlPolicyId := c.controlPolicyId policy, controlPolicy := policy }

def changeRecoveryPolicy (policy : RecoveryPolicy) :
    Except IdentityError Projection := do
  let next ← checkedNext p.recoveryPolicy.policyVersion "recovery policy version"
  reject (policy.policyVersion ≠ next) .policyVersionMismatch
  policy.validateControllerAuthority c.controllerId p.activeControllerDescriptors
  return { p with recoveryPolicyId := c.recoveryPolicyId policy, recoveryPolicy := policy }

def changeProviderPolicy (policy : ProviderPolicy) :
    Except IdentityError Projection := do
  let next ← checkedNext p.providerPolicy.policyVersion "provider policy version"
  reject (policy.policyVersion ≠ next) .policyVersionMismatch
  return { p with providerPolicyId := c.providerPolicyId policy, providerPolicy := policy }

end Projection

/-! ## Recovery -/

def PendingRecoveryObservation.fromAdmission (evidence : AdmissionEvidence)
    (recoveryPolicy : RecoveryPolicy) : Except IdentityError PendingRecoveryObservation := do
  let delay := evidence.delay
  let providerPolicyId ← okOr delay.providerPolicyId .freshnessUnavailable
  let requiredQuorum ← okOr delay.requiredQuorum .freshnessUnavailable
  let observedAt ← okOr delay.observedAt .freshnessUnavailable
  let receipts ← okOr delay.providerReceipts .freshnessUnavailable
  let delayDeadline ← Timestamp.checkedAdd observedAt recoveryPolicy.delay
  let lifetimeDeadline ← Timestamp.checkedAdd observedAt recoveryPolicy.lifetime
  return {
    admissionEvidenceId := c.admissionEvidenceId evidence
    providerPolicyId := providerPolicyId
    requiredQuorum := requiredQuorum
    observedAt := observedAt
    delayDeadline := delayDeadline
    lifetimeDeadline := lifetimeDeadline
    receipts := receipts }

def receiptEntriesMatch (begin completion : ProviderReceipts) : Bool :=
  begin.asSlice.length = completion.asSlice.length &&
    (begin.asSlice.zip completion.asSlice).all fun (begin, completion) =>
      begin.providerId = completion.providerId && begin.entry = completion.entry &&
        begin.leafIndex = completion.leafIndex

def PendingRecoveryObservation.matchesCompletionAnchor (observation : PendingRecoveryObservation)
    (anchor : RecoveryDelayAnchor) : Bool :=
  observation.providerPolicyId = anchor.providerPolicyId &&
    observation.requiredQuorum = anchor.requiredQuorum &&
    observation.observedAt = anchor.observedAt &&
    receiptEntriesMatch observation.receipts anchor.receipts

def Projection.beginRecovery (begin : BeginRecovery) (admissionEvidence : AdmissionEvidence)
    (eventId : EventId) (beginProposalId : ProposalId) : Except IdentityError Projection := do
  p.requireV1RecoveryCrypto
  reject (p.pendingRecovery.isSome ∨ begin.requiresVacantRecoverySlot = false) .recoveryPending
  let plan := begin.proposal.plan
  let currentHead ← okOr p.heads.head? .invalidPredecessor
  reject (plan.accountId ≠ p.accountId) .accountMismatch
  reject (plan.priorEventHead ≠ currentHead) .invalidPredecessor
  reject (plan.recoveryPolicyId ≠ p.recoveryPolicyId ∨
    plan.recoveryPolicyVersion ≠ p.recoveryPolicy.policyVersion ∨
    begin.thresholdEvidence.recoveryPolicyId ≠ p.recoveryPolicyId ∨
    begin.thresholdEvidence.recoveryPolicyVersion ≠ p.recoveryPolicy.policyVersion)
    .policyVersionMismatch
  let observation ← PendingRecoveryObservation.fromAdmission c admissionEvidence p.recoveryPolicy
  return { p with
    pendingRecovery := some
      { recoveryId := begin.recoveryId
        proposal := begin.proposal
        preRecoveryControlPolicyId := p.controlPolicyId
        beginEventId := eventId
        beginProposalId := beginProposalId
        beginObservation := observation }
    lifecycle := .recoveryPending }

def Projection.vetoRecovery (veto : VetoRecovery) : Except IdentityError Projection := do
  let pending ← okOr p.pendingRecovery (.invalidRelationship "veto without pending recovery")
  reject (veto.expectedPendingRecovery ≠ pending.recoveryId)
    (.invalidRelationship "veto pending recovery compare-and-set")
  reject (veto.preRecoveryControlPolicyId ≠ pending.preRecoveryControlPolicyId)
    .policyVersionMismatch
  return { p with pendingRecovery := none, lifecycle := .active }

def Projection.cancelRecovery (cancel : CancelRecovery) : Except IdentityError Projection := do
  let pending ← okOr p.pendingRecovery (.invalidRelationship "cancel without pending recovery")
  reject (cancel.expectedPendingRecovery ≠ pending.recoveryId)
    (.invalidRelationship "cancel pending recovery compare-and-set")
  reject (cancel.thresholdEvidence.recoveryPolicyId ≠ p.recoveryPolicyId ∨
    cancel.thresholdEvidence.recoveryPolicyVersion ≠ p.recoveryPolicy.policyVersion)
    .policyVersionMismatch
  return { p with pendingRecovery := none, lifecycle := .active }

/-- The receipts of a delay anchor that count: for the begun proposal, of configured providers. -/
def completionReceipts (accountId : AccountId) (beginProposalId : ProposalId)
    (providers : List ProviderDescriptor) :
    List InclusionReceipt → Except IdentityError (List InclusionReceipt)
  | [] => .ok []
  | receipt :: rest => do
    reject (receipt.entry.accountId ≠ accountId) .accountMismatch
    reject (receipt.entry.subject ≠ .eventIntent beginProposalId)
      (.invalidRelationship "recovery delay receipt subject")
    match configuredProvider c providers receipt.providerId with
    | none => completionReceipts accountId beginProposalId providers rest
    | some provider =>
      c.verifyReceipt receipt provider
      let receipts ← completionReceipts accountId beginProposalId providers rest
      return receipt :: receipts

/-- The provider observations by which the delay of a pending recovery has passed; the result is
the time of their quorum. -/
def Projection.validateDelayAnchor (pending : PendingRecovery)
    (anchor : RecoveryDelayAnchor) : Except IdentityError Timestamp := do
  reject (anchor.accountId ≠ p.accountId ∨ anchor.recoveryId ≠ pending.recoveryId)
    .accountMismatch
  reject (anchor.beginProposalId ≠ pending.beginProposalId)
    (.invalidRelationship "recovery begin proposal delay anchor")
  reject (pending.beginObservation.providerPolicyId ≠ p.providerPolicyId) .storageCorruption
  reject (anchor.providerPolicyId ≠ p.providerPolicyId) .policyVersionMismatch
  let policy ← p.providerPolicy.replicatedPolicy
  let finalizeRule ← okOr (p.controlPolicy.ruleFor .finalizeRecovery) .authorizationDenied
  let freshnessQuorum := match finalizeRule.freshness with
    | .latestKnown => 0
    | .providerQuorum requirement => requirement.required
  let minimumRequired := max policy.sufficientThreshold freshnessQuorum
  reject (anchor.requiredQuorum < minimumRequired) .freshnessUnavailable
  reject (pending.beginObservation.matchesCompletionAnchor anchor = false)
    (.invalidRelationship "recovery begin observation binding")
  let required := anchor.requiredQuorum
  let configured ← completionReceipts c p.accountId pending.beginProposalId policy.providers
    anchor.receipts.asSlice
  reject (configured.length < required) .freshnessUnavailable
  reject (quorumTime (entryTimes configured) required ≠ anchor.observedAt)
    (.invalidRelationship "configured-provider recovery delay observation anchor")
  let elapsed := (headTimes configured).filter fun observedAt =>
    observedAt ≥ pending.beginObservation.delayDeadline
  reject (elapsed.length < required) .delayNotElapsed
  return quorumTime elapsed required

/-- One replacement controller of a plan against the retained controllers and devices. -/
def Projection.validateReplacement (p : Projection) :
    List ControllerDescriptor → Except IdentityError Unit
  | [] => .ok ()
  | descriptor :: rest => do
    let identifier := c.controllerId descriptor
    reject (p.revokedController identifier).isSome .revokedController
    reject (p.activeControllers.any fun controller =>
      controller.id ≠ identifier && controller.signingKey = descriptor.signingKey)
      .duplicateSigningKey
    reject (p.revokedControllers.any fun controller =>
      controller.signingKey = descriptor.signingKey) .duplicateSigningKey
    reject (p.devices.any fun device =>
      deviceDescriptorReusesControllerKey device.descriptor descriptor.signingKey)
      (.invalidRelationship "controller/device public-key role separation")
    p.validateReplacement rest

def insertRevoked (revoked : List ProjectedController) :
    List ProjectedController → Except IdentityError (List ProjectedController)
  | [] => .ok revoked
  | controller :: rest => do
    let revoked ← insertNew ProjectedController.id .storageCorruption controller revoked
    insertRevoked revoked rest

def Projection.validateRetainedDevices (p : Projection) : List DeviceId → Except IdentityError Unit
  | [] => .ok ()
  | retained :: rest => do
    let device ← okOr (lookup ProjectedDevice.id retained p.devices) .deviceNotAuthorized
    reject (device.lifecycle = .revoked) .deviceRevoked
    p.validateRetainedDevices rest

/-- A device that a recovery plan does not retain is revoked. -/
def ProjectedDevice.retainOnly (retained : List DeviceId) (device : ProjectedDevice) :
    ProjectedDevice :=
  if device.lifecycle ≠ .revoked ∧ (lookup (fun deviceId => deviceId) device.id retained).isNone then
    { device with lifecycle := .revoked }
  else device

def Projection.replacedBy (plan : RecoveryAuthorityPlan) (revoked : List ProjectedController) :
    Projection :=
  { p with
    activeControllers := plan.replacementControllers.map fun descriptor =>
      ⟨c.controllerId descriptor, descriptor⟩
    revokedControllers := revoked
    devices := p.devices.map (ProjectedDevice.retainOnly plan.retainedDevices)
    controlPolicy := plan.replacementControlPolicy
    controlPolicyId := c.controlPolicyId plan.replacementControlPolicy
    recoveryPolicy := plan.replacementRecoveryPolicy
    recoveryPolicyId := c.recoveryPolicyId plan.replacementRecoveryPolicy }

def Projection.installRecoveryPlan (plan : RecoveryAuthorityPlan) :
    Except IdentityError Projection := do
  p.validateReplacement c plan.replacementControllers
  let replacementIds := plan.replacementControllers.map c.controllerId
  let removed := p.activeControllers.filter fun controller =>
    (lookup id controller.id replacementIds).isNone
  let revoked ← insertRevoked p.revokedControllers removed
  let retainedCount ← checkedAdd plan.replacementControllers.length revoked.length
    "recovery controller tombstones"
  reject (retainedCount > MAX_CONTROLLERS)
    (.limitExceeded "recovery controller tombstones" retainedCount MAX_CONTROLLERS)
  p.validateRetainedDevices plan.retainedDevices
  return p.replacedBy c plan revoked

variable (lineageEvidence : EventId → Option AdmissionEvidenceId)

/-- The later one of the time of the event's own evidence, if any, and of the delay anchor. -/
def recoveryAuthorityTime (outer : Option Timestamp) (nested : Timestamp) : Timestamp :=
  match outer with
  | none => nested
  | some outer => max outer nested

/-- `lineageEvidence` is the admission evidence that the lineage retains for an event. -/
def Projection.finalizeRecovery (finalize : FinalizeRecovery)
    (providerAuthorityTime : Option Timestamp) : Except IdentityError Projection := do
  p.requireV1RecoveryCrypto
  let pending ← okOr p.pendingRecovery (.invalidRelationship "finalize without pending recovery")
  reject ((lineageEvidence pending.beginEventId).any fun evidenceId =>
    evidenceId ≠ pending.beginObservation.admissionEvidenceId) .storageCorruption
  reject (finalize.expectedPendingRecovery ≠ pending.recoveryId)
    (.invalidRelationship "finalize pending recovery compare-and-set")
  let nestedAuthorityTime ← p.validateDelayAnchor c pending finalize.delayAnchor
  let authorityTime := recoveryAuthorityTime providerAuthorityTime nestedAuthorityTime
  let plan := pending.proposal.plan
  reject (authorityTime > pending.beginObservation.lifetimeDeadline ∨
    authorityTime > plan.expiresAt) .staleEvidence
  let p ← p.installRecoveryPlan c plan
  return { p with pendingRecovery := none, lifecycle := .active }

/-! ## Cryptographic migration -/

/-- The proofs that the holders of the old and new keys agree to the migration. -/
def Projection.validateBindings (p : Projection) (previous : StableCrypto)
    (migrationId : CryptoMigrationId) : List ProjectedController → List ControllerKeyBinding →
    List ControllerKeyBindingProof → Except IdentityError Unit
  | controller :: controllers, binding :: bindings, proof :: proofs => do
    reject (binding.controllerId ≠ controller.id ∨ proof.controllerId ≠ controller.id ∨
      proof.migrationId ≠ migrationId)
      (.invalidRelationship "migration controller proof coverage")
    reject (migrationKeyReusesRetainedMaterial binding.newSigningKey previous p.controllers
      p.devices) .duplicateSigningKey
    let currentKeys ← p.verificationKeys c controller.id
    match currentKeys with
    | [currentKey] =>
      reject (binding.oldKeyId ≠ currentKey.controllerKeyId)
        (.invalidRelationship "migration old controller key")
      verifyAlgorithmSignature c currentKey.algorithmCode currentKey.publicKey
        proof.oldKeySignature (c.migrationBytes migrationId)
      verifyAlgorithmSignature c binding.newSigningKey.algorithmCode
        binding.newSigningKey.asBytes proof.newKeySignature (c.migrationBytes migrationId)
      p.validateBindings previous migrationId controllers bindings proofs
    | _ => .error (.invalidRelationship "migration old controller key")
  | _, _, _ => .ok ()

def Projection.beginCryptoMigration (begin : BeginCryptoMigration)
    (eventId : EventId) : Except IdentityError Projection :=
  match p.crypto with
  | .stable previous => do
    let migration := begin.migration
    let migrationId := c.cryptoMigrationId migration
    reject (migration.accountId ≠ p.accountId) .accountMismatch
    reject (migration.fromSuiteId ≠ c.cryptoSuiteId previous.suite)
      (.invalidRelationship "migration active suite")
    reject (previous.retiredSuites.any fun retired =>
      retired.suiteId = c.cryptoSuiteId migration.toSuite)
      (.invalidRelationship "retired cryptographic suite reuse")
    let retiringKeys := stableSuiteKeys previous p.controllers
    let projectedTombstones ← checkedAdd previous.keyTombstones.length retiringKeys.length
      "cryptographic key tombstones"
    reject (projectedTombstones > MAX_HISTORY_PAGE_EVENTS) (.limitExceeded
      "cryptographic key tombstones" projectedTombstones MAX_HISTORY_PAGE_EVENTS)
    reject (previous.retiredSuites.length ≥ MAX_HISTORY_PAGE_EVENTS) (.limitExceeded
      "retired cryptographic suites" (previous.retiredSuites.length + 1) MAX_HISTORY_PAGE_EVENTS)
    reject (migration.bindings.length ≠ p.activeControllers.length ∨
      begin.proofs.length ≠ p.activeControllers.length)
      (.invalidRelationship "complete controller migration binding set")
    p.validateBindings c previous migrationId p.activeControllers migration.bindings begin.proofs
    return { p with
      crypto := .candidate previous migration eventId
      lifecycle := .migrationPending }
  | .candidate _ _ _ => .error (.invalidRelationship "nested cryptographic migration")
  | .dual _ _ _ _ => .error (.invalidRelationship "nested cryptographic migration")

def Projection.activateCryptoMigration (activate : ActivateCryptoMigration)
    (eventId : EventId) : Except IdentityError Projection :=
  match p.crypto with
  | .candidate previous migration beginEventId => do
    reject (activate.migrationId ≠ c.cryptoMigrationId migration ∨
      activate.beginEventId ≠ beginEventId)
      (.invalidRelationship "activate migration compare-and-set")
    return { p with
      crypto := .dual previous migration beginEventId eventId
      lifecycle := .migrationDual }
  | .stable _ => .error (.invalidRelationship "activate without candidate migration")
  | .dual _ _ _ _ => .error (.invalidRelationship "activate without candidate migration")

def AlgorithmPublicKey.sortKey (key : AlgorithmPublicKey) : Nat ×ₗ Bytes :=
  toLex (key.algorithmCode, key.asBytes)

/-- `sort_unstable_by` and `dedup_by` -/
def sortTombstones (keys : List AlgorithmPublicKey) : List AlgorithmPublicKey :=
  (sortByKey AlgorithmPublicKey.sortKey keys).destutter (· ≠ ·)

def StableCrypto.retire (previous : StableCrypto) (migration : CryptoMigrationBody)
    (controllers : List ProjectedController) (resultingEpoch : Epoch) : StableCrypto where
  suite := migration.toSuite
  migratedKeys := migration.bindings.map fun binding =>
    ⟨binding.controllerId, binding.newSigningKey⟩
  retiredSuites := previous.retiredSuites ++ [⟨c.cryptoSuiteId previous.suite, resultingEpoch⟩]
  keyTombstones := sortTombstones (previous.keyTombstones ++ stableSuiteKeys previous controllers)

def Projection.retireCryptoSuite (retire : RetireCryptoSuite)
    (resultingEpoch : Epoch) : Except IdentityError Projection :=
  match p.crypto, retire.mode with
  | .candidate previous migration beginEventId, .abortCandidate => do
    reject (retire.migrationId ≠ c.cryptoMigrationId migration ∨
      retire.phaseEventId ≠ beginEventId ∨ retire.successorAccountId.isSome)
      (.invalidRelationship "abort candidate migration compare-and-set")
    return { p with crypto := .stable previous, lifecycle := .active }
  | .dual previous migration _ activationEventId, .retirePrevious => do
    reject (retire.migrationId ≠ c.cryptoMigrationId migration ∨
      retire.phaseEventId ≠ activationEventId ∨
      retire.successorAccountId ≠ migration.successorAccountId)
      (.invalidRelationship "retire previous suite compare-and-set")
    let p := { p with
      crypto := .stable (previous.retire c migration p.controllers resultingEpoch) }
    match retire.successorAccountId with
    | some successor =>
      return { p with
        retirement := some (.cryptoMigration retire.migrationId successor resultingEpoch)
        lifecycle := .retired }
    | none => return { p with lifecycle := .active }
  | _, _ => .error (.invalidRelationship "cryptographic suite retirement phase")

/-! ## The operations -/

def Projection.upgradeProtocol (upgrade : ProtocolUpgrade) : Except IdentityError Projection := do
  reject (upgrade.fromMajor ≠ p.protocolMajor) (.unsupportedVersion upgrade.fromMajor)
  return { p with
    protocolMajor := upgrade.toMajor
    upgrade := some upgrade
    lifecycle := .upgradePending }

variable {c} in
def Projection.applyOperation (event : AuthorizedEvent c)
    (providerAuthorityTime : Option Timestamp) : Except IdentityError Projection :=
  let resultingEpoch := event.body.resultingEpoch
  match event.body.operation with
  | .authorizeDevice authorization => p.authorizeDevice authorization resultingEpoch
  | .updateDeviceAuthorization update => p.updateDeviceAuthorization update resultingEpoch
  | .updateDeviceMetadata update => p.modifyDevice update.deviceId fun device =>
      .ok { device with metadataCommitment := update.metadataCommitment }
  | .suspendDevice suspend => p.modifyDevice suspend.deviceId ProjectedDevice.suspend
  | .reinstateDevice reinstate => p.modifyDevice reinstate.deviceId ProjectedDevice.reinstate
  | .revokeDevice revoke => p.modifyDevice revoke.deviceId ProjectedDevice.revoke
  | .rotateDeviceKeys rotation => p.rotateDeviceKeys rotation resultingEpoch
  | .addController descriptor => p.addController c descriptor
  | .removeController controllerId => p.removeController c controllerId
  | .changeControlPolicy policy => p.changeControlPolicy c policy
  | .changeRecoveryPolicy policy => p.changeRecoveryPolicy c policy
  | .changeProviderPolicy policy => p.changeProviderPolicy c policy
  | .beginRecovery begin => p.beginRecovery c begin event.admissionEvidence event.eventId
      (c.proposalId event.body)
  | .vetoRecovery veto => p.vetoRecovery veto
  | .cancelRecovery cancel => p.cancelRecovery cancel
  | .finalizeRecovery finalize =>
      p.finalizeRecovery c lineageEvidence finalize providerAuthorityTime
  | .resolveFork _ => .error .invalidPredecessor
  | .beginCryptoMigration begin => p.beginCryptoMigration c begin event.eventId
  | .activateCryptoMigration activate => p.activateCryptoMigration c activate event.eventId
  | .retireCryptoSuite retire => p.retireCryptoSuite c retire resultingEpoch
  | .upgradeProtocol upgrade => p.upgradeProtocol upgrade
  | .retireAccount retire => .ok { p with
      retirement := some (.account retire)
      lifecycle := .retired }

def Projection.validateLifecycleGate (operation : AccountOperation) : Except IdentityError Unit :=
  match p.lifecycle with
  | .active => .ok ()
  | .recoveryPending =>
    match operation with
    | .vetoRecovery _ | .cancelRecovery _ | .finalizeRecovery _ => .ok ()
    | _ => .error .recoveryPending
  | .migrationPending =>
    match operation with
    | .activateCryptoMigration _ | .retireCryptoSuite _ => .ok ()
    | _ => .error (.invalidRelationship "cryptographic migration phase operation")
  | .migrationDual =>
    match operation with
    | .retireCryptoSuite _ => .ok ()
    | _ => .error (.invalidRelationship "cryptographic migration phase operation")
  | .upgradePending => .error (.unsupportedVersion p.protocolMajor)
  | .retired => .error .accountRetired
  | .forked => .error .accountForked

def Projection.expectedEpoch (operation : AccountOperation) : Except IdentityError Epoch :=
  if operationChangesEpoch operation then Epoch.checkedNext p.epoch else .ok p.epoch

variable {c} in
/-- A linear event on the projection: lifecycle gate, validation against the projection itself, the
operation, and the new position. The result has the epoch that the event was expected to have. -/
def Projection.applyLinear (event : AuthorizedEvent c) :
    Except IdentityError (Epoch × Projection) := do
  p.validateLifecycleGate event.body.operation
  let expectedEpoch ← p.expectedEpoch event.body.operation
  let providerAuthorityTime ← validateEvent c p p event expectedEpoch
  let next ← p.applyOperation lineageEvidence event providerAuthorityTime
  return (expectedEpoch, { next with
    sequence := event.body.sequence
    epoch := event.body.resultingEpoch
    heads := [event.eventId] })

/-! ## Fork resolution -/

def Projection.revokeControllersForResolution (p : Projection) :
    List ControllerId → Except IdentityError Projection
  | [] => .ok p
  | controllerId :: rest => do
    let p ← p.revokeControllerForResolution controllerId
    p.revokeControllersForResolution rest

def Projection.revokeDevicesForResolution (p : Projection) :
    List DeviceId → Except IdentityError Projection
  | [] => .ok p
  | deviceId :: rest => do
    let p ← p.modifyDevice deviceId fun device => .ok { device with lifecycle := .revoked }
    p.revokeDevicesForResolution rest

variable {c} in
/-- The selected branch with the revocations of the resolution. -/
def Projection.applyResolution (resolution : ResolveFork)
    (event : AuthorizedEvent c) : Except IdentityError Projection := do
  let p ← p.revokeControllersForResolution resolution.revokedControllers
  let p ← p.revokeDevicesForResolution resolution.revokedDevices
  reject (p.activeControllers = []) .unsatisfiableThreshold
  p.validatePolicies c
  return { p with
    sequence := event.body.sequence
    epoch := event.body.resultingEpoch
    heads := [event.eventId] }

end Krikos.Identity
