import Krikos.Lib.Bytes
import Krikos.Lib.Check
import Krikos.Lib.Sorted

/-!
# Identity.Types

The vocabulary of the account-identity protocol: content identifiers, counters, error classes,
operation kinds, and the public descriptors of controllers, devices and providers.

An identifier is the digest of a canonical encoding. The encoding and the hash stay outside of
this development; `Id` keeps the hash domain, so that identifiers of different objects do not mix.
-/

namespace Krikos.Identity

open Lib

/-! ## Identifiers and counters -/

inductive HashDomain where
  | genesisAnchor
  | accountId
  | controllerDescriptor
  | controllerKey
  | controlPolicy
  | recoveryPolicy
  | provider
  | providerLog
  | providerPolicy
  | deviceDescriptor
  | accountProposal
  | accountEvent
  | admissionEvidence
  | accountCheckpoint
  | recovery
  | cryptoSuite
  | cryptoMigration
  | guardianGrant
  | capabilityGrant
  | delegation

abbrev Digest := FixedBytes 32

structure Id (domain : HashDomain) where
  digest : Digest

lemma Id.digest_injective {domain : HashDomain} : Function.Injective (@Id.digest domain) := by
  rintro ⟨a⟩ ⟨b⟩ rfl
  rfl

/-- Identifiers compare by their digest bytes. -/
instance instLinearOrderId {domain : HashDomain} : LinearOrder (Id domain) :=
  LinearOrder.lift' Id.digest Id.digest_injective

abbrev GenesisAnchor := Id .genesisAnchor
abbrev AccountId := Id .accountId
abbrev ControllerId := Id .controllerDescriptor
abbrev ControllerKeyId := Id .controllerKey
abbrev ControlPolicyId := Id .controlPolicy
abbrev RecoveryPolicyId := Id .recoveryPolicy
abbrev ProviderId := Id .provider
abbrev ProviderLogId := Id .providerLog
abbrev ProviderPolicyId := Id .providerPolicy
abbrev DeviceId := Id .deviceDescriptor
abbrev ProposalId := Id .accountProposal
abbrev EventId := Id .accountEvent
abbrev AdmissionEvidenceId := Id .admissionEvidence
abbrev CheckpointId := Id .accountCheckpoint
abbrev RecoveryId := Id .recovery
abbrev CryptoSuiteId := Id .cryptoSuite
abbrev CryptoMigrationId := Id .cryptoMigration
abbrev GuardianGrantId := Id .guardianGrant
abbrev CapabilityGrantId := Id .capabilityGrant
abbrev DelegationId := Id .delegation

/-! The counters and times are `u64`; every sum of the source checks for overflow. -/

abbrev Sequence := Nat
abbrev Epoch := Nat
abbrev Timestamp := Nat
abbrev DurationMillis := Nat

def MAX_CONTROLLERS : Nat := 64
def MAX_DEVICES : Nat := 1024
def MAX_AUTHORIZATION_SIGNATURES : Nat := 64
def MAX_ACTIVE_CRYPTO_SUITES : Nat := 2
def MAX_FORK_HEADS : Nat := 16
def MAX_RECOVERY_GUARDIANS : Nat := 16
def MAX_CAPABILITIES_PER_DEVICE : Nat := 128
def MAX_DELEGATION_DEPTH : Nat := 8
def MAX_FORK_EVIDENCE_BYTES : Nat := 4 * 1024 * 1024
def MAX_HISTORY_PAGE_EVENTS : Nat := 256
def MAX_HISTORY_PAGE_BYTES : Nat := 4 * 1024 * 1024
def MAX_ACCOUNT_EVENT_BYTES : Nat := 256 * 1024
def MAX_RETRIES : Nat := 8

/-! ## Errors -/

inductive AlgorithmKind where
  | hash
  | signature
  | agreement
  | kdf
  | aead
  deriving DecidableEq

/-- The error classes of `IdentityError` that the modelled functions return. -/
inductive IdentityError where
  | unsupportedVersion (version : Nat)
  | unsupportedAlgorithm (kind : AlgorithmKind) (code : Nat)
  | invalidPublicKey (kind : AlgorithmKind)
  | unknownCriticalExtension (code : Nat)
  | nonCanonical
  | limitExceeded (resource : String) (actual maximum : Nat)
  | emptyCollection (resource : String)
  | duplicateElement (resource : String)
  | invalidIdentifier (resource : String)
  | invalidRelationship (resource : String)
  | zeroValue (resource : String)
  | unsatisfiableThreshold
  | duplicateSigningKey
  | unsupportedPolicyFeature (feature : String)
  | invalidSignature
  | unknownController
  | ineligibleController
  | revokedController
  | duplicateSigner
  | authorizationDenied
  | invalidSequence
  | historicalStateRequired (sequence : Nat)
  | invalidEpoch
  | invalidPredecessor
  | accountMismatch
  | accountForked
  | recoveryPending
  | accountRetired
  | freshnessUnavailable
  | staleEvidence
  | delayNotElapsed
  | policyVersionMismatch
  | deviceNotAuthorized
  | deviceSuspended
  | deviceRevoked
  | storageCorruption
  | staleRevision
  | protectedWritesBlocked
  | protocolUpgradeReadOnly
  | invalidProof
  | providerEquivocation
  | providerRollback
  | resourceBusy
  | invalidCapability (reason : String)
  | arithmeticOverflow (resource : String)
  deriving DecidableEq

/-- `checked_add` on `u64` and on the 64-bit `usize`. -/
def checkedAdd (a b : Nat) (resource : String) : Except IdentityError Nat :=
  if a + b < 2 ^ 64 then .ok (a + b) else .error (.arithmeticOverflow resource)

def checkedNext (n : Nat) (resource : String) : Except IdentityError Nat := checkedAdd n 1 resource

def Sequence.checkedNext (n : Sequence) : Except IdentityError Sequence :=
  Identity.checkedNext n "account sequence"

def Epoch.checkedNext (n : Epoch) : Except IdentityError Epoch :=
  Identity.checkedNext n "account epoch"

def Timestamp.checkedAdd (t : Timestamp) (d : DurationMillis) : Except IdentityError Timestamp :=
  Identity.checkedAdd t d "timestamp milliseconds"

lemma checkedAdd_ok {a b n : Nat} {resource : String} (h : checkedAdd a b resource = .ok n) :
    n = a + b := by
  unfold checkedAdd at h
  split at h
  · exact (Except.ok.inj h).symm
  · cases h

/-! ## Keys and descriptors -/

structure Extension where
  code : Nat
  critical : Bool
  value : Bytes
  deriving DecidableEq

abbrev Extensions := List Extension

/-- A key that signs: Ed25519 is the only algorithm of its type. -/
structure SigningPublicKey where
  asBytes : FixedBytes 32
  deriving DecidableEq

structure AgreementPublicKey where
  asBytes : FixedBytes 32
  deriving DecidableEq

structure EndpointPublicKey where
  asSigningKey : SigningPublicKey
  deriving DecidableEq

/-- A public key of any signature algorithm, as crypto migrations carry them. -/
@[ext]
structure AlgorithmPublicKey where
  algorithmCode : Nat
  asBytes : Bytes
  deriving DecidableEq

structure AlgorithmSignature where
  algorithmCode : Nat
  asBytes : Bytes
  deriving DecidableEq

def ed25519Code : Nat := 1

inductive OperationKind where
  | authorizeDevice
  | updateDeviceAuthorization
  | updateDeviceMetadata
  | suspendDevice
  | reinstateDevice
  | revokeDevice
  | rotateDeviceKeys
  | addController
  | removeController
  | changeControlPolicy
  | changeRecoveryPolicy
  | changeProviderPolicy
  | beginRecovery
  | vetoRecovery
  | cancelRecovery
  | finalizeRecovery
  | resolveFork
  | beginCryptoMigration
  | activateCryptoMigration
  | retireCryptoSuite
  | upgradeProtocol
  | retireAccount
  deriving DecidableEq

/-- The stable codepoints; the derived order of the source is the order of the codes. -/
def OperationKind.code : OperationKind → Nat
  | .authorizeDevice => 1
  | .updateDeviceAuthorization => 2
  | .updateDeviceMetadata => 3
  | .suspendDevice => 4
  | .reinstateDevice => 5
  | .revokeDevice => 6
  | .rotateDeviceKeys => 7
  | .addController => 8
  | .removeController => 9
  | .changeControlPolicy => 10
  | .changeRecoveryPolicy => 11
  | .changeProviderPolicy => 12
  | .beginRecovery => 13
  | .vetoRecovery => 14
  | .cancelRecovery => 15
  | .finalizeRecovery => 16
  | .resolveFork => 17
  | .beginCryptoMigration => 18
  | .activateCryptoMigration => 19
  | .retireCryptoSuite => 20
  | .upgradeProtocol => 21
  | .retireAccount => 22

inductive ControllerClass where
  | personalDevice
  | hardwareSecurityKey
  | offlineRecovery
  | guardianAccount
  | institutional
  deriving DecidableEq

def ControllerClass.code : ControllerClass → Nat
  | .personalDevice => 1
  | .hardwareSecurityKey => 2
  | .offlineRecovery => 3
  | .guardianAccount => 4
  | .institutional => 5

/-- The operations that a controller may approve; an explicit set is sorted by operation code. -/
inductive ControllerScope where
  | allV1Operations
  | operations (set : List OperationKind)
  deriving DecidableEq

def ControllerScope.allows (scope : ControllerScope) (operation : OperationKind) : Bool :=
  match scope with
  | .allV1Operations => true
  | .operations set => (lookup OperationKind.code operation.code set).isSome

structure ControllerDescriptor where
  signingKey : SigningPublicKey
  class_ : ControllerClass
  weight : Nat
  scope : ControllerScope
  extensions : Extensions
  deriving DecidableEq

structure ProviderDescriptor where
  signingKey : SigningPublicKey
  extensions : Extensions
  deriving DecidableEq

/-- The three keys of a device, which `DeviceDescriptor::new` keeps apart. -/
structure DeviceDescriptor where
  applicationSigningKey : SigningPublicKey
  agreementKey : AgreementPublicKey
  endpointKey : EndpointPublicKey
  extensions : Extensions
  separate : applicationSigningKey.asBytes ≠ endpointKey.asSigningKey.asBytes ∧
    applicationSigningKey.asBytes ≠ agreementKey.asBytes ∧
    endpointKey.asSigningKey.asBytes ≠ agreementKey.asBytes
  deriving DecidableEq

inductive DeviceClass where
  | generalPurpose
  | hardwareBacked
  | applicationOnly
  | service
  deriving DecidableEq

/-! ## Capability grants -/

/-- The nonempty segments of a resource, outermost first. -/
abbrev ResourcePath := List Bytes

/-- One path, or all paths that start with complete segments. -/
inductive ResourceSelector where
  | exact (path : ResourcePath)
  | startingWith (path : ResourcePath)
  deriving DecidableEq

inductive CapabilityConstraint where
  | accountEpochAtLeast (epoch : Epoch)
  | accountEpochAtMost (epoch : Epoch)
  | validFrom (time : Timestamp)
  deriving DecidableEq

def CapabilityConstraint.code : CapabilityConstraint → Nat
  | .accountEpochAtLeast _ => 1
  | .accountEpochAtMost _ => 2
  | .validFrom _ => 3

structure DelegationDepth where
  get : Nat
  positive : get ≠ 0
  bounded : get ≤ MAX_DELEGATION_DEPTH
  deriving DecidableEq

inductive DelegationPermission where
  | notDelegable
  | delegable (remaining : DelegationDepth)
  deriving DecidableEq

def DelegationPermission.remaining : DelegationPermission → Option DelegationDepth
  | .notDelegable => none
  | .delegable remaining => some remaining

/-- A grant that passed `CapabilityGrant::from_sorted`: at most one constraint of each kind. -/
structure CapabilityGrant where
  capabilityNamespace : String
  action : String
  resource : ResourceSelector
  constraints : List CapabilityConstraint
  delegation : DelegationPermission
  expiresAt : Option Timestamp
  extensions : Extensions
  sorted : SortedBy CapabilityConstraint.code constraints
  deriving DecidableEq

end Krikos.Identity
