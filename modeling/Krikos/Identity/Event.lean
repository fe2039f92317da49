import Krikos.Identity.Operation

/-!
# Identity.Event

Account events: the unsigned body, the admission evidence, the controller approvals with their
merge, and the authorized envelope.
-/

namespace Krikos.Identity

open Lib

/-! ## Bodies -/

/-- The genesis anchor for the first event, otherwise the sorted set of event heads. -/
inductive EventPredecessors where
  | genesis (anchor : GenesisAnchor)
  | events (eventIds : List EventId)
  deriving DecidableEq

def EventPredecessors.genesisAnchor : EventPredecessors → Option GenesisAnchor
  | .genesis anchor => some anchor
  | .events _ => none

def EventPredecessors.eventHeads : EventPredecessors → Option (List EventId)
  | .genesis _ => none
  | .events eventIds => some eventIds

def EventPredecessors.Linear (predecessors : EventPredecessors) : Prop :=
  ∀ heads, predecessors.eventHeads = some heads → heads.length = 1

/-- What `EventBody::new` asks of the predecessors of an operation. -/
def AccountOperation.Follows (accountId : AccountId) (sequence : Sequence)
    (predecessors : EventPredecessors) : AccountOperation → Prop
  | .resolveFork resolution => resolution.fork.accountId = accountId ∧
      predecessors.eventHeads = some resolution.fork.heads
  | .beginRecovery begin => begin.proposal.plan.accountId = accountId ∧ sequence ≠ 1 ∧
      predecessors.eventHeads = some [begin.proposal.plan.priorEventHead]
  | .beginCryptoMigration begin => begin.migration.accountId = accountId ∧ predecessors.Linear
  | _ => predecessors.Linear

structure EventBody where
  accountId : AccountId
  sequence : Sequence
  resultingEpoch : Epoch
  predecessors : EventPredecessors
  operation : AccountOperation
  createdAt : Timestamp
  nonce : FixedBytes 16
  extensions : Extensions
  notGenesis : sequence ≠ 0
  anchored : sequence = 1 ↔ predecessors.eventHeads = none
  follows : operation.Follows accountId sequence predecessors
  deriving DecidableEq

/-! ## Admission evidence -/

structure KeyedSignature where
  cryptoSuiteId : CryptoSuiteId
  controllerKeyId : ControllerKeyId
  signature : AlgorithmSignature
  deriving DecidableEq

def KeyedSignature.sortKey (signature : KeyedSignature) : CryptoSuiteId ×ₗ ControllerKeyId :=
  toLex (signature.cryptoSuiteId, signature.controllerKeyId)

structure EventIntentApprovalBody where
  controllerId : ControllerId
  proposalId : ProposalId
  extensions : Extensions
  deriving DecidableEq

structure SignedEventIntentApproval where
  body : EventIntentApprovalBody
  signatures : List KeyedSignature
  deriving DecidableEq

/-- Intent approvals of one proposal, sorted by controller. -/
structure EventIntentApprovals where
  asSlice : List SignedEventIntentApproval
  nonempty : asSlice ≠ []
  deriving DecidableEq

def EventIntentApprovals.proposalId (approvals : EventIntentApprovals) : ProposalId :=
  (approvals.asSlice.head approvals.nonempty).body.proposalId

inductive DelayEvidence where
  | none
  | providerQuorum (providerPolicyId : ProviderPolicyId) (requiredQuorum : Nat)
      (observedAt : Timestamp) (intentApprovals : EventIntentApprovals)
      (receipts : ProviderReceipts)
  | guardianRecovery (providerPolicyId : ProviderPolicyId) (requiredQuorum : Nat)
      (observedAt : Timestamp) (proposalId : ProposalId) (receipts : ProviderReceipts)
  deriving DecidableEq

namespace DelayEvidence

def providerPolicyId : DelayEvidence → Option ProviderPolicyId
  | .none => .none
  | .providerQuorum id _ _ _ _ => some id
  | .guardianRecovery id _ _ _ _ => some id

def requiredQuorum : DelayEvidence → Option Nat
  | .none => .none
  | .providerQuorum _ quorum _ _ _ => some quorum
  | .guardianRecovery _ quorum _ _ _ => some quorum

def observedAt : DelayEvidence → Option Timestamp
  | .none => .none
  | .providerQuorum _ _ time _ _ => some time
  | .guardianRecovery _ _ time _ _ => some time

def intentApprovals : DelayEvidence → Option EventIntentApprovals
  | .none => .none
  | .providerQuorum _ _ _ approvals _ => some approvals
  | .guardianRecovery _ _ _ _ _ => .none

def providerReceipts : DelayEvidence → Option ProviderReceipts
  | .none => .none
  | .providerQuorum _ _ _ _ receipts => some receipts
  | .guardianRecovery _ _ _ _ receipts => some receipts

def isGuardianRecovery : DelayEvidence → Bool
  | .guardianRecovery _ _ _ _ _ => true
  | _ => false

end DelayEvidence

structure AdmissionEvidence where
  proposalId : ProposalId
  precedingCheckpoint : CheckpointId
  providerPolicyId : ProviderPolicyId
  freshness : FreshnessEvidence
  delay : DelayEvidence
  extensions : Extensions
  deriving DecidableEq

/-! ## Controller approvals -/

inductive ControllerApprovalSubject where
  | event (eventId : EventId) (admissionEvidenceId : AdmissionEvidenceId)
  | checkpoint (checkpointId : CheckpointId)
  deriving DecidableEq

structure ControllerApprovalBody where
  controllerId : ControllerId
  subject : ControllerApprovalSubject
  extensions : Extensions
  deriving DecidableEq

/-- `BoundedVec::new` -/
def validateBounded {α : Type} (resource : String) (l : List α) (maximum : Nat) :
    Except IdentityError Unit :=
  reject (l.length > maximum) (.limitExceeded resource l.length maximum)

/-- The loop over adjacent pairs that checks a canonical order. -/
def validateStrictlySorted {α κ : Type} [LinearOrder κ] (key : α → κ) (resource : String) :
    List α → Except IdentityError Unit
  | a :: b :: rest => do
    reject (key a = key b) (.duplicateElement resource)
    reject (key b < key a) .nonCanonical
    validateStrictlySorted key resource (b :: rest)
  | _ => .ok ()

lemma sortedBy_of_validate {α κ : Type} [LinearOrder κ] {key : α → κ} {resource : String}
    {l : List α} (h : validateStrictlySorted key resource l = .ok ()) : SortedBy key l := by
  -- Each element is below its successor, which suffices since the order is transitive.
  have hchain : l.IsChain fun a b => key a < key b := by
    induction l with
    | nil => exact .nil
    | cons a l ih =>
      cases l with
      | nil => exact .singleton a
      | cons b rest =>
        simp only [validateStrictlySorted, bind_ok, reject_ok] at h
        obtain ⟨-, hne, -, hle, hrest⟩ := h
        exact .cons_cons (lt_of_le_of_ne (not_lt.mp hle) hne) (ih hrest)
  have htran : IsTrans α fun a b => key a < key b := ⟨fun _ _ _ => lt_trans⟩
  exact List.isChain_iff_pairwise.mp hchain

structure SignedControllerApproval where
  body : ControllerApprovalBody
  signatures : List KeyedSignature
  nonempty : signatures ≠ []
  sorted : SortedBy KeyedSignature.sortKey signatures
  deriving DecidableEq

/-- At most one approval of each controller, in the order of their identifiers. -/
structure ControllerApprovals where
  asSlice : List SignedControllerApproval
  sorted : SortedBy (fun approval => approval.body.controllerId) asSlice
  deriving DecidableEq

namespace SignedControllerApproval

def fromSorted (body : ControllerApprovalBody) (signatures : List KeyedSignature) :
    Except IdentityError SignedControllerApproval :=
  if nonempty : signatures = [] then .error (.emptyCollection "controller approval signatures")
  else do
    validateBounded "controller approval signatures" signatures MAX_ACTIVE_CRYPTO_SUITES
    match h : validateStrictlySorted KeyedSignature.sortKey "controller approval signatures"
        signatures with
    | .ok () => .ok ⟨body, signatures, nonempty, sortedBy_of_validate h⟩
    | .error e => .error e

/-- The loop of `merge` over the sorted signatures, from the last one that was kept. -/
def keepDistinct : Option KeyedSignature → List KeyedSignature →
    Except IdentityError (List KeyedSignature)
  | _, [] => .ok []
  | none, signature :: rest => do
    let merged ← keepDistinct (some signature) rest
    return signature :: merged
  | some previous, signature :: rest =>
    if previous.sortKey = signature.sortKey then do
      reject (previous ≠ signature) .invalidSignature
      keepDistinct (some previous) rest
    else do
      let merged ← keepDistinct (some signature) rest
      return signature :: merged

def merge (approval other : SignedControllerApproval) :
    Except IdentityError SignedControllerApproval := do
  reject (approval.body ≠ other.body) (.invalidRelationship "merged controller approval body")
  let signatures ← keepDistinct none
    (sortByKey KeyedSignature.sortKey (approval.signatures ++ other.signatures))
  fromSorted approval.body signatures

end SignedControllerApproval

namespace ControllerApprovals

def fromSorted (approvals : List SignedControllerApproval) :
    Except IdentityError ControllerApprovals := do
  validateBounded "controller approvals" approvals MAX_AUTHORIZATION_SIGNATURES
  match h : validateStrictlySorted (fun approval => approval.body.controllerId)
      "controller approvals" approvals with
  | .ok () => .ok ⟨approvals, sortedBy_of_validate h⟩
  | .error e => .error e

/-- One incoming approval of `merge`. -/
def mergeOne (merged : List SignedControllerApproval) (incoming : SignedControllerApproval) :
    Except IdentityError (List SignedControllerApproval) :=
  match search (fun approval => approval.body.controllerId) incoming.body.controllerId merged with
  | .ok index =>
    match merged[index]? with
    | some approval => do
      let approval ← approval.merge incoming
      return merged.set index approval
    | none => .ok merged
  | .error index => .ok (merged.insertIdx index incoming)

def merge (approvals other : ControllerApprovals) : Except IdentityError ControllerApprovals := do
  let merged ← other.asSlice.foldlM mergeOne approvals.asSlice
  fromSorted merged

end ControllerApprovals

/-! ## Genesis -/

structure GenesisBody where
  accountNonce : FixedBytes 32
  createdAt : Timestamp
  initialPolicy : ControlPolicy
  initialControllers : List ControllerDescriptor
  initialRecoveryPolicy : RecoveryPolicy
  initialProviderPolicy : ProviderPolicy
  extensions : Extensions

end Krikos.Identity
