import Krikos.Identity.State

/-!
# Identity.Toy

An instance of the primitives that computes, for concrete accounts: identifiers read off a key, a
version or a nonce, all encodings of one byte, and a signature that is the message followed by the
public key. With it accounts of one controller and their events are built by number.
-/

namespace Krikos.Identity.Toy

open Lib List

lemma length_padded (b : Bytes) : ((b ++ replicate 32 0).take 32).length = 32 := by
  simp

def padded (b : Bytes) : Digest := ⟨(b ++ replicate 32 0).take 32, length_padded b⟩

variable (n : Nat)

def number : Digest := padded (beBytes 32 n)

def primitives : Primitives where
  accountId _ := ⟨number 1⟩
  genesisAnchor _ := ⟨number 2⟩
  controllerId descriptor := ⟨descriptor.signingKey.asBytes⟩
  providerId descriptor := ⟨descriptor.signingKey.asBytes⟩
  controlPolicyId policy := ⟨number policy.rules.length⟩
  recoveryPolicyId policy := ⟨number policy.policyVersion⟩
  providerPolicyId policy := ⟨number policy.policyVersion⟩
  cryptoSuiteId descriptor := ⟨number descriptor.suiteCode⟩
  cryptoMigrationId migration := ⟨migration.nonce⟩
  guardianLeafId leaf := leaf.guardianAccountId.digest
  guardianLeafValue digest := digest
  merkleHash preimage :=
    match preimage with
    | .empty => number 0
    | .leaf leaf => leaf.key.id
    | .node _ _ => number 3
  signingKeyId key := ⟨key.asBytes⟩
  algorithmKeyId key := ⟨padded key.asBytes⟩
  proposalId body := ⟨padded body.nonce.val⟩
  admissionEvidenceId evidence := ⟨evidence.proposalId.digest⟩
  admittedEventId _ evidenceId := ⟨evidenceId.digest⟩
  approvalBytes body :=
    match body.subject with
    | .event eventId _ => eventId.digest.val
    | .checkpoint checkpointId => checkpointId.digest.val
  intentBytes body := body.proposalId.digest.val
  guardianBytes body := body.recoveryId.digest.val
  migrationBytes migrationId := migrationId.digest.val
  eventBytes _ _ _ := 1
  projectionBytes _ := 1
  ancestorBytes _ := 1
  predecessorsBytes _ := 1
  verifyEd25519 publicKey signature message := decide (signature = message ++ publicKey)
  verifyReceipt receipt provider :=
    reject (receipt.signedHead.signature ≠ provider.signingKey.asBytes.val) .invalidSignature

/-! ## Accounts -/

def controller : ControllerDescriptor :=
  ⟨⟨number n⟩, .personalDevice, 1, .allV1Operations, []⟩

/-- Any active controller of weight one suffices, without provider evidence. -/
def rule (operation : OperationKind) : PolicyRule :=
  ⟨operation, 1, .anyActive, .latestKnown, none, []⟩

def recoveryPolicy (version : Nat) : RecoveryPolicy :=
  ⟨version, .guardianThreshold ⟨number 0, 1, 1, 1⟩, 1, 2, []⟩

def providerPolicy : ProviderPolicy := ⟨0, .localOnly, []⟩

lemma number_one_ne_zero : number 1 ≠ FixedBytes.zero 32 := by decide

def genesis (rules : List PolicyRule)
    (satisfiable : ControlPolicy.validateSatisfiable primitives.controllerId ⟨rules, []⟩
      [controller 1] = .ok ()) : AccountGenesis primitives where
  accountNonce := number 1
  createdAt := 1
  initialPolicy := ⟨rules, []⟩
  initialControllers := [controller 1]
  initialRecoveryPolicy := recoveryPolicy 0
  initialProviderPolicy := providerPolicy
  extensions := []
  nonce := number_one_ne_zero
  providerVersion := rfl
  recoveryVersion := rfl
  nonempty := cons_ne_nil _ _
  bounded := Nat.le_of_ble_eq_true rfl
  sorted := pairwise_singleton _ _
  distinct := pairwise_singleton _ _
  satisfiable := satisfiable
  recoverable := rfl

lemma plain_satisfiable : ControlPolicy.validateSatisfiable primitives.controllerId
    ⟨[rule .changeRecoveryPolicy, rule .resolveFork], []⟩ [controller 1] = .ok () := by
  decide

/-- An account that may replace its recovery policy and resolve forks. -/
def plainAccount : AccountGenesis primitives := genesis _ plain_satisfiable

/-! ## Events -/

def nonce : FixedBytes 16 := ⟨beBytes 16 n, length_beBytes 16 n⟩

def eventId : EventId := ⟨padded (nonce n).val⟩

def firstBody (epoch : Epoch) (operation : AccountOperation)
    (follows : operation.Follows ⟨number 1⟩ 1 (.genesis ⟨number 2⟩)) : EventBody where
  accountId := ⟨number 1⟩
  sequence := 1
  resultingEpoch := epoch
  predecessors := .genesis ⟨number 2⟩
  operation := operation
  createdAt := 1
  nonce := nonce n
  extensions := []
  notGenesis := Nat.one_ne_zero
  anchored := iff_of_true rfl rfl
  follows := follows

/-- A later event, after the event with the number `parent`. -/
def nextBody (n parent : Nat) (sequence epoch : Nat) (operation : AccountOperation)
    (follows : operation.Follows ⟨number 1⟩ (sequence + 2) (.events [eventId parent])) :
    EventBody where
  accountId := ⟨number 1⟩
  sequence := sequence + 2
  resultingEpoch := epoch
  predecessors := .events [eventId parent]
  operation := operation
  createdAt := 1
  nonce := nonce n
  extensions := []
  notGenesis := Nat.succ_ne_zero _
  anchored := iff_of_false (fun h => Nat.succ_ne_zero sequence (Nat.succ.inj h))
    (Option.some_ne_none _)
  follows := follows

def evidence (body : EventBody) : AdmissionEvidence :=
  ⟨primitives.proposalId body, ⟨number 0⟩, ⟨number 0⟩, .localKnown ⟨number 0⟩, .none, []⟩

/-- The approval of the controller with the number `key`. -/
def approval (body : EventBody) (key : Nat) : SignedControllerApproval where
  body := ⟨⟨number key⟩, .event
    (primitives.admittedEventId body (primitives.admissionEvidenceId (evidence body)))
    (primitives.admissionEvidenceId (evidence body)), []⟩
  signatures := [⟨⟨number 1⟩, ⟨number key⟩,
    ⟨ed25519Code, (padded body.nonce.val).val ++ (number key).val⟩⟩]
  nonempty := cons_ne_nil _ _
  sorted := pairwise_singleton _ _

def event (body : EventBody) (planValid : body.operation.PlanValid primitives)
    (checkpoint : body.operation.CheckpointFits (evidence body))
    (cardinality : body.operation.requiresEmptyControllerApprovals = false) (key : Nat := 1) :
    AuthorizedEvent primitives where
  body := body
  admissionEvidence := evidence body
  approvals := ⟨[approval body key], pairwise_singleton _ _⟩
  planValid := planValid
  proposed := rfl
  checkpoint := checkpoint
  cardinality := cardinality.symm
  subjects _ h := mem_singleton.mp h ▸ rfl
  bounded := Nat.le_of_ble_eq_true rfl

lemma linear_events (id : EventId) : (EventPredecessors.events [id]).Linear := by
  intro heads h
  obtain rfl : [id] = heads := Option.some.inj h
  rfl

lemma linear_genesis (anchor : GenesisAnchor) : (EventPredecessors.genesis anchor).Linear := by
  intro heads h
  cases h

/-- The first event, with the number `n`: it replaces the recovery policy. -/
def firstEvent : AuthorizedEvent primitives :=
  event (firstBody n 1 (.changeRecoveryPolicy (recoveryPolicy 1)) (linear_genesis _)) trivial
    trivial rfl

/-- An event with the number `n` after the event `parent`, which replaces the recovery policy of
version `sequence + 1`. -/
def nextEvent (n parent sequence : Nat) (key : Nat := 1) : AuthorizedEvent primitives :=
  event (nextBody n parent sequence (sequence + 2)
    (.changeRecoveryPolicy (recoveryPolicy (sequence + 2))) (linear_events _)) trivial trivial rfl
    key

/-! ## A migration and a resolution -/

lemma number_one_ne_two : (⟨number 1⟩ : CryptoSuiteId) ≠ ⟨number 2⟩ := by decide

/-- The suite that follows the first one, with the same algorithms. -/
def suiteTwo : CryptoSuiteDescriptor := { CryptoSuiteDescriptor.v1 with suiteCode := 2 }

/-- The migration of the controller number one to the key number nine. -/
def migration : CryptoMigrationBody where
  accountId := ⟨number 1⟩
  fromSuiteId := ⟨number 1⟩
  toSuite := suiteTwo
  bindings := [⟨⟨number 1⟩, ⟨number 1⟩, ⟨ed25519Code, (number 9).val⟩, []⟩]
  successorAccountId := none
  nonce := number 7
  extensions := []
  nonempty := cons_ne_nil _ _
  sorted := pairwise_singleton _ _
  distinct := pairwise_singleton _ _
  algorithm _ h := mem_singleton.mp h ▸ rfl

def migrationProof : ControllerKeyBindingProof :=
  ⟨⟨number 7⟩, ⟨number 1⟩, ⟨ed25519Code, (number 7).val ++ (number 1).val⟩,
    ⟨ed25519Code, (number 7).val ++ (number 9).val⟩⟩

lemma migrating_satisfiable : ControlPolicy.validateSatisfiable primitives.controllerId
    ⟨[rule .changeRecoveryPolicy, rule .resolveFork, rule .beginCryptoMigration,
      rule .activateCryptoMigration, rule .retireCryptoSuite], []⟩ [controller 1] = .ok () := by
  decide

/-- An account that may also change its cryptographic suite. -/
def migratingAccount : AccountGenesis primitives := genesis _ migrating_satisfiable

def beginMigration : AuthorizedEvent primitives :=
  event (firstBody 1 0 (.beginCryptoMigration ⟨migration, [migrationProof], []⟩)
    ⟨rfl, linear_genesis _⟩) number_one_ne_two trivial rfl

def activateMigration : AuthorizedEvent primitives :=
  event (nextBody 2 1 0 1 (.activateCryptoMigration ⟨⟨number 7⟩, eventId 1, []⟩)
    (linear_events _)) trivial trivial rfl

def retireBody : EventBody :=
  nextBody 3 2 1 2 (.retireCryptoSuite ⟨⟨number 7⟩, .retirePrevious, eventId 2, none, []⟩)
    (linear_events _)

lemma dualApproval_sorted : SortedBy KeyedSignature.sortKey
    [⟨⟨number 1⟩, ⟨number 1⟩, ⟨ed25519Code, (padded retireBody.nonce.val).val ++ (number 1).val⟩⟩,
      ⟨⟨number 2⟩, ⟨number 9⟩,
        ⟨ed25519Code, (padded retireBody.nonce.val).val ++ (number 9).val⟩⟩] :=
  pairwise_pair.mpr (by decide +kernel)

def dualApproval : SignedControllerApproval where
  body := (approval retireBody 1).body
  signatures := [⟨⟨number 1⟩, ⟨number 1⟩,
      ⟨ed25519Code, (padded retireBody.nonce.val).val ++ (number 1).val⟩⟩,
    ⟨⟨number 2⟩, ⟨number 9⟩, ⟨ed25519Code, (padded retireBody.nonce.val).val ++ (number 9).val⟩⟩]
  nonempty := cons_ne_nil _ _
  sorted := dualApproval_sorted

def retireSuite : AuthorizedEvent primitives where
  body := retireBody
  admissionEvidence := evidence retireBody
  approvals := ⟨[dualApproval], pairwise_singleton _ _⟩
  planValid := trivial
  proposed := rfl
  checkpoint := trivial
  cardinality := rfl
  subjects _ h := mem_singleton.mp h ▸ rfl
  bounded := Nat.le_of_ble_eq_true rfl

lemma heads_branched : 2 ≤ [eventId 3, eventId 4].length := Nat.le_refl 2

/-- The fork between the completed migration and another first event. -/
def forkDescriptor : ForkDescriptor :=
  ⟨⟨number 1⟩, .genesis ⟨number 2⟩, [eventId 3, eventId 4], [], heads_branched⟩

def resolutionBody : EventBody where
  accountId := ⟨number 1⟩
  sequence := 4
  resultingEpoch := 3
  predecessors := .events [eventId 3, eventId 4]
  operation := .resolveFork ⟨forkDescriptor, eventId 3, [], [], []⟩
  createdAt := 1
  nonce := nonce 5
  extensions := []
  notGenesis := Nat.succ_ne_zero _
  anchored := iff_of_false (fun h => Nat.succ_ne_zero 2 (Nat.succ.inj h)) (Option.some_ne_none _)
  follows := ⟨rfl, rfl⟩

/-- The resolution, signed with the key of the first suite only. -/
def resolution : AuthorizedEvent primitives := event resolutionBody trivial trivial rfl

/-! ## A recovery -/

def controllerRecovery (version : Nat) : RecoveryPolicy :=
  ⟨version, .controllerThreshold ⟨.anyActive, 1⟩, 1, 10, []⟩

lemma recovering_satisfiable : ControlPolicy.validateSatisfiable primitives.controllerId
    ⟨[rule .changeRecoveryPolicy, rule .beginRecovery, rule .finalizeRecovery], []⟩
    [controller 1] = .ok () := by
  decide

def recoveringAccount : AccountGenesis primitives where
  accountNonce := number 1
  createdAt := 1
  initialPolicy := ⟨[rule .changeRecoveryPolicy, rule .beginRecovery, rule .finalizeRecovery], []⟩
  initialControllers := [controller 1]
  initialRecoveryPolicy := controllerRecovery 0
  initialProviderPolicy := ⟨0, .replicated ⟨[⟨⟨number 5⟩, []⟩], 1, 1, 10⟩, []⟩
  extensions := []
  nonce := number_one_ne_zero
  providerVersion := rfl
  recoveryVersion := rfl
  nonempty := cons_ne_nil _ _
  bounded := Nat.le_of_ble_eq_true rfl
  sorted := pairwise_singleton _ _
  distinct := pairwise_singleton _ _
  satisfiable := recovering_satisfiable
  recoverable := rfl

def beforeRecovery : AuthorizedEvent primitives :=
  event (firstBody 1 1 (.changeRecoveryPolicy (controllerRecovery 1)) (linear_genesis _)) trivial
    trivial rfl

/-- The controller number two is to replace the first one. -/
def recoveryPlan : RecoveryAuthorityPlan where
  accountId := ⟨number 1⟩
  priorCheckpointId := ⟨number 0⟩
  priorEventHead := eventId 1
  recoveryPolicyId := ⟨number 1⟩
  recoveryPolicyVersion := 1
  nonce := number 3
  replacementControllers := [controller 2]
  replacementControlPolicy := ⟨[rule .changeRecoveryPolicy], []⟩
  replacementRecoveryPolicy := controllerRecovery 2
  retainedDevices := []
  expiresAt := 100
  extensions := []

lemma recoveryPlan_satisfiable : recoveryPlan.replacementControlPolicy.validateSatisfiable
    primitives.controllerId recoveryPlan.replacementControllers = .ok () := by
  decide

lemma recoveryPlan_valid : recoveryPlan.Valid primitives where
  nonempty := cons_ne_nil _ _
  sorted := pairwise_singleton _ _
  distinct := pairwise_singleton _ _
  satisfiable := recoveryPlan_satisfiable
  recoverable := rfl

lemma two_ne_one : (0 + 2 : Sequence) ≠ 1 := by decide

def beginBody : EventBody :=
  nextBody 2 1 0 2 (.beginRecovery ⟨none, ⟨number 8⟩, ⟨recoveryPlan, []⟩, ⟨⟨number 1⟩, 1, none⟩, []⟩)
    ⟨rfl, two_ne_one, rfl⟩

def recoveryReceipts (headTime : Timestamp) : ProviderReceipts where
  asSlice := [⟨⟨⟨number 5⟩, ⟨number 0⟩, ⟨number 1⟩, .eventIntent (primitives.proposalId beginBody), 5,
    []⟩, 0, [], ⟨⟨⟨number 5⟩, ⟨number 0⟩, 0, 1, number 0, headTime, []⟩, (number 5).val⟩⟩]
  sorted := pairwise_singleton _ _

def intentApprovals : EventIntentApprovals where
  asSlice := [⟨⟨⟨number 1⟩, primitives.proposalId beginBody, []⟩, [⟨⟨number 1⟩, ⟨number 1⟩,
    ⟨ed25519Code, (padded beginBody.nonce.val).val ++ (number 1).val⟩⟩]⟩]
  nonempty := cons_ne_nil _ _

def beginRecovery : AuthorizedEvent primitives where
  body := beginBody
  admissionEvidence := ⟨primitives.proposalId beginBody, ⟨number 0⟩, ⟨number 0⟩,
    .localKnown ⟨number 0⟩, .providerQuorum ⟨number 0⟩ 1 5 intentApprovals (recoveryReceipts 5), []⟩
  approvals := ⟨[approval beginBody 1], pairwise_singleton _ _⟩
  planValid := recoveryPlan_valid
  proposed := rfl
  checkpoint := rfl
  cardinality := rfl
  subjects _ h := mem_singleton.mp h ▸ rfl
  bounded := Nat.le_of_ble_eq_true rfl

def finalization : FinalizeRecovery :=
  ⟨⟨number 8⟩, ⟨⟨number 1⟩, ⟨number 8⟩, primitives.proposalId beginBody, ⟨number 0⟩, 1, 5,
    recoveryReceipts 7, [], Nat.one_pos⟩, 7, []⟩

def finalizeBody : EventBody :=
  nextBody 3 2 1 3 (.finalizeRecovery finalization) (linear_events _)

lemma no_approvals (approval : SignedControllerApproval) (h : approval ∈ []) :
    approval.body.subject = .event (primitives.admittedEventId finalizeBody
      (primitives.admissionEvidenceId (evidence finalizeBody)))
      (primitives.admissionEvidenceId (evidence finalizeBody)) := by
  cases h

def finalizeRecovery : AuthorizedEvent primitives where
  body := finalizeBody
  admissionEvidence := evidence finalizeBody
  approvals := ⟨[], .nil⟩
  planValid := trivial
  proposed := rfl
  checkpoint := trivial
  cardinality := rfl
  subjects := no_approvals
  bounded := Nat.le_of_ble_eq_true rfl

/-! ## A device -/

lemma device_separate : number 11 ≠ number 13 ∧ number 11 ≠ number 12 ∧ number 13 ≠ number 12 := by
  decide

def device : DeviceDescriptor := ⟨⟨number 11⟩, ⟨number 12⟩, ⟨⟨number 13⟩⟩, [], device_separate⟩

lemma device_satisfiable : ControlPolicy.validateSatisfiable primitives.controllerId
    ⟨[rule .authorizeDevice, rule .revokeDevice, rule .changeRecoveryPolicy], []⟩ [controller 1] =
      .ok () := by
  decide

/-- An account that may authorize and revoke devices and replace its recovery policy. -/
def deviceAccount : AccountGenesis primitives := genesis _ device_satisfiable

def authorizeDevice : AuthorizedEvent primitives :=
  event (firstBody 1 1 (.authorizeDevice
    ⟨⟨number 7⟩, device, .generalPurpose, none, [], 1, []⟩) (linear_genesis _)) trivial trivial rfl

def revokeDevice : AuthorizedEvent primitives :=
  event (nextBody 2 1 0 2 (.revokeDevice ⟨⟨number 7⟩, none, []⟩) (linear_events _)) trivial trivial
    rfl

end Krikos.Identity.Toy
