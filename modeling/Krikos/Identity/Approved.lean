import Krikos.Identity.Sound

/-!
# Identity.Approved

Threshold soundness: whatever is newly accepted was approved by enough weight of distinct, active
and eligible controllers of the state that it was judged by, each with all the keys that this
state asks of it.
-/

namespace Krikos.Identity

open Lib

variable {c : Primitives} {event : AuthorizedEvent c} {authority : Projection}
  {operation : OperationKind} {selector : ControllerSelector}

/-! ## What an accepted event needs -/

/-- Who has to approve an operation: the controllers of its rule or, for recovery, those of the
controller threshold of the recovery policy. -/
def Projection.requirement (authority : Projection) (operation : AccountOperation) :
    Option (ControllerSelector × Nat) :=
  match operation with
  | .beginRecovery _ | .cancelRecovery _ =>
    match authority.recoveryPolicy.authority with
    | .controllerThreshold threshold => some (threshold.selector, threshold.requiredWeight)
    | .guardianThreshold _ => none
  | _ => (authority.controlPolicy.ruleFor operation.kind).map fun rule =>
    (rule.eligibleControllers, rule.requiredWeight)

def Projection.weightOf (authority : Projection) (controllerId : ControllerId) : Nat :=
  ((authority.activeController controllerId).map fun controller =>
    controller.descriptor.weight).getD 0

section
variable (c) (Signed : Bytes → Bytes → Prop)

/-- The controller of an approval may approve the operation, and every key that is asked of it has
signed the approval. -/
structure Projection.Signs (authority : Projection) (operation : OperationKind)
    (selector : ControllerSelector) (approval : SignedControllerApproval) : Prop where
  active : ∃ controller, authority.activeController approval.body.controllerId = some controller ∧
    controller.descriptor.scope.allows operation ∧
    selector.matchesController c.controllerId controller.descriptor
  signed : ∃ keys, authority.verificationKeys c approval.body.controllerId = .ok keys ∧
    ∀ key ∈ keys, Signed key.publicKey (c.approvalBytes approval.body)

/-- The approvals of an event carry enough weight of distinct, active and eligible controllers. -/
structure Projection.Approves (authority : Projection) (event : AuthorizedEvent c)
    (selector : ControllerSelector) (requiredWeight : Nat) : Prop where
  distinct : (event.approvals.asSlice.map fun approval => approval.body.controllerId).Nodup
  signs : ∀ approval ∈ event.approvals.asSlice,
    authority.Signs c Signed event.body.operation.kind selector approval
  unrevoked : ∀ approval ∈ event.approvals.asSlice, ∀ controller ∈ authority.revokedControllers,
    controller.id ≠ approval.body.controllerId
  subject : ∀ approval ∈ event.approvals.asSlice, approval.body.subject =
    .event event.eventId (c.admissionEvidenceId event.admissionEvidence)
  weight : requiredWeight ≤ (event.approvals.asSlice.map fun approval =>
    authority.weightOf approval.body.controllerId).sum

end

/-! ## The loops over the approvals -/

/-- One approval passes the checks of the loops. -/
structure Projection.Verifies (c : Primitives) (authority : Projection) (operation : OperationKind)
    (selector : ControllerSelector) (approval : SignedControllerApproval) : Prop where
  signer : ∃ previous controller, validateSigner c authority operation selector previous
    approval.body.controllerId = .ok controller
  signatures : verifyControllerApproval c authority approval = .ok ()

variable {controller : ProjectedController}

lemma approvalController_ok {controllerId : ControllerId}
    (h : approvalController authority controllerId = .ok controller) :
    authority.activeController controllerId = some controller := by
  unfold approvalController at h
  split at h
  · rename_i found hfoun
    rw [hfoun, Except.ok.inj h]
  · split at h <;> cases h

variable {previous : Option ControllerId}

lemma validateSigner_ok {signer : ControllerId}
    (h : validateSigner c authority operation selector previous signer = .ok controller) :
    authority.activeController signer = some controller ∧
      controller.descriptor.scope.allows operation ∧
      selector.matchesController c.controllerId controller.descriptor := by
  simp only [validateSigner, bind_ok, reject_ok, pure_ok] at h
  obtain ⟨-, -, found, hfoun, -, helig, rfl⟩ := h
  exact ⟨approvalController_ok hfoun, not_not.mp helig⟩

lemma weightOf_signer {signer : ControllerId}
    (h : validateSigner c authority operation selector previous signer = .ok controller) :
    authority.weightOf signer = controller.descriptor.weight := by
  rw [Projection.weightOf, (validateSigner_ok h).1]
  rfl

variable {approvals : List SignedControllerApproval} {total weight : Nat}

lemma approvedWeight_ok {resource : String}
    (h : approvedWeight c authority operation selector resource previous approvals total =
      .ok weight) :
    (∀ approval ∈ approvals, authority.Verifies c operation selector approval) ∧
      weight = total + (approvals.map fun approval =>
        authority.weightOf approval.body.controllerId).sum := by
  induction approvals generalizing previous total with
  | nil =>
    obtain rfl : total = weight := Except.ok.inj h
    simp
  | cons approval rest ih =>
    simp only [approvedWeight, bind_ok] at h
    obtain ⟨controller, hsig, ⟨⟩, hver, next, hnext, hrest⟩ := h
    obtain ⟨hall, rfl⟩ := ih hrest
    refine ⟨List.forall_mem_cons.mpr ⟨⟨⟨previous, controller, hsig⟩, hver⟩, hall⟩, ?_⟩
    rw [List.map_cons, List.sum_cons, weightOf_signer hsig, checkedAdd_ok hnext, Nat.add_assoc]

lemma approvedWeight_of_recoveryWeight
    (h : recoveryWeight c authority operation selector previous approvals total = .ok weight) :
    approvedWeight c authority operation selector "controller recovery weight" previous approvals
      total = .ok weight := by
  induction approvals generalizing previous total with
  | nil => exact h
  | cons approval rest ih =>
    simp only [recoveryWeight, bind_ok] at h
    obtain ⟨controller, hsig, next, hnext, ⟨⟩, hver, hrest⟩ := h
    simp only [approvedWeight, bind_ok]
    exact ⟨controller, hsig, (), hver, next, hnext, ih hrest⟩

/-! ## Validated events -/

/-- The approvals of an event pass the loop of a threshold. -/
structure Projection.Passes (c : Primitives) (authority : Projection) (event : AuthorizedEvent c)
    (selector : ControllerSelector) (requiredWeight : Nat) : Prop where
  verifies : ∀ approval ∈ event.approvals.asSlice,
    authority.Verifies c event.body.operation.kind selector approval
  weight : requiredWeight ≤ (event.approvals.asSlice.map fun approval =>
    authority.weightOf approval.body.controllerId).sum

variable {time : Option Timestamp}

lemma validateRecoveryAuthority_ok {evidence : RecoveryThresholdEvidence}
    {recoveryId : RecoveryId} {decision : GuardianApprovalDecision}
    (hguar : evidence.asGuardianApprovals = none)
    (hkind : event.body.operation.kind = operation)
    (h : validateRecoveryAuthority c authority event evidence recoveryId decision operation time =
      .ok ()) :
    ∃ threshold, authority.recoveryPolicy.authority = .controllerThreshold threshold ∧
      authority.Passes c event threshold.selector threshold.requiredWeight := by
  simp only [validateRecoveryAuthority, bind_ok] at h
  obtain ⟨⟨⟩, -, h⟩ := h
  split at h
  · rename_i threshold hthr
    simp only [bind_ok, reject_ok] at h
    obtain ⟨-, -, total, htot, hreq⟩ := h
    rw [← hkind] at htot
    obtain ⟨hverif, hweig⟩ := approvedWeight_ok (approvedWeight_of_recoveryWeight htot)
    exact ⟨threshold, hthr, hverif, by omega⟩
  · simp only [bind_ok, reject_ok, okOr_ok, hguar] at h
    obtain ⟨-, -, _, hnone, -⟩ := h
    cases hnone

lemma passes_of_validateEvent {lineage : Projection} {epoch : Epoch}
    (hneeds : event.body.operation.requiresEmptyControllerApprovals = false)
    (h : validateEvent c lineage authority event epoch = .ok time) : ∃ selector requiredWeight,
      authority.requirement event.body.operation = some (selector, requiredWeight) ∧
      authority.Passes c event selector requiredWeight := by
  obtain ⟨-, -, rule, hrule, -, haut⟩ := validateEvent_ok h
  have hord (hvalid : validateApprovals c authority event rule = .ok ()) :
      authority.Passes c event rule.eligibleControllers rule.requiredWeight := by
    simp only [validateApprovals, bind_ok, reject_ok] at hvalid
    obtain ⟨total, htot, hreq⟩ := hvalid
    obtain ⟨hverif, hweig⟩ := approvedWeight_ok htot
    exact ⟨hverif, by omega⟩
  unfold validateAuthority at haut
  split at haut
  -- to begin and to cancel a recovery takes the weight of its threshold
  iterate 2
    · rename_i hop
      rw [hop] at hneeds
      obtain ⟨threshold, hthr, hpasses⟩ := validateRecoveryAuthority_ok
        (Option.not_isSome_iff_eq_none.mp (by
          simpa [AccountOperation.requiresEmptyControllerApprovals] using hneeds))
        (by rw [hop]; rfl) haut
      exact ⟨_, _, by rw [hop]; simp [Projection.requirement, hthr], hpasses⟩
  · rename_i finalize hop
    rw [hop] at hneeds
    cases hneeds
  · rename_i hbeg hcan _
    refine ⟨_, _, ?_, hord haut⟩
    unfold Projection.requirement
    split
    · rename_i begin hop
      exact absurd hop (hbeg begin)
    · rename_i cancel hop
      exact absurd hop (hcan cancel)
    · rw [hrule]
      rfl

section
variable {Signed : Bytes → Bytes → Prop} (hsigned : ∀ key signature message,
  c.verifyEd25519 key signature message = true → Signed key message)
include hsigned

lemma verifyKeys_ok {signatures : List KeyedSignature} {message : Bytes}
    {keys : List VerificationKey} (h : verifyKeys c signatures message keys = .ok ()) :
    ∀ key ∈ keys, Signed key.publicKey message := by
  induction keys with
  | nil => simp
  | cons expected rest ih =>
    simp only [verifyKeys, bind_ok, okOr_ok] at h
    obtain ⟨keyed, -, ⟨⟩, hver, hrest⟩ := h
    simp only [verifyAlgorithmSignature, bind_ok, reject_ok] at hver
    obtain ⟨-, -, hver⟩ := hver
    split at hver
    · have hfir : Signed expected.publicKey message :=
        hsigned _ _ _ (by simpa [reject_ok] using hver)
      exact List.forall_mem_cons.mpr ⟨hfir, ih hrest⟩
    · cases hver

lemma Projection.Verifies.signs {approval : SignedControllerApproval}
    (h : authority.Verifies c operation selector approval) :
    authority.Signs c Signed operation selector approval := by
  obtain ⟨⟨previous, controller, hsig⟩, hver⟩ := h
  simp only [verifyControllerApproval, verifySignatures, bind_ok, reject_ok] at hver
  obtain ⟨keys, hkeys, -, -, hver⟩ := hver
  exact ⟨⟨controller, validateSigner_ok hsig⟩, keys, hkeys, verifyKeys_ok hsigned hver⟩

lemma Projection.Passes.approves {requiredWeight : Nat} (hsound : authority.Sound c)
    (h : authority.Passes c event selector requiredWeight) :
    authority.Approves c Signed event selector requiredWeight where
  distinct := event.approvals.sorted.nodup
  signs approval happ := (h.verifies approval happ).signs hsigned
  unrevoked approval happ controller hcon := by
    obtain ⟨active, hact, -⟩ := ((h.verifies approval happ).signs hsigned).active
    obtain ⟨hmem, hid⟩ := mem_of_lookup hact
    rw [← hid]
    exact (hsound.controllers.disjoint active hmem controller hcon).symm
  subject := event.subjects
  weight := h.weight

end

/-! ## Along every history -/

namespace AccountState

/-- The projection that judges an event at its pre-state: the pre-state itself or, for a
resolution, the state that the branches of the fork have in common. -/
inductive JudgedBy (event : AuthorizedEvent c) (pre : AccountState c) : Projection → Prop where
  | linear (linear : event.body.operation.isResolveFork = false) :
      JudgedBy event pre pre.projection
  | resolution {fork : ForkProjection c} (resolves : event.body.operation.isResolveFork = true)
      (forked : pre.fork = some fork) : JudgedBy event pre fork.commonState.projection

variable {s pre post : AccountState c} {evidence : EventId → Option AdmissionEvidenceId}
  {base : Projection} {entry : LineageEntry c}

lemma Accepts.judged (h : Accepts evidence pre event base entry post) :
    ∃ judge epoch time, Retained pre judge ∧ JudgedBy event pre judge.projection ∧
      validateEvent c pre.projection judge.projection event epoch = .ok time := by
  cases h with
  | linear hproj =>
    obtain ⟨-, -, time, next, hvalid, hnext, -⟩ := Projection.applyLinear_ok hproj
    have hlin : event.body.operation.isResolveFork = false := by
      cases hop : event.body.operation with
      | resolveFork resolution => simp [Projection.applyOperation, hop] at hnext
      | _ => rfl
    exact ⟨pre, _, time, .refl pre, .linear hlin, hvalid⟩
  | resolution hproj =>
    obtain ⟨resolution, _, time, hres, hfork, -, -, -, hvalid, -⟩ :=
      projectResolution_ok hproj
    exact ⟨_, _, time, .child (mem_children_of_fork hfork List.mem_cons_self) (.refl _),
      .resolution (by rw [hres]; rfl) hfork, hvalid⟩

/-- Along every history, a newly accepted event that controllers have to approve
is approved by enough weight in the state that judges it. -/
theorem approved_of_reachable {genesis : AccountGenesis c} (Signed : Bytes → Bytes → Prop)
    (hsigned : ∀ key signature message,
      c.verifyEd25519 key signature message = true → Signed key message)
    (h : Reachable genesis s) {s' : AccountState c} {outcome : ApplyOutcome}
    (hok : s.validateAndApply event = .ok (s', outcome))
    (hnew : outcome.disposition = .applied ∨ outcome.disposition = .forkDetected)
    (hneeds : event.body.operation.requiresEmptyControllerApprovals = false) :
    ∃ pre authority selector requiredWeight, Retained s pre ∧
      pre.projection.NamedBy event.body ∧ JudgedBy event pre authority ∧
      authority.requirement event.body.operation = some (selector, requiredWeight) ∧
      authority.Approves c Signed event selector requiredWeight := by
  have hsound : All (fun t => t.projection.Sound c) s :=
    preserved_sound.preserved.all_of_reachable (sound_fromGenesis genesis) h
  obtain ⟨evidence, pre, base, entry, post, hretained, haccepts, -⟩ :=
    (new_of_disposition hok hnew).lands
  obtain ⟨judge, epoch, time, hjudge, hjudged, hvalid⟩ := haccepts.judged
  obtain ⟨selector, requiredWeight, hrequirement, hpasses⟩ :=
    passes_of_validateEvent hneeds hvalid
  exact ⟨pre, judge.projection, selector, requiredWeight, hretained, haccepts.named, hjudged,
    hrequirement, hpasses.approves hsigned (hsound judge (hretained.trans hjudge))⟩

theorem retireSuite_approved :
    (dual.validateAndApply Toy.retireSuite).toOption.map (fun result => result.2.disposition) =
        some .applied ∧
      ∃ pre authority selector requiredWeight, Retained dual pre ∧
        JudgedBy Toy.retireSuite pre authority ∧
        authority.Approves Toy.primitives
          (fun key message => ∃ signature, Toy.primitives.verifyEd25519 key signature message)
          Toy.retireSuite selector requiredWeight := by
  refine (fun hdisposition => ⟨hdisposition, ?_⟩) (by decide +kernel)
  cases hok : dual.validateAndApply Toy.retireSuite with
  | error e =>
    rw [hok] at hdisposition
    cases hdisposition
  | ok result =>
    rw [hok] at hdisposition
    have hreachable : Reachable Toy.migratingAccount dual := .deliver _ (.deliver _ .fromGenesis)
    obtain ⟨pre, authority, selector, requiredWeight, hretained, -, hjudged, -, happroves⟩ :=
      approved_of_reachable (fun key message => ∃ signature,
        Toy.primitives.verifyEd25519 key signature message) (fun _ signature _ h => ⟨signature, h⟩)
        hreachable hok (.inl (Option.some.inj hdisposition)) rfl
    exact ⟨pre, authority, selector, requiredWeight, hretained, hjudged, happroves⟩

end AccountState
end Krikos.Identity
