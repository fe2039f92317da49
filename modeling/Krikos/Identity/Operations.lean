import Krikos.Identity.Project

/-!
# Identity.Operations

What the operations of the projection do, one lemma for each function: the inversion of the checks
of `Verifier` and `Project` that the invariants are proved from.
-/

namespace Krikos.Identity

open Lib Projection List

variable {c : Primitives} {p q : Projection} {event : AuthorizedEvent c}

/-! ## Validation -/

/-- The event names the projection as the state that it follows. -/
structure Projection.NamedBy (p : Projection) (body : EventBody) : Prop where
  account : body.accountId = p.accountId
  sequence : body.sequence = p.sequence + 1
  predecessors : if p.sequence = 0 then body.predecessors.genesisAnchor = some p.genesisAnchor
    else body.predecessors.eventHeads = some p.heads

lemma validateBodyPredecessors_ok {body : EventBody}
    (h : validateBodyPredecessors p body = .ok ()) :
    if p.sequence = 0 then body.predecessors.genesisAnchor = some p.genesisAnchor
    else body.predecessors.eventHeads = some p.heads := by
  unfold validateBodyPredecessors at h
  split at h
  · rename_i hzero
    rw [if_pos hzero]
    simpa [reject_ok] using h
  · rename_i hzero
    rw [if_neg hzero]
    simpa [reject_ok] using h

variable {time : Option Timestamp} {epoch : Epoch}

lemma validateEvent_ok {lineage authority : Projection}
    (h : validateEvent c lineage authority event epoch = .ok time) :
    lineage.NamedBy event.body ∧ event.body.resultingEpoch = epoch ∧
      ∃ rule, authority.controlPolicy.ruleFor event.body.operation.kind = some rule ∧
        validateRecoveryCrypto authority event.body.operation = .ok () ∧
        validateAuthority c authority event rule time = .ok () := by
  simp only [validateEvent, bind_ok, reject_ok, okOr_ok, pure_ok] at h
  obtain ⟨-, hacc, next, hnext, -, hseq, ⟨⟩, hpred, -, hepoc, -, -, -, -, rule,
    hrule, ⟨⟩, hcry, time', -, ⟨⟩, haut, rfl⟩ := h
  have hnext := checkedAdd_ok hnext
  refine ⟨⟨not_not.mp hacc, ?_, validateBodyPredecessors_ok hpred⟩,
    not_not.mp hepoc, rule, hrule, hcry, haut⟩
  rw [not_not.mp hseq, hnext]

lemma Projection.expectedEpoch_ok {operation : AccountOperation}
    (h : p.expectedEpoch operation = .ok epoch) : p.epoch ≤ epoch := by
  unfold expectedEpoch at h
  split at h
  · rw [checkedAdd_ok h]
    exact Nat.le_succ p.epoch
  · exact (Except.ok.inj h).le

variable {evidence : EventId → Option AdmissionEvidenceId}
  {change : ProjectedDevice → Except IdentityError ProjectedDevice}

lemma Projection.applyLinear_ok (h : p.applyLinear evidence event = .ok (epoch, q)) :
    p.validateLifecycleGate event.body.operation = .ok () ∧
      p.expectedEpoch event.body.operation = .ok epoch ∧
      ∃ time next, validateEvent c p p event epoch = .ok time ∧
        p.applyOperation evidence event time = .ok next ∧
        q = { next with
          sequence := event.body.sequence
          epoch := event.body.resultingEpoch
          heads := [event.eventId] } := by
  simp only [applyLinear, bind_ok, pure_ok, Prod.mk.injEq] at h
  obtain ⟨⟨⟩, hgate, epoch', hepoc, time, hval, next, hnext, rfl, rfl⟩ := h
  exact ⟨hgate, hepoc, time, next, hval, hnext, rfl⟩

/-! ## Devices -/

/-- What an operation leaves of a device. -/
structure ProjectedDevice.Continues (device next : ProjectedDevice) : Prop where
  id : next.id = device.id
  descriptor : next.descriptor = device.descriptor
  revoked : device.lifecycle = .revoked → next.lifecycle = .revoked

lemma ProjectedDevice.Continues.refl (device : ProjectedDevice) : device.Continues device :=
  ⟨rfl, rfl, fun h => h⟩

lemma ProjectedDevice.Continues.trans {device next last : ProjectedDevice}
    (h : device.Continues next) (h' : next.Continues last) : device.Continues last :=
  ⟨h'.id.trans h.id, h'.descriptor.trans h.descriptor, fun hrev =>
    h'.revoked (h.revoked hrev)⟩

lemma Projection.modifyDevice_set {deviceId : DeviceId}
    (h : p.modifyDevice deviceId change = .ok q) :
    ∃ index next, ∃ hlt : index < p.devices.length, change p.devices[index] = .ok next ∧
      q = { p with devices := p.devices.set index next } := by
  revert h
  fun_cases modifyDevice p deviceId change with
  | case3 index hind device hdevic =>
    simp only [bind_ok, pure_ok]
    rintro ⟨next, hnext, rfl⟩
    obtain ⟨hlt, rfl⟩ := List.getElem?_eq_some_iff.mp hdevic
    exact ⟨index, next, hlt, hnext, rfl⟩
  | _ => nofun

lemma Projection.modifyDevice_ok {deviceId : DeviceId} (h : p.modifyDevice deviceId change = .ok q)
    (hchan : ∀ device next, change device = .ok next → device.Continues next) :
    ∃ devices, List.Forall₂ ProjectedDevice.Continues p.devices devices ∧
      q = { p with devices := devices } := by
  obtain ⟨index, next, hlt, hnext, rfl⟩ := modifyDevice_set h
  refine ⟨_, forall₂_iff_get.mpr ⟨by simp, fun i hi hi' => ?_⟩, rfl⟩
  by_cases hii : index = i
  · subst hii
    simpa using hchan _ _ hnext
  · simpa [getElem_set_ne hii] using ProjectedDevice.Continues.refl p.devices[i]

variable {device next : ProjectedDevice} {controllerId : ControllerId}

namespace ProjectedDevice

lemma suspend_continues : device.suspend = .ok next → device.Continues next := by
  fun_cases ProjectedDevice.suspend device with
  | case1 hact =>
    rintro ⟨⟩
    exact ⟨rfl, rfl, fun hrev => by simp [hact] at hrev⟩
  | _ => nofun

lemma reinstate_continues : device.reinstate = .ok next → device.Continues next := by
  fun_cases ProjectedDevice.reinstate device with
  | case1 hsus =>
    rintro ⟨⟩
    exact ⟨rfl, rfl, fun hrev => by simp [hsus] at hrev⟩
  | _ => nofun

lemma revoke_continues (h : device.revoke = .ok next) : device.Continues next := by
  simp only [ProjectedDevice.revoke, bind_ok, reject_ok, pure_ok] at h
  obtain ⟨-, -, rfl⟩ := h
  exact ⟨rfl, rfl, fun _ => rfl⟩

lemma retainOnly_continues (retained : List DeviceId)
    (device : ProjectedDevice) : device.Continues (device.retainOnly retained) := by
  unfold ProjectedDevice.retainOnly
  split
  · exact ⟨rfl, rfl, fun _ => rfl⟩
  · exact .refl device

end ProjectedDevice

lemma Projection.updateDeviceAuthorization_ok {update : DeviceAuthorizationUpdate}
    (h : p.updateDeviceAuthorization update epoch = .ok q) :
    ∃ devices, List.Forall₂ ProjectedDevice.Continues p.devices devices ∧
      q = { p with devices := devices } := by
  simp only [updateDeviceAuthorization, bind_ok, reject_ok] at h
  obtain ⟨-, -, h⟩ := h
  refine modifyDevice_ok h fun device next hnext => ?_
  simp only [bind_ok, reject_ok, pure_ok] at hnext
  obtain ⟨-, hlive, rfl⟩ := hnext
  exact ⟨rfl, rfl, fun hrev => absurd hrev hlive⟩

lemma Projection.authorizeDevice_ok {authorization : DeviceAuthorization}
    (hsor : SortedBy ProjectedDevice.id p.devices)
    (h : p.authorizeDevice authorization epoch = .ok q) :
    ∃ devices, SortedBy ProjectedDevice.id devices ∧
      devices.Perm (authorization.project :: p.devices) ∧ p.devices.length < MAX_DEVICES ∧
      p.validateNewDeviceDescriptor authorization.descriptor = .ok () ∧
      q = { p with devices := devices } := by
  simp only [authorizeDevice, bind_ok, reject_ok] at h
  obtain ⟨-, -, h⟩ := h
  split at h
  · obtain ⟨-, -, h⟩ := bind_ok.mp h
    cases h
  · rename_i index hind
    simp only [bind_ok, reject_ok, pure_ok] at h
    obtain ⟨⟨⟩, hnew, -, hlengt, rfl⟩ := h
    obtain ⟨hsor, hperm, -⟩ := insertIdx_search (a := authorization.project) hsor hind
    exact ⟨_, hsor, hperm, not_le.mp hlengt, hnew, rfl⟩

/-! ## Controllers -/

lemma Projection.addController_ok {descriptor : ControllerDescriptor}
    (h : p.addController c descriptor = .ok q) : ∃ migratedKey active crypto,
      p.cryptoRetainsKeyMaterial descriptor.signingKey.asBytes.val = false ∧
      p.enrollmentKey descriptor = .ok migratedKey ∧
      p.revokedController (c.controllerId descriptor) = none ∧
      (∀ controller ∈ p.controllers, controller.signingKey ≠ descriptor.signingKey) ∧
      (∀ device ∈ p.devices,
        deviceDescriptorReusesControllerKey device.descriptor descriptor.signingKey = false) ∧
      p.activeControllers.length + p.revokedControllers.length + 1 ≤ MAX_CONTROLLERS ∧
      insertNew ProjectedController.id IdentityError.storageCorruption
        ⟨c.controllerId descriptor, descriptor⟩ p.activeControllers = .ok active ∧
      p.crypto.enroll (c.controllerId descriptor) migratedKey = .ok crypto ∧
      q = { p with activeControllers := active, crypto := crypto } := by
  simp only [addController, bind_ok, reject_ok, pure_ok] at h
  obtain ⟨-, hretain, migratedKey, hkey, -, hrev, -, -, -, hsig, -, hdev, retained,
    hret, count, hcoun, -, hboun, active, hact, crypto, hcry, rfl⟩ := h
  have hcoun := checkedAdd_ok hcoun
  have hret := checkedAdd_ok hret
  refine ⟨migratedKey, active, crypto, by simpa using hretain, hkey, by simpa using hrev,
    by simpa using hsig, by simpa using hdev, by omega, hact, hcry, rfl⟩

/-- The two lists of controllers: sorted, disjoint and bounded together. -/
structure Listed (active revoked : List ProjectedController) : Prop where
  activeSorted : SortedBy ProjectedController.id active
  revokedSorted : SortedBy ProjectedController.id revoked
  disjoint : ∀ controller ∈ active, ∀ other ∈ revoked, controller.id ≠ other.id
  bounded : active.length + revoked.length ≤ MAX_CONTROLLERS

section
variable {active revoked remaining : List ProjectedController} {removed : ProjectedController}
  {revoked' : List ProjectedController}

lemma Listed.revoke (h : Listed active revoked)
    (htake : takeOut ProjectedController.id controllerId active = some (removed, remaining))
    (hins : insertNew ProjectedController.id IdentityError.storageCorruption removed revoked =
      .ok revoked') :
    Listed remaining revoked' ∧ revoked'.Perm (removed :: revoked) ∧
      active.Perm (removed :: remaining) ∧ remaining.Sublist active := by
  obtain ⟨hid, hact, hsub⟩ := takeOut_eq_some htake
  obtain ⟨hsor, hperm, -⟩ := insertNew_ok h.revokedSorted hins
  refine ⟨⟨h.activeSorted.sublist hsub, hsor, ?_, ?_⟩, hperm, hact, hsub⟩
  · intro controller hcon other hoth
    rcases mem_cons.mp (hperm.mem_iff.mp hoth) with rfl | hoth
    · have hnod := (hact.map ProjectedController.id).nodup_iff.mp h.activeSorted.nodup
      rw [map_cons, nodup_cons] at hnod
      exact fun heq => hnod.1 (heq ▸ mem_map_of_mem hcon)
    · exact h.disjoint controller (hsub.subset hcon) other hoth
  · have hlen := hact.length_eq
    have hlen' := hperm.length_eq
    have hboun := h.bounded
    simp only [length_cons] at hlen hlen'
    omega

lemma perm_of_revoke
    (hact : active.Perm (removed :: remaining)) (hrev : revoked'.Perm (removed :: revoked)) :
    (active ++ revoked).Perm (remaining ++ revoked') :=
  calc (active ++ revoked).Perm (removed :: remaining ++ revoked) := hact.append_right revoked
    _ |>.Perm (remaining ++ removed :: revoked) := perm_middle.symm
    _ |>.Perm (remaining ++ revoked') := hrev.symm.append_left remaining

end

lemma Projection.removeController_ok (h : p.removeController c controllerId = .ok q) :
    ∃ removed remaining revoked, takeOut ProjectedController.id controllerId p.activeControllers =
        some (removed, remaining) ∧
      insertNew ProjectedController.id IdentityError.storageCorruption removed
        p.revokedControllers = .ok revoked ∧
      remaining ≠ [] ∧
      ({ p with activeControllers := remaining } : Projection).validatePolicies c = .ok () ∧
      q = { p with activeControllers := remaining, revokedControllers := revoked } := by
  simp only [removeController, bind_ok, reject_ok, okOr_ok, pure_ok] at h
  obtain ⟨-, -, ⟨removed, remaining⟩, htake, -, hnon, ⟨⟩, hpol, revoked, hins, rfl⟩ := h
  exact ⟨removed, remaining, revoked, htake, hins, hnon, hpol, rfl⟩

lemma Projection.revokeControllerForResolution_ok
    (h : p.revokeControllerForResolution controllerId = .ok q) :
    q = p ∨ ∃ removed remaining revoked,
      takeOut ProjectedController.id controllerId p.activeControllers = some (removed, remaining) ∧
      insertNew ProjectedController.id IdentityError.storageCorruption removed
        p.revokedControllers = .ok revoked ∧
      q = { p with activeControllers := remaining, revokedControllers := revoked } := by
  unfold revokeControllerForResolution at h
  split at h
  · exact .inl (Except.ok.inj h).symm
  · simp only [bind_ok, okOr_ok, pure_ok] at h
    obtain ⟨⟨removed, remaining⟩, htake, revoked, hins, rfl⟩ := h
    exact .inr ⟨removed, remaining, revoked, htake, hins, rfl⟩

lemma insertRevoked_ok {revoked removed revoked' : List ProjectedController}
    (hsor : SortedBy ProjectedController.id revoked)
    (h : insertRevoked revoked removed = .ok revoked') :
    SortedBy ProjectedController.id revoked' ∧ revoked'.Perm (removed ++ revoked) := by
  induction removed generalizing revoked with
  | nil =>
    obtain rfl : revoked = revoked' := by simpa [insertRevoked] using h
    exact ⟨hsor, List.Perm.refl _⟩
  | cons controller removed ih =>
    simp only [insertRevoked, bind_ok] at h
    obtain ⟨middle, hins, h⟩ := h
    obtain ⟨hmid, hperm, -⟩ := insertNew_ok hsor hins
    obtain ⟨hsor', hperm'⟩ := ih hmid h
    refine ⟨hsor', hperm'.trans ?_⟩
    exact (hperm.append_left removed).trans perm_middle

lemma Projection.validateReplacement_ok {controllers : List ControllerDescriptor}
    (h : p.validateReplacement c controllers = .ok ()) :
    ∀ descriptor ∈ controllers, p.revokedController (c.controllerId descriptor) = none ∧
      (∀ controller ∈ p.activeControllers, controller.id ≠ c.controllerId descriptor →
        controller.signingKey ≠ descriptor.signingKey) ∧
      (∀ controller ∈ p.revokedControllers, controller.signingKey ≠ descriptor.signingKey) ∧
      ∀ device ∈ p.devices,
        deviceDescriptorReusesControllerKey device.descriptor descriptor.signingKey = false := by
  induction controllers with
  | nil => simp
  | cons descriptor controllers ih =>
    simp only [validateReplacement, bind_ok, reject_ok] at h
    obtain ⟨-, hrev, -, hact, -, hsig, -, hdev, h⟩ := h
    simp only [mem_cons, forall_eq_or_imp]
    refine ⟨⟨by simpa using hrev, ?_, by simpa using hsig, by simpa using hdev⟩, ih h⟩
    simpa using hact

lemma Projection.installRecoveryPlan_ok {plan : RecoveryAuthorityPlan}
    (h : p.installRecoveryPlan c plan = .ok q) :
    ∃ revoked, p.validateReplacement c plan.replacementControllers = .ok () ∧
      insertRevoked p.revokedControllers (p.activeControllers.filter fun controller =>
        (lookup id controller.id (plan.replacementControllers.map c.controllerId)).isNone) =
          .ok revoked ∧
      plan.replacementControllers.length + revoked.length ≤ MAX_CONTROLLERS ∧
      q = p.replacedBy c plan revoked := by
  simp only [installRecoveryPlan, bind_ok, reject_ok, pure_ok] at h
  obtain ⟨⟨⟩, hrep, revoked, hrev, count, hcoun, -, hboun, -, -, rfl⟩ := h
  have hcoun := checkedAdd_ok hcoun
  exact ⟨revoked, hrep, hrev, by omega, rfl⟩

/-! ## Recovery -/

lemma Projection.requireV1RecoveryCrypto_ok (h : p.requireV1RecoveryCrypto = .ok ()) :
    ∃ stable, p.crypto = .stable stable ∧ stable.suite = .v1 ∧ stable.migratedKeys = [] := by
  unfold requireV1RecoveryCrypto at h
  split at h
  · rename_i stable hstab
    obtain ⟨hsuit, hmig⟩ := not_not.mp (reject_ok.mp h)
    exact ⟨stable, hstab, hsuit, hmig⟩
  · cases h
  · cases h

variable {eventId : EventId}

namespace Projection

lemma beginRecovery_ok {begin : BeginRecovery} {evidence : AdmissionEvidence}
    {proposalId : ProposalId} (h : p.beginRecovery c begin evidence eventId proposalId = .ok q) :
    p.requireV1RecoveryCrypto = .ok () ∧ ∃ observation,
        PendingRecoveryObservation.fromAdmission c evidence p.recoveryPolicy = .ok observation ∧
        q = { p with
          pendingRecovery := some
            { recoveryId := begin.recoveryId
              proposal := begin.proposal
              preRecoveryControlPolicyId := p.controlPolicyId
              beginEventId := eventId
              beginProposalId := proposalId
              beginObservation := observation }
          lifecycle := .recoveryPending } := by
  simp only [beginRecovery, bind_ok, reject_ok, okOr_ok, pure_ok] at h
  obtain ⟨⟨⟩, hcry, -, -, head, -, -, -, -, -, -, -, observation, hobs, rfl⟩ := h
  exact ⟨hcry, observation, hobs, rfl⟩

lemma vetoRecovery_ok {veto : VetoRecovery} (h : p.vetoRecovery veto = .ok q) :
    p.pendingRecovery.isSome ∧ q = { p with pendingRecovery := none, lifecycle := .active } := by
  simp only [vetoRecovery, bind_ok, reject_ok, okOr_ok, pure_ok] at h
  obtain ⟨pending, hpen, -, -, -, -, rfl⟩ := h
  exact ⟨by simp [hpen], rfl⟩

lemma cancelRecovery_ok {cancel : CancelRecovery} (h : p.cancelRecovery cancel = .ok q) :
    p.pendingRecovery.isSome ∧ q = { p with pendingRecovery := none, lifecycle := .active } := by
  simp only [cancelRecovery, bind_ok, reject_ok, okOr_ok, pure_ok] at h
  obtain ⟨pending, hpen, -, -, -, -, rfl⟩ := h
  exact ⟨by simp [hpen], rfl⟩

lemma finalizeRecovery_ok {finalize : FinalizeRecovery}
    (h : p.finalizeRecovery c evidence finalize time = .ok q) : p.requireV1RecoveryCrypto = .ok () ∧
      ∃ pending elapsedAt next, p.pendingRecovery = some pending ∧
        finalize.expectedPendingRecovery = pending.recoveryId ∧
        p.validateDelayAnchor c pending finalize.delayAnchor = .ok elapsedAt ∧
        (recoveryAuthorityTime time elapsedAt ≤ pending.beginObservation.lifetimeDeadline ∧
          recoveryAuthorityTime time elapsedAt ≤ pending.proposal.plan.expiresAt) ∧
        p.installRecoveryPlan c pending.proposal.plan = .ok next ∧
        q = { next with pendingRecovery := none, lifecycle := .active } := by
  simp only [finalizeRecovery, bind_ok, reject_ok, okOr_ok, pure_ok, not_or, not_lt] at h
  obtain ⟨⟨⟩, hcry, pending, hpen, -, -, -, hexp, elapsedAt, helap, -, hstal, next, hnext, rfl⟩ := h
  exact ⟨hcry, pending, elapsedAt, next, hpen, not_not.mp hexp, helap, hstal, hnext, rfl⟩

/-! ## Cryptographic migration -/

lemma validateBindings_ok {previous : StableCrypto} {migrationId : CryptoMigrationId}
    {controllers : List ProjectedController} {bindings : List ControllerKeyBinding}
    {proofs : List ControllerKeyBindingProof} (hbin : bindings.length = controllers.length)
    (hproof : proofs.length = controllers.length)
    (h : p.validateBindings c previous migrationId controllers bindings proofs = .ok ()) :
    List.Forall₂ (fun controller binding => binding.controllerId = controller.id ∧
      migrationKeyReusesRetainedMaterial binding.newSigningKey previous p.controllers p.devices =
        false) controllers bindings := by
  induction controllers generalizing bindings proofs with
  | nil =>
    obtain rfl := eq_nil_of_length_eq_zero hbin
    exact .nil
  | cons controller controllers ih =>
    obtain ⟨binding, bindings, rfl⟩ := exists_cons_of_length_eq_add_one hbin
    obtain ⟨proof, proofs, rfl⟩ := exists_cons_of_length_eq_add_one hproof
    simp only [validateBindings, bind_ok, reject_ok] at h
    obtain ⟨-, hids, -, hreus, keys, hkeys, h⟩ := h
    split at h
    · simp only [bind_ok, reject_ok] at h
      obtain ⟨-, -, -, -, -, -, h⟩ := h
      exact .cons ⟨not_not.mp fun hne => hids (.inl hne), by simpa using hreus⟩
        (ih (Nat.succ.inj hbin) (Nat.succ.inj hproof) h)
    · cases h

/-- A migration begins from settled cryptography, to a suite that was never retired, with a new
key for every active controller. -/
lemma beginCryptoMigration_ok {begin : BeginCryptoMigration}
    (h : p.beginCryptoMigration c begin eventId = .ok q) : ∃ previous, p.crypto = .stable previous ∧
      begin.migration.fromSuiteId = c.cryptoSuiteId previous.suite ∧
      (∀ retired ∈ previous.retiredSuites,
        retired.suiteId ≠ c.cryptoSuiteId begin.migration.toSuite) ∧
      List.Forall₂ (fun controller binding => binding.controllerId = controller.id ∧
        migrationKeyReusesRetainedMaterial binding.newSigningKey previous p.controllers
          p.devices = false) p.activeControllers begin.migration.bindings ∧
      q = { p with
        crypto := .candidate previous begin.migration eventId
        lifecycle := .migrationPending } := by
  unfold beginCryptoMigration at h
  split at h
  · rename_i previous hstab
    simp only [bind_ok, reject_ok, pure_ok] at h
    obtain ⟨-, -, -, hsuit, -, hretir, -, -, -, -, -, -, -, hleng, ⟨⟩, hbin, rfl⟩ := h
    simp only [not_or, not_not] at hleng
    exact ⟨previous, hstab, not_not.mp hsuit, by simpa using hretir,
      validateBindings_ok hleng.1 hleng.2 hbin, rfl⟩
  · cases h
  · cases h

lemma activateCryptoMigration_ok {activate : ActivateCryptoMigration}
    (h : p.activateCryptoMigration c activate eventId = .ok q) :
    ∃ previous migration beginEventId, p.crypto = .candidate previous migration beginEventId ∧
      q = { p with
        crypto := .dual previous migration beginEventId eventId
        lifecycle := .migrationDual } := by
  unfold activateCryptoMigration at h
  split at h
  · rename_i previous migration beginEventId hcan
    simp only [bind_ok, reject_ok, pure_ok] at h
    obtain ⟨-, -, rfl⟩ := h
    exact ⟨previous, migration, beginEventId, hcan, rfl⟩
  · cases h
  · cases h

/-- A migration ends by returning to the suite that it was to leave, or by retiring it. -/
lemma retireCryptoSuite_ok {retire : RetireCryptoSuite}
    (h : p.retireCryptoSuite c retire epoch = .ok q) :
    (∃ previous migration beginEventId, p.crypto = .candidate previous migration beginEventId ∧
      q = { p with crypto := .stable previous, lifecycle := .active }) ∨
    ∃ previous migration beginEventId activationEventId retirement lifecycle,
      p.crypto = .dual previous migration beginEventId activationEventId ∧
      retire.mode = .retirePrevious ∧
      q = { p with
        crypto := .stable (previous.retire c migration p.controllers epoch)
        retirement := retirement
        lifecycle := lifecycle } := by
  unfold retireCryptoSuite at h
  split at h
  · rename_i previous migration beginEventId hcan _
    simp only [bind_ok, reject_ok, pure_ok] at h
    obtain ⟨-, -, rfl⟩ := h
    exact .inl ⟨previous, migration, beginEventId, hcan, rfl⟩
  · rename_i previous migration beginEventId activationEventId hdual hmode
    obtain ⟨-, -, h⟩ := bind_ok.mp h
    split at h
    · obtain rfl := pure_ok.mp h
      exact .inr ⟨previous, migration, _, _, _, _, hdual, hmode, rfl⟩
    · obtain rfl := pure_ok.mp h
      exact .inr ⟨previous, migration, _, _, p.retirement, _, hdual, hmode, rfl⟩
  · cases h

end Projection

end Krikos.Identity
