import Krikos.Identity.Retained

/-!
# Identity.Sound

The invariant of the projection: the controllers are two sorted disjoint lists within their limit,
the devices one sorted list within theirs, and the active controllers can meet the policies. Every
retained projection has it, and every accepted event takes the projection that it acts on forward:
nothing revoked comes back, the sequence grows and the epoch does not shrink.
-/

namespace Krikos.Identity

open Lib List Projection

variable {c : Primitives} {p q : Projection} {event : AuthorizedEvent c}
  {evidence : EventId → Option AdmissionEvidenceId}

/-! ## The invariant -/

/-- The active controllers can meet the policies. The control rules of the recovery operations are
left out: they only gate recovery, which the recovery policy authorizes. -/
structure Meets (c : Primitives) (active : List ProjectedController) (control : ControlPolicy)
    (recovery : RecoveryPolicy) : Prop where
  nonempty : active ≠ []
  control : control.Satisfiable c.controllerId (active.map ProjectedController.descriptor)
  recovery : recovery.Satisfiable c.controllerId (active.map ProjectedController.descriptor)

structure DevicesListed (devices : List ProjectedDevice) : Prop where
  sorted : SortedBy ProjectedDevice.id devices
  bounded : devices.length ≤ MAX_DEVICES

structure Projection.Sound (c : Primitives) (p : Projection) : Prop where
  controllers : Listed p.activeControllers p.revokedControllers
  meets : Meets c p.activeControllers p.controlPolicy p.recoveryPolicy
  devices : DevicesListed p.devices
  plan : ∀ pending, p.pendingRecovery = some pending → pending.proposal.plan.Valid c

/-- Nothing revoked comes back. -/
structure Projection.KeepsRevoked (p q : Projection) : Prop where
  controllers : p.revokedControllers ⊆ q.revokedControllers
  devices : ∀ device ∈ p.devices, ∃ next ∈ q.devices, device.Continues next

/-- The way from the projection that an event acts on to the one that it produces. -/
structure Projection.Advances (p q : Projection) : Prop where
  revoked : p.KeepsRevoked q
  sequence : p.sequence < q.sequence
  epoch : p.epoch ≤ q.epoch

namespace Projection.KeepsRevoked

lemma trans {r : Projection} (h : p.KeepsRevoked q) (h' : q.KeepsRevoked r) : p.KeepsRevoked r := by
  refine ⟨fun _ hc => h'.controllers (h.controllers hc), fun device hdev => ?_⟩
  obtain ⟨middle, hmid, hcont⟩ := h.devices device hdev
  obtain ⟨next, hnext, hcont'⟩ := h'.devices middle hmid
  exact ⟨next, hnext, hcont.trans hcont'⟩

end Projection.KeepsRevoked

/-! ## Devices -/

lemma sortedBy_of_map_eq {α κ : Type} [LinearOrder κ] {key : α → κ} {l m : List α}
    (h : m.map key = l.map key) (hl : SortedBy key l) : SortedBy key m :=
  pairwise_map.mp (h ▸ pairwise_map.mpr hl)

section Devices

variable {devices next : List ProjectedDevice}

lemma DevicesListed.continues (h : DevicesListed devices)
    (hnext : List.Forall₂ ProjectedDevice.Continues devices next) : DevicesListed next := by
  have hids : next.map ProjectedDevice.id = devices.map ProjectedDevice.id := by
    induction hnext with
    | nil => rfl
    | cons hdev _ ih =>
      have hsub : DevicesListed _ := ⟨h.sorted.of_cons, (Nat.le_succ _).trans h.bounded⟩
      rw [map_cons, map_cons, hdev.id, ih hsub]
  exact ⟨sortedBy_of_map_eq hids h.sorted, hnext.length_eq ▸ h.bounded⟩

lemma forall₂_continues_trans {last : List ProjectedDevice}
    (h : List.Forall₂ ProjectedDevice.Continues devices next)
    (h' : List.Forall₂ ProjectedDevice.Continues next last) :
    List.Forall₂ ProjectedDevice.Continues devices last := by
  induction h generalizing last with
  | nil => exact h'
  | cons hdev _ ih =>
    cases h' with
    | cons hdev' hrest => exact .cons (hdev.trans hdev') (ih hrest)

end Devices

/-- What the invariant needs of an operation: it keeps the invariant and everything revoked. -/
structure Projection.Safe (c : Primitives) (p q : Projection) : Prop where
  sound : p.Sound c → q.Sound c
  revoked : p.Sound c → p.KeepsRevoked q

namespace Projection.Safe

lemma trans {r : Projection} (h : p.Safe c q) (h' : q.Safe c r) : p.Safe c r :=
  ⟨fun hp => h'.sound (h.sound hp), fun hp => (h.revoked hp).trans (h'.revoked (h.sound hp))⟩

lemma of_same (hact : q.activeControllers = p.activeControllers)
    (hrev : q.revokedControllers = p.revokedControllers) (hdevic : q.devices = p.devices)
    (hmeets : Meets c p.activeControllers p.controlPolicy p.recoveryPolicy →
      Meets c q.activeControllers q.controlPolicy q.recoveryPolicy)
    (hpen : ∀ pending, q.pendingRecovery = some pending →
      p.pendingRecovery = some pending ∨ pending.proposal.plan.Valid c) : p.Safe c q := by
  refine ⟨fun h => ⟨?_, ?_, ?_, ?_⟩, fun _ => ⟨?_, ?_⟩⟩
  · rw [hact, hrev]
    exact h.controllers
  · exact hmeets h.meets
  · rw [hdevic]
    exact h.devices
  · intro pending hq
    rcases hpen pending hq with hp | hval
    · exact h.plan pending hp
    · exact hval
  · rw [hrev]
    exact fun _ hc => hc
  · rw [hdevic]
    exact fun device hdev => ⟨device, hdev, .refl device⟩

lemma of_devices {devices : List ProjectedDevice}
    (hlis : DevicesListed p.devices → DevicesListed devices)
    (hcon : ∀ device ∈ p.devices, ∃ next ∈ devices, device.Continues next) :
    p.Safe c { p with devices := devices } :=
  ⟨fun h => ⟨h.controllers, h.meets, hlis h.devices, h.plan⟩,
    fun _ => ⟨fun _ hc => hc, hcon⟩⟩

lemma of_forall₂ {devices : List ProjectedDevice}
    (h : List.Forall₂ ProjectedDevice.Continues p.devices devices) :
    p.Safe c { p with devices := devices } :=
  of_devices (fun hlis => hlis.continues h) fun _ hdev => exists_of_forall₂ h hdev

variable {epoch : Epoch}

lemma authorizeDevice {authorization : DeviceAuthorization}
    (h : p.authorizeDevice authorization epoch = .ok q) : p.Safe c q := by
  constructor
  · intro hp
    obtain ⟨devices, hsor, hperm, hlen, -, rfl⟩ :=
      authorizeDevice_ok hp.devices.sorted h
    refine ⟨hp.controllers, hp.meets, ⟨hsor, ?_⟩, hp.plan⟩
    rw [hperm.length_eq]
    exact hlen
  · intro hp
    obtain ⟨devices, -, hperm, -, -, rfl⟩ := authorizeDevice_ok hp.devices.sorted h
    refine ⟨fun _ hc => hc, fun device hdev => ⟨device, ?_, .refl device⟩⟩
    exact hperm.mem_iff.mpr (mem_cons_of_mem _ hdev)

/-! ## Controllers and policies -/

lemma addController {descriptor : ControllerDescriptor}
    (h : p.addController c descriptor = .ok q) : p.Safe c q := by
  obtain ⟨_, active, crypto, -, -, hrev, -, -, hboun, hins, -, rfl⟩ :=
    addController_ok h
  refine ⟨fun hp => ?_, fun _ => ⟨fun _ hc => hc, fun device hd => ⟨device, hd, .refl device⟩⟩⟩
  obtain ⟨hsor, hperm, hsub, -⟩ := insertNew_ok hp.controllers.activeSorted hins
  refine ⟨⟨hsor, hp.controllers.revokedSorted, ?_, ?_⟩, ?_, hp.devices, hp.plan⟩
  · intro controller hcontrol other hoth
    rcases mem_cons.mp (hperm.mem_iff.mp hcontrol) with rfl | hold
    · exact (lookup_eq_none hp.controllers.revokedSorted hrev hoth).symm
    · exact hp.controllers.disjoint controller hold other hoth
  · have hlen := hperm.length_eq
    simp only [length_cons] at hlen
    show active.length + p.revokedControllers.length ≤ MAX_CONTROLLERS
    omega
  · refine ⟨?_, hp.meets.control.mono (hsub.map _), hp.meets.recovery.mono (hsub.map _)⟩
    exact ne_nil_of_length_pos (hperm.length_eq ▸ Nat.succ_pos _)

lemma validatePolicies_ok (h : p.validatePolicies c = .ok ()) (hnon : p.activeControllers ≠ []) :
    Meets c p.activeControllers p.controlPolicy p.recoveryPolicy := by
  simp only [validatePolicies, bind_ok] at h
  obtain ⟨⟨⟩, hcontr, hrec⟩ := h
  exact ⟨hnon, ControlPolicy.satisfiable_of_validate hcontr,
    RecoveryPolicy.satisfiable_of_validate hrec⟩

lemma removeController {controllerId : ControllerId}
    (h : p.removeController c controllerId = .ok q) : p.Safe c q := by
  obtain ⟨removed, remaining, revoked, htake, hins, hnon, hpol, rfl⟩ :=
    removeController_ok h
  constructor
  · intro hp
    exact ⟨(hp.controllers.revoke htake hins).1, validatePolicies_ok hpol hnon, hp.devices, hp.plan⟩
  · intro hp
    obtain ⟨-, hperm, -, -⟩ := hp.controllers.revoke htake hins
    exact ⟨fun _ hc => hperm.mem_iff.mpr (mem_cons_of_mem _ hc),
      fun device hd => ⟨device, hd, .refl device⟩⟩

/-! ## Recovery -/

lemma descriptors_map (c : Primitives) (controllers : List ControllerDescriptor) :
    (controllers.map fun descriptor =>
      (⟨c.controllerId descriptor, descriptor⟩ : ProjectedController)).map
        ProjectedController.descriptor = controllers := by
  rw [map_map]
  exact map_id controllers

variable {plan : RecoveryAuthorityPlan}

lemma listed_of_plan {revoked : List ProjectedController}
    (hval : plan.Valid c) (hp : Listed p.activeControllers p.revokedControllers)
    (hrep : p.validateReplacement c plan.replacementControllers = .ok ())
    (hrev : insertRevoked p.revokedControllers (p.activeControllers.filter fun controller =>
      (lookup id controller.id (plan.replacementControllers.map c.controllerId)).isNone) =
        .ok revoked)
    (hboun : plan.replacementControllers.length + revoked.length ≤ MAX_CONTROLLERS) :
    Listed (plan.replacementControllers.map fun descriptor =>
      ⟨c.controllerId descriptor, descriptor⟩) revoked := by
  obtain ⟨hsor, hperm⟩ := insertRevoked_ok hp.revokedSorted hrev
  have hids : SortedBy id (plan.replacementControllers.map c.controllerId) :=
    pairwise_map.mpr hval.sorted
  refine ⟨pairwise_map.mpr hval.sorted, hsor, ?_, by simpa using hboun⟩
  intro controller hcontrol other hoth
  obtain ⟨descriptor, hdesc, rfl⟩ := mem_map.mp hcontrol
  rcases mem_append.mp (hperm.mem_iff.mp hoth) with hrem | hold
  · -- A removed controller is not among the replacements.
    have hnone := Option.isNone_iff_eq_none.mp (mem_filter.mp hrem).2
    have hne := lookup_eq_none hids hnone (mem_map_of_mem hdesc)
    exact hne
  · have hnone := (validateReplacement_ok hrep descriptor hdesc).1
    exact (lookup_eq_none hp.revokedSorted hnone hold).symm

lemma installRecoveryPlan (hval : plan.Valid c)
    (h : p.installRecoveryPlan c plan = .ok q) : p.Safe c q := by
  obtain ⟨revoked, hrep, hrev, hboun, rfl⟩ := installRecoveryPlan_ok h
  have hcon : List.Forall₂ ProjectedDevice.Continues p.devices
      (p.devices.map (ProjectedDevice.retainOnly plan.retainedDevices)) := by
    refine forall₂_map_right_iff.mpr (forall₂_same.mpr fun device _ => ?_)
    exact ProjectedDevice.retainOnly_continues plan.retainedDevices device
  have hdes := descriptors_map c plan.replacementControllers
  unfold replacedBy
  constructor
  · intro hp
    refine ⟨listed_of_plan hval hp.controllers hrep hrev hboun,
      ⟨by simpa using hval.nonempty, ?_, ?_⟩, hp.devices.continues hcon, hp.plan⟩
    · rw [hdes]
      exact ControlPolicy.satisfiable_of_validate hval.satisfiable
    · rw [hdes]
      exact RecoveryPolicy.satisfiable_of_validate hval.recoverable
  · intro hp
    obtain ⟨-, hperm⟩ := insertRevoked_ok hp.controllers.revokedSorted hrev
    exact ⟨fun _ hc => hperm.mem_iff.mpr (mem_append_right _ hc),
      fun device hdev => exists_of_forall₂ hcon hdev⟩

variable {time : Option Timestamp}

lemma finalizeRecovery {evidence : EventId → Option AdmissionEvidenceId}
    {finalize : FinalizeRecovery}
    (h : p.finalizeRecovery c evidence finalize time = .ok q) : p.Safe c q := by
  obtain ⟨-, pending, _, next, hpen, -, -, -, hinstal, rfl⟩ :=
    finalizeRecovery_ok h
  have hinst (hp : p.Sound c) : p.Safe c next :=
    installRecoveryPlan (hp.plan pending hpen) hinstal
  have hclear : next.Safe c { next with pendingRecovery := none, lifecycle := .active } :=
    of_same rfl rfl rfl id nofun
  exact ⟨fun hp => ((hinst hp).trans hclear).sound hp,
    fun hp => ((hinst hp).trans hclear).revoked hp⟩

end Safe

/-! ## All operations -/

/-- Controllers, devices and keys stay, and the policies can be met as before. -/
structure SameKeys (c : Primitives) (p q : Projection) : Prop where
  active : q.activeControllers = p.activeControllers
  revoked : q.revokedControllers = p.revokedControllers
  devices : q.devices = p.devices
  crypto : q.crypto = p.crypto
  meets : Meets c p.activeControllers p.controlPolicy p.recoveryPolicy →
    Meets c q.activeControllers q.controlPolicy q.recoveryPolicy

/-- What an accepted operation does to the projection. -/
inductive Changes (p : Projection) (event : AuthorizedEvent c) (q : Projection) : Prop
  | devices {devices : List ProjectedDevice}
      (hdev : List.Forall₂ ProjectedDevice.Continues p.devices devices)
      (hq : q = { p with devices := devices })
  /-- A device is authorized, maybe in the place of one that is revoked. -/
  | authorization {devices : List ProjectedDevice} {authorization : DeviceAuthorization}
      {epoch : Epoch} (hdev : List.Forall₂ ProjectedDevice.Continues p.devices devices)
      (h : Projection.authorizeDevice { p with devices := devices } authorization epoch = .ok q)
  | addController {descriptor : ControllerDescriptor} (h : p.addController c descriptor = .ok q)
  | removeController {controllerId : ControllerId} (h : p.removeController c controllerId = .ok q)
  | settings (hsame : p.SameKeys c q) (hpending : q.pendingRecovery = p.pendingRecovery)
  | recovery (hop : (∃ begin, event.body.operation = .beginRecovery begin) ∨
        (∃ veto, event.body.operation = .vetoRecovery veto) ∨
        ∃ cancel, event.body.operation = .cancelRecovery cancel)
      (hsame : p.SameKeys c q)
      (hplan : ∀ pending, q.pendingRecovery = some pending → pending.proposal.plan.Valid c)
  | finalizeRecovery {evidence : EventId → Option AdmissionEvidenceId}
      {finalize : FinalizeRecovery} {time : Option Timestamp}
      (hop : event.body.operation = .finalizeRecovery finalize)
      (h : p.finalizeRecovery c evidence finalize time = .ok q)
  | beginCryptoMigration {begin : BeginCryptoMigration} {eventId : EventId}
      (hop : event.body.operation = .beginCryptoMigration begin)
      (h : p.beginCryptoMigration c begin eventId = .ok q)
  | activateCryptoMigration {activate : ActivateCryptoMigration} {eventId : EventId}
      (h : p.activateCryptoMigration c activate eventId = .ok q)
  | retireCryptoSuite {retire : RetireCryptoSuite} {epoch : Epoch}
      (hop : event.body.operation = .retireCryptoSuite retire)
      (h : p.retireCryptoSuite c retire epoch = .ok q)

lemma applyOperation_changes {evidence : EventId → Option AdmissionEvidenceId}
    {time : Option Timestamp} (h : p.applyOperation evidence event time = .ok q) :
    p.Changes event q := by
  have hmodify : ∀ {deviceId change}, p.modifyDevice deviceId change = .ok q →
      (∀ device next, change device = .ok next → device.Continues next) → p.Changes event q := by
    intro deviceId change hmod hchan
    obtain ⟨devices, hdev, hq⟩ := modifyDevice_ok hmod hchan
    exact .devices hdev hq
  unfold applyOperation at h
  split at h
  · exact .authorization (forall₂_same.mpr fun device _ => .refl device) h
  · obtain ⟨devices, hdev, hq⟩ := updateDeviceAuthorization_ok h
    exact .devices hdev hq
  · refine hmodify h fun device next hnext => ?_
    obtain rfl := Except.ok.inj hnext
    exact ⟨rfl, rfl, fun hrev => hrev⟩
  · exact hmodify h fun _ _ => ProjectedDevice.suspend_continues
  · exact hmodify h fun _ _ => ProjectedDevice.reinstate_continues
  · exact hmodify h fun _ _ => ProjectedDevice.revoke_continues
  · obtain ⟨middle, hmid, h⟩ := bind_ok.mp h
    obtain ⟨devices, hdev, rfl⟩ :=
      modifyDevice_ok hmid fun _ _ => ProjectedDevice.revoke_continues
    exact .authorization hdev h
  · exact .addController h
  · exact .removeController h
  · simp only [changeControlPolicy, bind_ok, pure_ok] at h
    obtain ⟨⟨⟩, hpolic, rfl⟩ := h
    refine .settings ⟨rfl, rfl, rfl, rfl, fun hmeets => ?_⟩ rfl
    exact ⟨hmeets.nonempty, ControlPolicy.satisfiable_of_validate hpolic, hmeets.recovery⟩
  · simp only [changeRecoveryPolicy, bind_ok, reject_ok, pure_ok] at h
    obtain ⟨-, -, -, -, ⟨⟩, hpolic, rfl⟩ := h
    refine .settings ⟨rfl, rfl, rfl, rfl, fun hmeets => ?_⟩ rfl
    exact ⟨hmeets.nonempty, hmeets.control, RecoveryPolicy.satisfiable_of_validate hpolic⟩
  · simp only [changeProviderPolicy, bind_ok, reject_ok, pure_ok] at h
    obtain ⟨-, -, -, -, rfl⟩ := h
    exact .settings ⟨rfl, rfl, rfl, rfl, id⟩ rfl
  · rename_i begin hop
    obtain ⟨-, observation, -, rfl⟩ := beginRecovery_ok h
    have hval := event.planValid
    rw [hop] at hval
    refine .recovery (.inl ⟨begin, hop⟩) ⟨rfl, rfl, rfl, rfl, id⟩ fun pending hpen => ?_
    obtain rfl := Option.some.inj hpen
    exact hval
  · rename_i veto hop
    rw [(vetoRecovery_ok h).2]
    exact .recovery (.inr (.inl ⟨veto, hop⟩)) ⟨rfl, rfl, rfl, rfl, id⟩ nofun
  · rename_i cancel hop
    rw [(cancelRecovery_ok h).2]
    exact .recovery (.inr (.inr ⟨cancel, hop⟩)) ⟨rfl, rfl, rfl, rfl, id⟩ nofun
  · rename_i finalize hop
    exact .finalizeRecovery hop h
  · cases h
  · rename_i begin hop
    exact .beginCryptoMigration hop h
  · exact .activateCryptoMigration h
  · rename_i retire hop
    exact .retireCryptoSuite hop h
  · simp only [upgradeProtocol, bind_ok, reject_ok, pure_ok] at h
    obtain ⟨-, -, rfl⟩ := h
    exact .settings ⟨rfl, rfl, rfl, rfl, id⟩ rfl
  · obtain rfl := Except.ok.inj h
    exact .settings ⟨rfl, rfl, rfl, rfl, id⟩ rfl

namespace Safe

lemma applyOperation {time : Option Timestamp}
    (h : p.applyOperation evidence event time = .ok q) : p.Safe c q := by
  cases applyOperation_changes h with
  | devices hdev hq =>
    rw [hq]
    exact of_forall₂ hdev
  | authorization hdev h => exact (of_forall₂ hdev).trans (authorizeDevice h)
  | addController h => exact addController h
  | removeController h => exact removeController h
  | settings hsame hpending =>
    refine of_same hsame.active hsame.revoked hsame.devices hsame.meets fun _ hpen => .inl ?_
    rw [← hpending, hpen]
  | recovery hop hsame hplan =>
    exact of_same hsame.active hsame.revoked hsame.devices hsame.meets
      fun _ hpen => .inr (hplan _ hpen)
  | finalizeRecovery hop h => exact finalizeRecovery h
  | beginCryptoMigration hop h =>
    obtain ⟨previous, -, -, -, -, rfl⟩ := beginCryptoMigration_ok h
    exact of_same rfl rfl rfl id fun _ hpen => .inl hpen
  | activateCryptoMigration h =>
    obtain ⟨previous, migration, beginEventId, -, rfl⟩ := activateCryptoMigration_ok h
    exact of_same rfl rfl rfl id fun _ hpen => .inl hpen
  | retireCryptoSuite hop h =>
    rcases retireCryptoSuite_ok h with
      ⟨previous, migration, beginEventId, -, rfl⟩ | ⟨previous, migration, _, _, _, _, -, -, rfl⟩
    · exact of_same rfl rfl rfl id fun _ hpen => .inl hpen
    · exact of_same rfl rfl rfl id fun _ hpen => .inl hpen

variable {epoch : Epoch} {resolution : ResolveFork}

lemma applyLinear (h : p.applyLinear evidence event = .ok (epoch, q)) : p.Safe c q := by
  obtain ⟨-, -, time, next, -, hnext, rfl⟩ := applyLinear_ok h
  exact (applyOperation hnext).trans (of_same rfl rfl rfl id fun _ hpen => .inl hpen)

/-! ## Resolution -/

lemma revokeControllersForResolution {controllerIds : List ControllerId}
    (h : p.revokeControllersForResolution controllerIds = .ok q) :
    ∃ active revoked, active ⊆ p.activeControllers ∧
      (Listed p.activeControllers p.revokedControllers → Listed active revoked ∧
        p.revokedControllers ⊆ revoked ∧ p.controllers.Perm (active ++ revoked)) ∧
      q = { p with activeControllers := active, revokedControllers := revoked } := by
  induction controllerIds generalizing p with
  | nil =>
    obtain rfl : p = q := by simpa [revokeControllersForResolution] using h
    exact ⟨_, _, Subset.refl _, fun hp => ⟨hp, Subset.refl _, .refl _⟩, rfl⟩
  | cons controllerId controllerIds ih =>
    simp only [revokeControllersForResolution, bind_ok] at h
    obtain ⟨middle, hmid, h⟩ := h
    rcases revokeControllerForResolution_ok hmid with
      rfl | ⟨removed, remaining, revoked, htake, hins, rfl⟩
    · exact ih h
    · obtain ⟨active, last, hsub, hrest, rfl⟩ := ih h
      have hleft := (takeOut_eq_some htake).2.2.subset
      refine ⟨active, last, fun _ hc => hleft (hsub hc), fun hp => ?_, rfl⟩
      obtain ⟨hlis, hrev, hact, -⟩ := hp.revoke htake hins
      obtain ⟨hlast, hkeep, hperm⟩ := hrest hlis
      refine ⟨hlast, fun _ hc => hkeep ?_, (perm_of_revoke hact hrev).trans hperm⟩
      exact hrev.mem_iff.mpr (mem_cons_of_mem _ hc)

lemma revokeDevicesForResolution {deviceIds : List DeviceId}
    (h : p.revokeDevicesForResolution deviceIds = .ok q) :
    ∃ devices, List.Forall₂ ProjectedDevice.Continues p.devices devices ∧
      q = { p with devices := devices } := by
  induction deviceIds generalizing p with
  | nil =>
    obtain rfl : p = q := by simpa [revokeDevicesForResolution] using h
    exact ⟨p.devices, forall₂_same.mpr fun device _ => .refl device, rfl⟩
  | cons deviceId deviceIds ih =>
    simp only [revokeDevicesForResolution, bind_ok] at h
    obtain ⟨middle, hmid, h⟩ := h
    have hrevok : ∀ device next : ProjectedDevice,
        (.ok { device with lifecycle := .revoked } : Except IdentityError ProjectedDevice) =
          .ok next → device.Continues next := by
      intro device next hnext
      obtain rfl := Except.ok.inj hnext
      exact ⟨rfl, rfl, fun _ => rfl⟩
    obtain ⟨devices, hdevic, rfl⟩ := modifyDevice_ok hmid hrevok
    obtain ⟨devices', hdevic', rfl⟩ := ih h
    exact ⟨devices', forall₂_continues_trans hdevic hdevic', rfl⟩

lemma applyResolution_ok (h : p.applyResolution resolution event = .ok q) :
    ∃ active revoked devices, active ⊆ p.activeControllers ∧
      List.Forall₂ ProjectedDevice.Continues p.devices devices ∧
      (Listed p.activeControllers p.revokedControllers → Listed active revoked ∧
        p.revokedControllers ⊆ revoked ∧ p.controllers.Perm (active ++ revoked)) ∧
      active ≠ [] ∧ q.validatePolicies c = .ok () ∧
      q = { p with
        activeControllers := active
        revokedControllers := revoked
        devices := devices
        sequence := event.body.sequence
        epoch := event.body.resultingEpoch
        heads := [event.eventId] } := by
  simp only [Projection.applyResolution, bind_ok, reject_ok, pure_ok] at h
  obtain ⟨middle, hcon, last, hdevic, -, hnon, ⟨⟩, hpol, rfl⟩ := h
  obtain ⟨active, revoked, hsub, hlis, rfl⟩ := revokeControllersForResolution hcon
  obtain ⟨devices, hcont, rfl⟩ := revokeDevicesForResolution hdevic
  exact ⟨active, revoked, devices, hsub, hcont, hlis, hnon, hpol, rfl⟩

lemma applyResolution (h : p.applyResolution resolution event = .ok q) : p.Safe c q := by
  obtain ⟨_, _, _, -, hcon, hlis, hnon, hpol, rfl⟩ := applyResolution_ok h
  refine ⟨fun hp => ?_, fun hp => ?_⟩
  · exact ⟨(hlis hp.controllers).1, validatePolicies_ok hpol hnon, hp.devices.continues hcon, hp.plan⟩
  · exact ⟨(hlis hp.controllers).2.1, fun device hd => exists_of_forall₂ hcon hd⟩

end Projection.Safe

/-! ## Every history -/

lemma preserved_sound : AccountState.ProjectionPreserved c (Projection.Sound c) where
  linear hp h := (Projection.Safe.applyLinear h).sound hp
  resolution hp _ h := (Projection.Safe.applyResolution h).sound hp
  moved _ _ hp := ⟨hp.controllers, hp.meets, hp.devices, hp.plan⟩
  forked hp := ⟨hp.controllers, hp.meets, hp.devices, hp.plan⟩

lemma sound_fromGenesis (genesis : AccountGenesis c) :
    (AccountState.fromGenesis genesis).projection.Sound c := by
  have hdes := Projection.Safe.descriptors_map c genesis.initialControllers
  refine ⟨⟨pairwise_map.mpr genesis.sorted, .nil, fun _ _ _ h => ?_, ?_⟩, ⟨?_, ?_, ?_⟩,
    ⟨.nil, Nat.zero_le _⟩, fun _ h => ?_⟩
  · cases h
  · simpa [AccountState.fromGenesis] using genesis.bounded
  · simpa [AccountState.fromGenesis] using genesis.nonempty
  · have hmet := ControlPolicy.satisfiable_of_validate genesis.satisfiable
    rwa [← hdes] at hmet
  · have hmet := RecoveryPolicy.satisfiable_of_validate genesis.recoverable
    rwa [← hdes] at hmet
  · cases h

namespace AccountState
variable {s s' pre post : AccountState c} {entry : LineageEntry c} {base : Projection}

/-- The position of a fork is the furthest of its branches. -/
def Positioned (s : AccountState c) : Prop :=
  ∀ fork, s.fork = some fork → maximumSequence fork.branches = some s.projection.sequence

lemma preserved_positioned : Preserved (Positioned (c := c)) where
  lineage _ _ _ hs := hs
  detached _ _ hfork := by cases hfork
  linear _ _ _ hfork := by cases hfork
  resolution _ _ _ _ hfork := by cases hfork
  opened _ hmax fork hfork := by
    obtain rfl := Option.some.inj hfork
    exact hmax
  extended _ hmax fork hfork := by
    obtain rfl := Option.some.inj hfork
    exact hmax
  replayed merged hs hsome fork hfork := by
    obtain rfl := Option.some.inj hfork
    rw [← hs _ hsome, maximumSequence, maximumSequence, map_map]
    rfl

variable {branches : List (ForkBranch c)}

lemma le_of_max? {value : ForkBranch c → Nat} {maximum : Nat}
    (h : (branches.map value).max? = some maximum) {branch : ForkBranch c}
    (hbranch : branch ∈ branches) : value branch ≤ maximum :=
  (max?_eq_some_iff.mp h).2 _ (mem_map_of_mem hbranch)

lemma Accepts.advances (h : Accepts evidence pre event base entry post)
    (hbase : base.Sound c) (hpre : pre.Positioned) : base.Advances post.projection := by
  cases h with
  | linear hproj =>
    obtain ⟨-, hepoc, time, next, hval, -, hp⟩ := applyLinear_ok hproj
    obtain ⟨hnam, hres, -⟩ := validateEvent_ok hval
    refine ⟨(Projection.Safe.applyLinear hproj).revoked hbase, ?_, ?_⟩
    · show pre.projection.sequence < _
      rw [hp]
      show _ < event.body.sequence
      rw [hnam.sequence]
      exact Nat.lt_succ_self _
    · show pre.projection.epoch ≤ _
      rw [hp]
      show _ ≤ event.body.resultingEpoch
      rw [hres]
      exact expectedEpoch_ok hepoc
  | resolution hproj =>
    obtain ⟨resolution, maximum, time, -, hfork, hsel, hmax, hepoc, hval, hp⟩ :=
      projectResolution_ok hproj
    have hsel := mem_of_find?_eq_some hsel
    obtain ⟨hnam, hres, -⟩ := validateEvent_ok hval
    refine ⟨(Projection.Safe.applyResolution hp).revoked hbase, ?_, ?_⟩
    all_goals
      simp only [applyResolution, bind_ok, reject_ok, pure_ok] at hp
      obtain ⟨_, -, _, -, -, -, -, -, rfl⟩ := hp
    · have hle := le_of_max? (hpre _ hfork) hsel
      show _ < event.body.sequence
      rw [hnam.sequence]
      exact Nat.lt_succ_of_le hle
    · have hle := le_of_max? hmax hsel
      have hnext := checkedAdd_ok hepoc
      show _ ≤ event.body.resultingEpoch
      rw [hres, hnext]
      exact hle.trans (Nat.le_succ maximum)

lemma Accepts.base_of_all {P : Projection → Prop} (h : Accepts evidence pre event base entry post)
    (hpre : All (fun t => P t.projection) pre) : P base := by
  cases h with
  | linear hproj => exact (all_iff.mp hpre).1
  | resolution hproj =>
    obtain ⟨_, _, _, -, hfork, hsel, -⟩ := projectResolution_ok hproj
    have hsel := mem_of_find?_eq_some hsel
    exact (all_iff.mp (all_of_mem_branch hpre hfork hsel mem_cons_self)).1

lemma Retained.trans {u : AccountState c} (h : Retained s s') (h' : Retained s' u) :
    Retained s u := by
  induction h with
  | refl => exact h'
  | child hmem _ ih => exact .child hmem (ih h')

/-- Along every history the projection and the projections of all branches are
sound, and every newly accepted event takes the projection that it acts on forward. -/
theorem sound_of_reachable {genesis : AccountGenesis c} (h : Reachable genesis s) :
    s.projection.Sound c ∧ (∀ fork, s.fork = some fork → ∀ branch ∈ fork.branches,
        branch.projectedState.projection.Sound c) ∧
      ∀ event s' outcome, s.validateAndApply event = .ok (s', outcome) →
        outcome.disposition = .applied ∨ outcome.disposition = .forkDetected →
        ∃ pre base product, Retained s pre ∧ pre.projection.NamedBy event.body ∧
          ActsOn event pre base ∧ Produced event s' product ∧ base.Advances product := by
  have hsound : All (fun t => t.projection.Sound c) s :=
    preserved_sound.preserved.all_of_reachable (sound_fromGenesis genesis) h
  have hpositioned : All Positioned s :=
    preserved_positioned.all_of_reachable nofun h
  refine ⟨(all_iff.mp hsound).1, fun fork hfork branch hbranch => ?_, ?_⟩
  · exact (all_iff.mp (all_of_mem_branch hsound hfork hbranch mem_cons_self)).1
  · intro event s' outcome hok hdisposition
    obtain ⟨evidence, pre, base, entry, post, hretained, haccepts, hproduced⟩ :=
      (new_of_disposition hok hdisposition).lands
    have hpre : All (fun t => t.projection.Sound c) pre :=
      fun t ht => hsound t (hretained.trans ht)
    exact ⟨pre, base, post.projection, hretained, haccepts.named, haccepts.actsOn, hproduced,
      haccepts.advances (haccepts.base_of_all hpre) (hpositioned pre hretained)⟩

/-- An account that migrates to a second suite: both suites are in force, then only the second. -/
def dual : AccountState Toy.primitives :=
  ((fromGenesis Toy.migratingAccount).deliver Toy.beginMigration).deliver Toy.activateMigration

def migrated : AccountState Toy.primitives := dual.deliver Toy.retireSuite

theorem sound_after_migration :
    migrated.projection.sequence = 3 ∧ migrated.projection.Sound Toy.primitives :=
  ⟨by decide +kernel, (sound_of_reachable (.deliver _ (.deliver _ (.deliver _ .fromGenesis)))).1⟩

lemma gate_satisfiable : ControlPolicy.validateSatisfiable Toy.primitives.controllerId
    ⟨[⟨.beginRecovery, 2, .anyActive, .latestKnown, none, []⟩], []⟩ [Toy.controller 1] =
      .ok () := by
  decide

/-- An account whose rule for beginning a recovery asks for more weight than it has. -/
def gatedAccount : AccountGenesis Toy.primitives := Toy.genesis _ gate_satisfiable

theorem gatedAccount_unmet : Reachable gatedAccount (fromGenesis gatedAccount) ∧
      ∃ rule ∈ (fromGenesis gatedAccount).projection.controlPolicy.rules,
        availableWeight Toy.primitives.controllerId rule.eligibleControllers rule.operation
          (fromGenesis gatedAccount).projection.activeControllerDescriptors < rule.requiredWeight :=
  ⟨.fromGenesis, _, mem_singleton.mpr rfl, by decide⟩

end AccountState
end Krikos.Identity
