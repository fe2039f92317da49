import Krikos.Identity.Sound

/-!
# Identity.Keys

Separation of key material. Every key of a projection is listed with the role it has and who holds
it: signing keys of controllers, the keys of devices, migrated keys, the keys of a migration in
progress and retired keys. No two of them have the same bytes, except that the migrated or retired
key of a controller may be its own signing key.
-/

namespace Krikos.Identity

open Lib List ControllerKeyBinding Projection SigningPublicKey CryptoProjection List.Perm

variable {c : Primitives} {p q : Projection} {event : AuthorizedEvent c}

/-! ## Keys in use -/

inductive KeyRole where
  | signing (controllerId : ControllerId)
  | application (deviceId : DeviceId)
  | agreement (deviceId : DeviceId)
  | endpoint (deviceId : DeviceId)
  | migrated (controllerId : ControllerId)
  | candidate (controllerId : ControllerId)
  | retired (controllerId : ControllerId)

structure KeyUse where
  role : KeyRole
  bytes : Bytes

open KeyUse

/-- The two roles may share a key: it is a signing key and the later key of one controller. -/
def KeyRole.MayShare : KeyRole → KeyRole → Prop
  | .signing a, .migrated b => a = b
  | .signing a, .retired b => a = b
  | .migrated b, .signing a => a = b
  | .retired b, .signing a => a = b
  | _, _ => False

def KeyUse.Apart (left right : KeyUse) : Prop :=
  left.bytes = right.bytes → left.role.MayShare right.role

variable {left right : KeyUse}

lemma KeyUse.Apart.symm (h : left.Apart right) : right.Apart left := by
  intro heq
  have hshar := h heq.symm
  obtain ⟨left, _⟩ := left
  obtain ⟨right, _⟩ := right
  cases left <;> cases right <;> exact hshar

lemma KeyUse.apart_of_ne (h : left.bytes ≠ right.bytes) : left.Apart right :=
  fun heq => absurd heq h

abbrev RetiredKey := AlgorithmPublicKey × ControllerId

def ProjectedController.keyUse (controller : ProjectedController) : KeyUse :=
  ⟨.signing controller.id, controller.signingKey.asBytes.val⟩

def ProjectedDevice.keyUses (device : ProjectedDevice) : List KeyUse :=
  [⟨.application device.id, device.descriptor.applicationSigningKey.asBytes.val⟩,
    ⟨.agreement device.id, device.descriptor.agreementKey.asBytes.val⟩,
    ⟨.endpoint device.id, device.descriptor.endpointKey.asSigningKey.asBytes.val⟩]

def MigrationKey.keyUse (migrated : MigrationKey) : KeyUse :=
  ⟨.migrated migrated.controllerId, migrated.key.asBytes⟩

def ControllerKeyBinding.keyUse (binding : ControllerKeyBinding) : KeyUse :=
  ⟨.candidate binding.controllerId, binding.newSigningKey.asBytes⟩

def RetiredKey.keyUse (retired : RetiredKey) : KeyUse := ⟨.retired retired.2, retired.1.asBytes⟩

/-- The cryptography in force; during a migration, the one that it leaves. -/
def CryptoProjection.current : CryptoProjection → StableCrypto
  | .stable settled => settled
  | .candidate previous _ _ => previous
  | .dual previous _ _ _ => previous

def CryptoProjection.bindings : CryptoProjection → List ControllerKeyBinding
  | .stable _ => []
  | .candidate _ migration _ => migration.bindings
  | .dual _ migration _ _ => migration.bindings

/-- All keys of a projection; the retired ones are given with their owners. -/
def Projection.keyUses (p : Projection) (retired : List RetiredKey) : List KeyUse :=
  p.controllers.map ProjectedController.keyUse ++
    (p.devices.flatMap ProjectedDevice.keyUses ++
      (p.crypto.current.migratedKeys.map MigrationKey.keyUse ++
        (p.crypto.bindings.map keyUse ++ retired.map RetiredKey.keyUse)))

/-! ## Owners of retired keys -/

variable (stable : StableCrypto) (controllers : List ProjectedController) {l m : List KeyUse}

/-- The keys of a suite with their controllers; `stableSuiteKeys` is the list without them. -/
def ownedSuiteKeys : List RetiredKey :=
  if stable.migratedKeys ≠ [] then
    stable.migratedKeys.map fun migrated => (migrated.key, migrated.controllerId)
  else controllers.map fun controller =>
    (controller.signingKey.toAlgorithmKey stable.suite.signatureAlgorithmCode, controller.id)

lemma map_fst_ownedSuiteKeys :
    (ownedSuiteKeys stable controllers).map Prod.fst = stableSuiteKeys stable controllers := by
  unfold ownedSuiteKeys stableSuiteKeys
  split
  · rw [map_map]
    rfl
  · rw [map_map]
    rfl

/-- The keys that an operation retires: those of the suite that a completed migration leaves. -/
def Projection.retires (p : Projection) : AccountOperation → List RetiredKey
  | .retireCryptoSuite retire =>
    match p.crypto, retire.mode with
    | .dual previous _ _ _, .retirePrevious => ownedSuiteKeys previous p.controllers
    | _, _ => []
  | _ => []

/-- A history that leads to a projection, with the keys that it retired and whose they were. -/
inductive History (c : Primitives) : Projection → List RetiredKey → Prop where
  | genesis (genesis : AccountGenesis c) :
      History c (AccountState.fromGenesis genesis).projection []
  | linear {p q : Projection} {retired : List RetiredKey}
      {evidence : EventId → Option AdmissionEvidenceId} {event : AuthorizedEvent c}
      {epoch : Epoch} : History c p retired → p.applyLinear evidence event = .ok (epoch, q) →
      History c q (retired ++ p.retires event.body.operation)
  | resolution {p q : Projection} {retired : List RetiredKey} {resolution : ResolveFork}
      {event : AuthorizedEvent c} : History c p retired →
      p.applyResolution resolution event = .ok q → History c q retired
  | moved {p : Projection} {retired : List RetiredKey} (sequence : Sequence)
      (heads : List EventId) : History c p retired →
      History c { p with sequence := sequence, heads := heads } retired
  | forked {p : Projection} {retired : List RetiredKey} : History c p retired →
      History c { p with lifecycle := .forked } retired

/-! ## The invariant -/

structure Projection.Keyed (p : Projection) (retired : List RetiredKey) : Prop where
  apart : (p.keyUses retired).Pairwise Apart
  tombstones : (retired.map Prod.fst).Perm p.crypto.current.keyTombstones
  unmigrated : p.crypto.current.migratedKeys = [] → p.crypto.current.keyTombstones = []
  sorted : SortedBy MigrationKey.controllerId p.crypto.current.migratedKeys

def Projection.Unused (p : Projection) (retired : List RetiredKey) (bytes : Bytes) : Prop :=
  ∀ use ∈ p.keyUses retired, use.bytes ≠ bytes

lemma pairwise_perm (h : l.Perm m) (hl : l.Pairwise Apart) : m.Pairwise Apart :=
  (h.pairwise_iff fun hab => hab.symm).mp hl

variable {retired : List RetiredKey}

lemma Projection.Keyed.of_perm (h : p.Keyed retired)
    (huses : (p.keyUses retired).Perm (q.keyUses retired))
    (hcry : q.crypto.current = p.crypto.current) : q.Keyed retired :=
  ⟨pairwise_perm huses h.apart, hcry ▸ h.tombstones, hcry ▸ h.unmigrated, hcry ▸ h.sorted⟩

/-- A key that nothing else has may be added, next to keys of its own holder. -/
lemma pairwise_append_unused (hl : l.Pairwise Apart) (hm : m.Pairwise Apart)
    (h : ∀ use ∈ m, ∀ other ∈ l, other.bytes ≠ use.bytes) : (m ++ l).Pairwise Apart :=
  pairwise_append.mpr ⟨hm, hl, fun use huse other hother =>
    apart_of_ne (h use huse other hother).symm⟩

lemma Projection.mem_keyUses {use : KeyUse} : use ∈ p.keyUses retired ↔
      (∃ controller ∈ p.controllers, controller.keyUse = use) ∨
      (∃ device ∈ p.devices, use ∈ device.keyUses) ∨
      (∃ migrated ∈ p.crypto.current.migratedKeys, migrated.keyUse = use) ∨
      (∃ binding ∈ p.crypto.bindings, binding.keyUse = use) ∨
      ∃ key ∈ retired, RetiredKey.keyUse key = use := by
  simp only [Projection.keyUses, mem_append, mem_map, mem_flatMap]

variable {bytes : Bytes}

lemma StableCrypto.reuses_eq_false {stable : StableCrypto} (h : stable.reuses bytes = false) :
    (∀ migrated ∈ stable.migratedKeys, migrated.key.asBytes ≠ bytes) ∧
      ∀ key ∈ stable.keyTombstones, key.asBytes ≠ bytes := by
  simpa [StableCrypto.reuses] using h

lemma CryptoMigrationBody.reuses_eq_false (migration : CryptoMigrationBody)
    (h : migration.reuses bytes = false) :
    ∀ binding ∈ migration.bindings, binding.newSigningKey.asBytes ≠ bytes := by
  simpa [CryptoMigrationBody.reuses] using h

lemma Projection.cryptoRetains_eq_false (h : p.cryptoRetainsKeyMaterial bytes = false) :
    p.crypto.current.reuses bytes = false ∧
      ∀ binding ∈ p.crypto.bindings, binding.newSigningKey.asBytes ≠ bytes := by
  unfold cryptoRetainsKeyMaterial at h
  split at h
  · rename_i stable hstab
    rw [hstab]
    exact ⟨h, nofun⟩
  · rename_i previous migration beginEventId hcry
    rw [hcry]
    obtain ⟨hprev, hmigr⟩ := Bool.or_eq_false_iff.mp h
    exact ⟨hprev, migration.reuses_eq_false hmigr⟩
  · rename_i previous migration beginEventId activationEventId hcry
    rw [hcry]
    obtain ⟨hprev, hmigr⟩ := Bool.or_eq_false_iff.mp h
    exact ⟨hprev, migration.reuses_eq_false hmigr⟩

variable {descriptor : ControllerDescriptor}

lemma Projection.enrollmentKey_some
    {key : AlgorithmPublicKey} (h : p.enrollmentKey descriptor = .ok (some key)) :
    ∃ stable, p.crypto = .stable stable ∧ (stable.suite ≠ .v1 ∨ stable.migratedKeys ≠ []) ∧
      key = descriptor.signingKey.toAlgorithmKey stable.suite.signatureAlgorithmCode := by
  unfold enrollmentKey at h
  split at h
  · rename_i stable hstab
    split at h
    · rename_i hmig
      simp only [bind_ok, reject_ok, pure_ok, Option.some.injEq] at h
      obtain ⟨-, -, -, -, rfl⟩ := h
      exact ⟨stable, hstab, hmig, rfl⟩
    · cases h
  · cases h
  · cases h

lemma ProjectedDevice.bytes_ne {device : ProjectedDevice} {use : KeyUse}
    (h : ∀ key ∈ device.descriptor.keys, key ≠ bytes) (huse : use ∈ device.keyUses) :
    use.bytes ≠ bytes := by
  simp only [ProjectedDevice.keyUses, DeviceDescriptor.keys, mem_cons, not_mem_nil,
    or_false, forall_eq_or_imp, forall_eq] at huse h
  rcases huse with rfl | rfl | rfl
  · exact h.1
  · exact h.2.1
  · exact h.2.2

/-- What the checks of the source add up to: no key of the projection has the bytes. -/
lemma Projection.Keyed.unused (h : p.Keyed retired)
    (hcon : ∀ controller ∈ p.controllers, controller.signingKey.asBytes.val ≠ bytes)
    (hdev : ∀ device ∈ p.devices, ∀ key ∈ device.descriptor.keys, key ≠ bytes)
    (hcur : p.crypto.current.reuses bytes = false)
    (hbin : ∀ binding ∈ p.crypto.bindings, binding.newSigningKey.asBytes ≠ bytes) :
    p.Unused retired bytes := by
  obtain ⟨hmig, htom⟩ := StableCrypto.reuses_eq_false hcur
  intro use huse
  rcases mem_keyUses.mp huse with ⟨controller, hcont, rfl⟩ |
    ⟨device, hdevic, huse⟩ | ⟨migrated, hkey, rfl⟩ | ⟨binding, hbind, rfl⟩ | ⟨key, hkey, rfl⟩
  · exact hcon controller hcont
  · exact ProjectedDevice.bytes_ne (hdev device hdevic) huse
  · exact hmig migrated hkey
  · exact hbin binding hbind
  · exact htom _ (h.tombstones.mem_iff.mp (mem_map_of_mem hkey))

lemma SigningPublicKey.bytes_ne {left right : SigningPublicKey} (h : left ≠ right) :
    left.asBytes.val ≠ right.asBytes.val := by
  obtain ⟨left⟩ := left
  obtain ⟨right⟩ := right
  exact fun heq => h (congrArg mk (Subtype.ext heq))

variable {key : SigningPublicKey} {devices : List ProjectedDevice}

lemma deviceDescriptorReusesControllerKey_eq_false {descriptor : DeviceDescriptor}
    (h : deviceDescriptorReusesControllerKey descriptor key = false) :
    ∀ bytes ∈ descriptor.keys, bytes ≠ key.asBytes.val := by
  simp only [deviceDescriptorReusesControllerKey, Bool.or_eq_false_iff, decide_eq_false_iff_not]
    at h
  obtain ⟨⟨happ, hagr⟩, hend⟩ := h
  simp only [DeviceDescriptor.keys, mem_cons, not_mem_nil, or_false, forall_eq_or_imp, forall_eq]
  exact ⟨bytes_ne happ, fun heq => hagr (Subtype.ext heq),
    bytes_ne hend⟩

/-! ## Devices -/

lemma flatMap_keyUses {next : List ProjectedDevice}
    (h : List.Forall₂ ProjectedDevice.Continues devices next) :
    next.flatMap ProjectedDevice.keyUses = devices.flatMap ProjectedDevice.keyUses := by
  induction h with
  | nil => rfl
  | cons hdevic _ ih =>
    rw [flatMap_cons, flatMap_cons, ih]
    simp only [ProjectedDevice.keyUses, hdevic.id, hdevic.descriptor]

lemma Projection.Keyed.continues
    (h : p.Keyed retired) (hdev : List.Forall₂ ProjectedDevice.Continues p.devices devices) :
    ({ p with devices := devices } : Projection).Keyed retired := by
  refine h.of_perm (.of_eq ?_) rfl
  simp only [Projection.keyUses, flatMap_keyUses hdev]
  rfl

lemma ProjectedDevice.keyUses_apart (device : ProjectedDevice) : device.keyUses.Pairwise Apart := by
  obtain ⟨happ, hagr, hend⟩ := device.descriptor.separate
  have hne : ∀ a b : FixedBytes 32, a ≠ b → a.val ≠ b.val := fun _ _ h heq => h (Subtype.ext heq)
  simp only [ProjectedDevice.keyUses, pairwise_cons, mem_cons, not_mem_nil,
    or_false, forall_eq_or_imp, forall_eq, IsEmpty.forall_iff, implies_true, List.Pairwise.nil,
    and_true]
  exact ⟨⟨apart_of_ne (hne _ _ hagr), apart_of_ne (hne _ _ happ)⟩, apart_of_ne (hne _ _ hend.symm)⟩

lemma Projection.Keyed.newDevice {descriptor : DeviceDescriptor}
    (h : p.Keyed retired) (hnew : p.validateNewDeviceDescriptor descriptor = .ok ()) :
    ∀ bytes ∈ descriptor.keys, p.Unused retired bytes := by
  simp only [validateNewDeviceDescriptor, bind_ok, reject_ok, Bool.not_eq_true] at hnew
  obtain ⟨-, hdev, -, hcon, hcry⟩ := hnew
  simp only [any_eq_false, Bool.not_eq_true] at hdev hcon hcry
  intro bytes hbyt
  obtain ⟨hcur, hbin⟩ := cryptoRetains_eq_false (hcry bytes hbyt)
  refine h.unused ?_ ?_ hcur hbin
  · intro controller hcont
    have hreuse := deviceDescriptorReusesControllerKey_eq_false (hcon controller hcont)
    exact (hreuse bytes hbyt).symm
  · intro device hdevic key hkey heq
    have hreuse := hdev device hdevic
    simp only [deviceDescriptorsReuseKey, any_eq_false] at hreuse
    exact hreuse key hkey (any_eq_true.mpr ⟨bytes, hbyt, by simpa using heq⟩)

variable {epoch : Epoch}

section
variable (h : p.Keyed retired)
include h

namespace Projection

lemma Keyed.authorizeDevice {authorization : DeviceAuthorization}
    (hsor : SortedBy ProjectedDevice.id p.devices)
    (hok : p.authorizeDevice authorization epoch = .ok q) : q.Keyed retired := by
  obtain ⟨devices, -, hperm, -, hnew, rfl⟩ := authorizeDevice_ok hsor hok
  refine ⟨?_, h.tombstones, h.unmigrated, h.sorted⟩
  have hunus := h.newDevice hnew
  have hpair : (authorization.project.keyUses ++ p.keyUses retired).Pairwise Apart := by
    refine pairwise_append_unused h.apart authorization.project.keyUses_apart ?_
    intro use huse other hother
    refine hunus use.bytes ?_ other hother
    simp only [ProjectedDevice.keyUses, mem_cons, not_mem_nil, or_false] at huse
    rcases huse with rfl | rfl | rfl
    all_goals simp [DeviceDescriptor.keys, DeviceAuthorization.project]
  refine pairwise_perm ?_ hpair
  have hflat : (authorization.project.keyUses ++ p.devices.flatMap ProjectedDevice.keyUses).Perm
      (devices.flatMap ProjectedDevice.keyUses) := (hperm.flatMap_right _).symm
  refine (perm_append_comm_assoc _ _ _).trans (append_left _ ?_)
  rw [← append_assoc]
  exact hflat.append_right _

/-! ## Controllers -/

lemma Keyed.of_controllers (hcon : p.controllers.Perm q.controllers)
    (hdev : q.devices = p.devices) (hcry : q.crypto = p.crypto) : q.Keyed retired := by
  refine h.of_perm ?_ (by rw [hcry])
  unfold Projection.keyUses
  rw [hdev, hcry]
  exact (hcon.map _).append_right _

lemma Keyed.removeController {controllerId : ControllerId}
    (hlis : Listed p.activeControllers p.revokedControllers)
    (hok : p.removeController c controllerId = .ok q) : q.Keyed retired := by
  obtain ⟨removed, remaining, revoked, htake, hins, -, -, rfl⟩ :=
    removeController_ok hok
  obtain ⟨-, hrev, hact, -⟩ := hlis.revoke htake hins
  exact h.of_controllers (perm_of_revoke hact hrev) rfl rfl

lemma Keyed.newController (hretain : p.cryptoRetainsKeyMaterial key.asBytes.val = false)
    (hcon : ∀ controller ∈ p.controllers, controller.signingKey ≠ key)
    (hdev : ∀ device ∈ p.devices,
      deviceDescriptorReusesControllerKey device.descriptor key = false) :
    p.Unused retired key.asBytes.val := by
  obtain ⟨hcur, hbin⟩ := cryptoRetains_eq_false hretain
  refine h.unused ?_ ?_ hcur hbin
  · intro controller hcont heq
    exact bytes_ne (hcon controller hcont) heq
  · intro device hdevic
    exact deviceDescriptorReusesControllerKey_eq_false (hdev device hdevic)

lemma Keyed.addController (hsor : SortedBy ProjectedController.id p.activeControllers)
    (hok : p.addController c descriptor = .ok q) : q.Keyed retired := by
  obtain ⟨migratedKey, active, crypto, hretain, hkey, -, hcon, hdev, -, hact,
    henr, rfl⟩ := addController_ok hok
  have hunus := h.newController hretain hcon hdev
  obtain ⟨-, hperm, -⟩ := insertNew_ok hsor hact
  let enrolled : ProjectedController := ⟨c.controllerId descriptor, descriptor⟩
  have hmap : ((active ++ p.revokedControllers).map ProjectedController.keyUse).Perm
      (enrolled.keyUse :: p.controllers.map ProjectedController.keyUse) :=
    (hperm.append_right p.revokedControllers).map _
  cases migratedKey with
  | none =>
    obtain rfl := Except.ok.inj henr
    refine ⟨pairwise_perm (hmap.symm.append_right _) ?_, h.tombstones, h.unmigrated, h.sorted⟩
    refine pairwise_cons.mpr ⟨fun other hother => ?_, h.apart⟩
    exact apart_of_ne (hunus other hother).symm
  | some key =>
    obtain ⟨stable, hstab, -, rfl⟩ := enrollmentKey_some hkey
    rw [hstab] at henr
    simp only [enroll, bind_ok, pure_ok] at henr
    obtain ⟨migratedKeys, hins, rfl⟩ := henr
    have hcur : p.crypto.current = stable := by rw [hstab]; rfl
    obtain ⟨hmig, hpermMigrated, -⟩ := insertNew_ok (hcur ▸ h.sorted) hins
    refine ⟨?_, hcur ▸ h.tombstones, fun hnil => ?_, hmig⟩
    · let added : MigrationKey := ⟨c.controllerId descriptor,
        descriptor.signingKey.toAlgorithmKey stable.suite.signatureAlgorithmCode⟩
      have hpair : ([enrolled.keyUse, added.keyUse] ++ p.keyUses retired).Pairwise
          Apart := by
        refine pairwise_append_unused h.apart ?_ ?_
        · exact pairwise_pair.mpr fun _ => rfl
        · intro use huse other hother
          rcases mem_pair.mp huse with rfl | rfl
          · exact hunus other hother
          · exact hunus other hother
      refine pairwise_perm ?_ hpair
      unfold keyUses
      rw [hstab]
      have hrest := ((hpermMigrated.map MigrationKey.keyUse).append_right
        (retired.map RetiredKey.keyUse)).append_left (p.devices.flatMap ProjectedDevice.keyUses)
      exact ((hmap.append (hrest.trans perm_middle)).trans (perm_middle.trans (swap _ _ _))).symm
    · obtain rfl : migratedKeys = [] := hnil
      exact absurd hpermMigrated.symm.eq_nil (cons_ne_nil _ _)

/-! ## Recovery -/

lemma Keyed.retired_eq_nil
    (hmig : p.crypto.current.migratedKeys = []) : retired = [] := by
  have hperm := h.tombstones
  rw [h.unmigrated hmig] at hperm
  exact map_eq_nil_iff.mp hperm.eq_nil

/-- The controllers that a plan does not keep are revoked; a kept one may keep its key. -/
lemma Keyed.installRecoveryPlan {plan : RecoveryAuthorityPlan}
    (hsor : SortedBy ProjectedController.id p.revokedControllers) (hval : plan.Valid c)
    (hcry : p.requireV1RecoveryCrypto = .ok ())
    (hok : p.installRecoveryPlan c plan = .ok q) : q.Keyed retired := by
  obtain ⟨revoked, hrep, hins, -, rfl⟩ := Projection.installRecoveryPlan_ok hok
  have hnew := Projection.validateReplacement_ok hrep
  obtain ⟨-, hrev⟩ := insertRevoked_ok hsor hins
  obtain ⟨stable, hstab, -, hmig⟩ := Projection.requireV1RecoveryCrypto_ok hcry
  have hcur : p.crypto.current.migratedKeys = [] := by rw [hstab]; exact hmig
  obtain rfl := h.retired_eq_nil hcur
  have hbin : p.crypto.bindings = [] := by rw [hstab]; rfl
  refine ⟨?_, h.tombstones, h.unmigrated, h.sorted⟩
  have hdev : (p.devices.map (ProjectedDevice.retainOnly plan.retainedDevices)).flatMap
      ProjectedDevice.keyUses = p.devices.flatMap ProjectedDevice.keyUses := by
    refine flatMap_keyUses (forall₂_map_right_iff.mpr (forall₂_same.mpr ?_))
    exact fun device _ => ProjectedDevice.retainOnly_continues plan.retainedDevices device
  have happar := h.apart
  simp only [Projection.keyUses, Projection.replacedBy, hcur, hbin, hdev, map_nil, append_nil]
    at happar ⊢
  -- the keys that stay: those of the removed and revoked controllers and of the devices
  let removed := p.activeControllers.filter fun controller =>
    (lookup id controller.id (plan.replacementControllers.map c.controllerId)).isNone
  have hkept : ((removed ++ p.revokedControllers).map ProjectedController.keyUse ++
      p.devices.flatMap ProjectedDevice.keyUses).Pairwise Apart := by
    refine happar.sublist (List.Sublist.append (List.Sublist.map _ ?_) (List.Sublist.refl _))
    exact filter_sublist.append (List.Sublist.refl _)
  have hrepl : ((plan.replacementControllers.map fun descriptor =>
      (⟨c.controllerId descriptor, descriptor⟩ : ProjectedController)).map
        ProjectedController.keyUse).Pairwise Apart := by
    refine pairwise_map.mpr (pairwise_map.mpr (hval.distinct.imp ?_))
    exact fun hne => apart_of_ne (SigningPublicKey.bytes_ne hne)
  refine pairwise_perm ?_ (pairwise_append_unused hkept hrepl ?_)
  · rw [← append_assoc, ← map_append]
    exact ((hrev.symm.append_left _).map _).append_right _
  · simp only [map_map, mem_map, Function.comp_apply]
    rintro _ ⟨descriptor, hdes, rfl⟩ other hother
    obtain ⟨-, hact, hrevokedKeys, hdeviceKeys⟩ := hnew descriptor hdes
    rcases mem_append.mp hother with hother | hother
    · obtain ⟨controller, hcont, rfl⟩ := mem_map.mp hother
      rcases mem_append.mp hcont with hrem | hcont
      · obtain ⟨hmem, hnone⟩ := mem_filter.mp hrem
        refine SigningPublicKey.bytes_ne (hact controller hmem fun heq => ?_)
        have hlook := Option.isNone_iff_eq_none.mp hnone
        have hids : SortedBy id (plan.replacementControllers.map c.controllerId) :=
          pairwise_map.mpr hval.sorted
        exact lookup_eq_none hids hlook (mem_map_of_mem hdes) heq.symm
      · exact SigningPublicKey.bytes_ne (hrevokedKeys controller hcont)
    · obtain ⟨device, hdevic, huse⟩ := mem_flatMap.mp hother
      exact ProjectedDevice.bytes_ne
        (deviceDescriptorReusesControllerKey_eq_false (hdeviceKeys device hdevic)) huse

/-! ## Migration -/

lemma Keyed.beginCryptoMigration {begin : BeginCryptoMigration} {eventId : EventId}
    (hok : p.beginCryptoMigration c begin eventId = .ok q) : q.Keyed retired := by
  obtain ⟨previous, hstab, -, -, hbin, rfl⟩ := Projection.beginCryptoMigration_ok hok
  have hcur : p.crypto.current = previous := by rw [hstab]; rfl
  refine ⟨?_, hcur ▸ h.tombstones, hcur ▸ h.unmigrated, hcur ▸ h.sorted⟩
  have hnew : (begin.migration.bindings.map keyUse).Pairwise
      Apart := by
    refine pairwise_map.mpr (begin.migration.distinct.imp_of_mem ?_)
    intro left right hleft hrig hne
    refine apart_of_ne fun heq => hne (AlgorithmPublicKey.ext ?_ heq)
    exact (begin.migration.algorithm left hleft).trans
      (begin.migration.algorithm right hrig).symm
  refine pairwise_perm ?_ (pairwise_append_unused h.apart hnew ?_)
  · unfold Projection.keyUses
    rw [hstab]
    refine (perm_append_comm_assoc _ _ _).trans (append_left _ ?_)
    refine (perm_append_comm_assoc _ _ _).trans (append_left _ ?_)
    exact perm_append_comm_assoc _ _ _
  · simp only [mem_map]
    rintro _ ⟨binding, hbind, rfl⟩
    obtain ⟨controller, -, -, hreus⟩ := exists_of_forall₂ hbin.flip hbind
    simp only [migrationKeyReusesRetainedMaterial, Bool.or_eq_false_iff, any_eq_false,
      decide_eq_true_eq, any_eq_true, not_exists, not_and] at hreus
    obtain ⟨⟨hprev, hcon⟩, hdev⟩ := hreus
    refine h.unused hcon hdev (hcur ▸ hprev) ?_
    rw [hstab]
    exact nofun

lemma Keyed.activateCryptoMigration
    {activate : ActivateCryptoMigration} {eventId : EventId}
    (hok : p.activateCryptoMigration c activate eventId = .ok q) : q.Keyed retired := by
  obtain ⟨previous, migration, beginEventId, hcan, rfl⟩ :=
    activateCryptoMigration_ok hok
  refine h.of_perm (.of_eq ?_) ?_
  · unfold keyUses
    rw [hcan]
    rfl
  · rw [hcan]
    rfl

end Projection

end

variable {migration : CryptoMigrationBody} {previous : StableCrypto}

lemma Projection.Keyed.abort {beginEventId : EventId} (h : p.Keyed retired)
    (hcan : p.crypto = .candidate previous migration beginEventId) :
    ({ p with crypto := .stable previous, lifecycle := .active } : Projection).Keyed retired := by
  have hcur : p.crypto.current = previous := by rw [hcan]; rfl
  refine ⟨?_, hcur ▸ h.tombstones, hcur ▸ h.unmigrated, hcur ▸ h.sorted⟩
  refine h.apart.sublist ?_
  unfold keyUses
  rw [hcan]
  refine (List.Sublist.refl _).append ((List.Sublist.refl _).append ((List.Sublist.refl _).append ?_))
  exact sublist_append_right _ _

def KeyRole.completed : KeyRole → KeyRole
  | .migrated controllerId => .retired controllerId
  | .candidate controllerId => .migrated controllerId
  | role => role

def KeyUse.completed (use : KeyUse) : KeyUse := ⟨use.role.completed, use.bytes⟩

lemma KeyUse.Apart.completed (h : left.Apart right) : left.completed.Apart right.completed := by
  intro heq
  have hshar := h heq
  obtain ⟨left, _⟩ := left
  obtain ⟨right, _⟩ := right
  cases left <;> cases right <;> first | exact hshar | exact hshar.elim

lemma sortTombstones_perm {keys : List AlgorithmPublicKey} (h : keys.Nodup) :
    (sortTombstones keys).Perm keys := by
  have hsor : (sortByKey AlgorithmPublicKey.sortKey keys).Nodup :=
    perm_sortByKey.nodup_iff.mpr h
  unfold sortTombstones
  rw [destutter_of_isChain _ _ (List.Pairwise.isChain hsor)]
  exact perm_sortByKey

lemma nodup_of_apart (h : (retired.map RetiredKey.keyUse).Pairwise Apart) :
    (retired.map Prod.fst).Nodup := by
  refine pairwise_map.mpr ((pairwise_map.mp h).imp ?_)
  exact fun hapart heq => hapart (congrArg AlgorithmPublicKey.asBytes heq)

variable {beginEventId activationEventId : EventId}

namespace Projection

lemma keyUses_completed
    (hdual : p.crypto = .dual previous migration beginEventId activationEventId)
    (hmig : previous.migratedKeys ≠ []) :
    ((p.keyUses retired).map completed).Perm (p.controllers.map ProjectedController.keyUse ++
        (p.devices.flatMap ProjectedDevice.keyUses ++
          (migration.bindings.map (completed ∘ keyUse) ++
          (retired ++ ownedSuiteKeys previous p.controllers).map RetiredKey.keyUse))) := by
  have hown : (ownedSuiteKeys previous p.controllers).map RetiredKey.keyUse =
      previous.migratedKeys.map (completed ∘ MigrationKey.keyUse) := by
    rw [ownedSuiteKeys, if_pos hmig, map_map]
    rfl
  have hdev : (p.devices.flatMap ProjectedDevice.keyUses).map completed =
      p.devices.flatMap ProjectedDevice.keyUses := by
    rw [map_flatMap]
    rfl
  unfold Projection.keyUses
  rw [hdual]
  simp only [map_append, map_map, hdev, hown]
  refine append_left _ (append_left _ ?_)
  refine (perm_append_comm_assoc _ _ _).trans (append_left _ ?_)
  exact perm_append_comm

/-- When the keys of the first suite are retired, every controller keeps its signing key, which is
from then on its retired key too. -/
lemma Keyed.apart_of_unmigrated
    (h : p.Keyed []) (hdual : p.crypto = .dual previous migration beginEventId activationEventId)
    (hmig : previous.migratedKeys = []) :
    (p.controllers.map ProjectedController.keyUse ++ (p.devices.flatMap ProjectedDevice.keyUses ++
        (migration.bindings.map (completed ∘ keyUse) ++
        (ownedSuiteKeys previous p.controllers).map RetiredKey.keyUse))).Pairwise
      Apart := by
  have hapart := h.apart
  unfold Projection.keyUses at hapart
  rw [hdual] at hapart
  simp only [CryptoProjection.current, CryptoProjection.bindings, hmig, map_nil,
    nil_append, append_nil] at hapart
  obtain ⟨hcon, hoth, hcros⟩ := pairwise_append.mp hapart
  have hown : (ownedSuiteKeys previous p.controllers).map RetiredKey.keyUse =
      p.controllers.map fun controller =>
        ⟨.retired controller.id, controller.signingKey.asBytes.val⟩ := by
    rw [ownedSuiteKeys, if_neg (not_not.mpr hmig), map_map]
    rfl
  have hcom : (p.devices.flatMap ProjectedDevice.keyUses ++
      migration.bindings.map (completed ∘ keyUse)) = (p.devices.flatMap ProjectedDevice.keyUses ++
          migration.bindings.map keyUse).map completed := by
    rw [map_append, map_flatMap, map_map]
    rfl
  have hsep : ∀ controller ∈ p.controllers,
      ∀ use ∈ p.devices.flatMap ProjectedDevice.keyUses ++
        migration.bindings.map keyUse,
      controller.signingKey.asBytes.val ≠ use.bytes := by
    intro controller hcont use huse heq
    have hshar := hcros _ (mem_map_of_mem hcont) use huse heq
    rcases mem_append.mp huse with huse | huse
    · obtain ⟨device, -, huse⟩ := mem_flatMap.mp huse
      simp only [ProjectedDevice.keyUses, mem_cons, not_mem_nil, or_false] at huse
      rcases huse with rfl | rfl | rfl
      all_goals exact hshar
    · obtain ⟨binding, -, rfl⟩ := mem_map.mp huse
      exact hshar
  have hdis : p.controllers.Pairwise fun left right =>
      left.signingKey.asBytes.val ≠ right.signingKey.asBytes.val :=
    (pairwise_map.mp hcon).imp fun hapart heq => hapart heq
  rw [hown, ← append_assoc (p.devices.flatMap _), hcom]
  have hoth : ((p.devices.flatMap ProjectedDevice.keyUses ++
      migration.bindings.map keyUse).map completed).Pairwise
        Apart :=
    pairwise_map.mpr (hoth.imp Apart.completed)
  refine pairwise_append.mpr ⟨hcon, pairwise_append.mpr ⟨hoth, ?_, ?_⟩, ?_⟩
  · exact pairwise_map.mpr (hdis.imp apart_of_ne)
  · simp only [mem_map]
    rintro _ ⟨use, huse, rfl⟩ _ ⟨controller, hcont, rfl⟩
    exact apart_of_ne (hsep controller hcont use huse).symm
  · intro left hleft right hrig
    obtain ⟨controller, hcont, rfl⟩ := mem_map.mp hleft
    rcases mem_append.mp hrig with hrig | hrig
    · obtain ⟨use, huse, rfl⟩ := mem_map.mp hrig
      exact apart_of_ne (hsep controller hcont use huse)
    · obtain ⟨other, hother, rfl⟩ := mem_map.mp hrig
      intro heq
      have hsame : controller = other :=
        inj_on_of_nodup_map (pairwise_map.mpr hdis) hcont hother heq
      exact congrArg ProjectedController.id hsame

lemma Keyed.retirePrevious (h : p.Keyed retired)
    (hdual : p.crypto = .dual previous migration beginEventId activationEventId)
    (hcon : q.controllers = p.controllers) (hdev : q.devices = p.devices)
    (hcry : q.crypto = .stable (previous.retire c migration p.controllers epoch)) :
    q.Keyed (retired ++ ownedSuiteKeys previous p.controllers) := by
  have hcur : p.crypto.current = previous := by rw [hdual]; rfl
  have hapart : (q.keyUses (retired ++ ownedSuiteKeys previous p.controllers)).Pairwise
      Apart := by
    unfold keyUses
    rw [hcon, hdev, hcry]
    simp only [current, bindings, StableCrypto.retire, map_map, map_nil, nil_append]
    by_cases hmig : previous.migratedKeys = []
    · obtain rfl := h.retired_eq_nil (hcur ▸ hmig)
      exact h.apart_of_unmigrated hdual hmig
    · refine pairwise_perm (keyUses_completed hdual hmig) ?_
      exact pairwise_map.mpr (h.apart.imp Apart.completed)
  have hretired : ((retired ++ ownedSuiteKeys previous p.controllers).map
      RetiredKey.keyUse).Pairwise Apart := by
    refine hapart.sublist ?_
    unfold keyUses
    exact ((sublist_append_right _ _).trans (sublist_append_right _ _)).trans
      ((sublist_append_right _ _).trans (sublist_append_right _ _))
  have hkeys : ((retired ++ ownedSuiteKeys previous p.controllers).map Prod.fst).Perm
      (previous.keyTombstones ++ stableSuiteKeys previous p.controllers) := by
    rw [map_append, map_fst_ownedSuiteKeys]
    exact (hcur ▸ h.tombstones).append_right _
  refine ⟨hapart, ?_, fun hnil => ?_, ?_⟩
  · rw [hcry]
    refine hkeys.trans (sortTombstones_perm ?_).symm
    exact hkeys.nodup_iff.mp (nodup_of_apart hretired)
  · rw [hcry] at hnil
    exact absurd (map_eq_nil_iff.mp hnil) migration.nonempty
  · rw [hcry]
    exact pairwise_map.mpr migration.sorted

/-! ## Every operation -/

lemma Keyed.same (h : p.Keyed retired) (hact : q.activeControllers = p.activeControllers)
    (hrev : q.revokedControllers = p.revokedControllers) (hdev : q.devices = p.devices)
    (hcry : q.crypto = p.crypto) : q.Keyed retired := by
  refine h.of_controllers (.of_eq ?_) hdev hcry
  unfold controllers
  rw [hact, hrev]

lemma Keyed.retireCryptoSuite {retire : RetireCryptoSuite}
    (h : p.Keyed retired) (hok : p.retireCryptoSuite c retire epoch = .ok q) :
    q.Keyed (retired ++ p.retires (.retireCryptoSuite retire)) := by
  rcases retireCryptoSuite_ok hok with
    ⟨previous, migration, beginEventId, hcan, rfl⟩ |
    ⟨previous, migration, beginEventId, activationEventId, _, _, hdual, hmode, rfl⟩
  · have hretir : p.retires (.retireCryptoSuite retire) = [] := by
      simp only [retires, hcan]
    rw [hretir, append_nil]
    exact h.abort hcan
  · have hretir : p.retires (.retireCryptoSuite retire) =
        ownedSuiteKeys previous p.controllers := by
      simp only [retires, hdual, hmode]
    rw [hretir]
    exact h.retirePrevious hdual rfl rfl rfl

lemma retires_eq_nil {operation : AccountOperation}
    (h : ∀ retire, operation ≠ .retireCryptoSuite retire) : p.retires operation = [] := by
  unfold retires
  split
  · exact absurd rfl (h _)
  · rfl

lemma Keyed.applyOperation {evidence : EventId → Option AdmissionEvidenceId}
    {time : Option Timestamp} (hsoun : p.Sound c) (h : p.Keyed retired)
    (hok : p.applyOperation evidence event time = .ok q) :
    q.Keyed (retired ++ p.retires event.body.operation) := by
  by_cases hret : ∃ retire, event.body.operation = .retireCryptoSuite retire
  · obtain ⟨retire, hret⟩ := hret
    simp only [Projection.applyOperation, hret] at hok
    rw [hret]
    exact h.retireCryptoSuite hok
  · rw [retires_eq_nil fun retire heq => hret ⟨retire, heq⟩, append_nil]
    cases applyOperation_changes hok with
    | devices hdev hq =>
      rw [hq]
      exact h.continues hdev
    | authorization hdev hok =>
      have hsorted := ((Projection.Safe.of_forall₂ hdev).sound hsoun).devices.sorted
      exact (h.continues hdev).authorizeDevice hsorted hok
    | addController hok => exact h.addController hsoun.controllers.activeSorted hok
    | removeController hok => exact h.removeController hsoun.controllers hok
    | settings hsame hpending =>
      exact h.same hsame.active hsame.revoked hsame.devices hsame.crypto
    | recovery hop hsame hplan =>
      exact h.same hsame.active hsame.revoked hsame.devices hsame.crypto
    | finalizeRecovery hop hok =>
      obtain ⟨hcry, pending, _, next, hpen, -, -, -, hinst, rfl⟩ := finalizeRecovery_ok hok
      have hinstal := h.installRecoveryPlan hsoun.controllers.revokedSorted
        (hsoun.plan pending hpen) hcry hinst
      exact hinstal.same rfl rfl rfl rfl
    | beginCryptoMigration hop hok => exact h.beginCryptoMigration hok
    | activateCryptoMigration hok => exact h.activateCryptoMigration hok
    | retireCryptoSuite hop hok => exact absurd ⟨_, hop⟩ hret

lemma Keyed.applyResolution {resolution : ResolveFork} (hsoun : p.Sound c)
    (h : p.Keyed retired) (hok : p.applyResolution resolution event = .ok q) : q.Keyed retired := by
  obtain ⟨active, revoked, _, -, hdev, hlis, -, -, rfl⟩ := Projection.Safe.applyResolution_ok hok
  have hcon : Keyed { p with activeControllers := active, revokedControllers := revoked } retired :=
    h.of_controllers (hlis hsoun.controllers).2.2 rfl rfl
  exact (hcon.continues hdev).same rfl rfl rfl rfl

/-! ## Every history -/

/-- A sound projection with a history whose retired keys are accounted for. -/
def Recorded (c : Primitives) (p : Projection) : Prop :=
  p.Sound c ∧ ∃ retired, History c p retired ∧ p.Keyed retired

end Projection

lemma preserved_recorded : AccountState.ProjectionPreserved c (Projection.Recorded c) where
  linear := by
    rintro p q evidence event epoch ⟨hsoun, retired, hhistory, hkeyed⟩ hok
    refine ⟨preserved_sound.linear hsoun hok, _, .linear hhistory hok, ?_⟩
    obtain ⟨-, -, time, next, -, hnext, rfl⟩ := applyLinear_ok hok
    exact (hkeyed.applyOperation hsoun hnext).same rfl rfl rfl rfl
  resolution := by
    rintro p q resolution event ⟨hsoun, retired, hhistory, hkeyed⟩ hop hok
    exact ⟨preserved_sound.resolution hsoun hop hok, retired, .resolution hhistory hok,
      hkeyed.applyResolution hsoun hok⟩
  moved := by
    rintro p sequence heads ⟨hsoun, retired, hhistory, hkeyed⟩
    exact ⟨preserved_sound.moved sequence heads hsoun, retired, .moved sequence heads hhistory,
      hkeyed.same rfl rfl rfl rfl⟩
  forked := by
    rintro p ⟨hsoun, retired, hhistory, hkeyed⟩
    exact ⟨preserved_sound.forked hsoun, retired, .forked hhistory, hkeyed.same rfl rfl rfl rfl⟩

lemma recorded_fromGenesis (genesis : AccountGenesis c) :
    (AccountState.fromGenesis genesis).projection.Recorded c := by
  refine ⟨sound_fromGenesis genesis, [], .genesis genesis, ?_, .nil, fun _ => rfl, .nil⟩
  simp only [keyUses, controllers, AccountState.fromGenesis,
    current, bindings, map_nil, flatMap_nil,
    append_nil, map_map]
  refine pairwise_map.mpr (genesis.distinct.imp fun hne => ?_)
  exact apart_of_ne (bytes_ne hne)

/-- In every retained projection of every history, the keys in use are pairwise
apart; the retired ones are the key tombstones, with the controllers whose keys they were when the
history retired them. -/
theorem AccountState.keys_apart {genesis : AccountGenesis c} {s t : AccountState c}
    (h : Reachable genesis s) (ht : Retained s t) :
    ∃ retired, History c t.projection retired ∧
      (retired.map Prod.fst).Perm t.projection.crypto.current.keyTombstones ∧
      (t.projection.keyUses retired).Pairwise Apart := by
  have hrecorded : All (fun u => u.projection.Recorded c) s :=
    preserved_recorded.preserved.all_of_reachable (recorded_fromGenesis genesis) h
  obtain ⟨-, retired, hhistory, hkeyed⟩ := hrecorded t ht
  exact ⟨retired, hhistory, hkeyed.tombstones, hkeyed.apart⟩

theorem AccountState.keys_apart_with_device :
    let s := (fromGenesis Toy.deviceAccount).deliver Toy.authorizeDevice
    s.projection.devices.length = 1 ∧
      ∃ retired, (s.projection.keyUses retired).Pairwise Apart := by
  obtain ⟨retired, -, -, hapart⟩ := keys_apart
    (.deliver Toy.authorizeDevice (.fromGenesis : Reachable Toy.deviceAccount _)) (.refl _)
  exact ⟨by decide +kernel, retired, hapart⟩

end Krikos.Identity
