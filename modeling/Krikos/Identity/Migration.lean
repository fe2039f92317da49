import Krikos.Identity.Keys
import Krikos.Identity.Approved

/-!
# Identity.Migration

The migration of an account from one cryptographic suite to another. In every phase each active
controller has the keys that the phase asks for, and neither a retired suite nor a retired key is
asked for again.
-/

namespace Krikos.Identity

open Lib List Projection ProjectedDevice Toy

variable {c : Primitives} {p q : Projection} {event : AuthorizedEvent c} {retired : List RetiredKey}

/-! ## The invariant -/

/-- The number of keys that a controller signs with: both suites sign in the dual phase. -/
def CryptoProjection.keyCount : CryptoProjection → Nat
  | .stable _ => 1
  | .candidate _ _ _ => 1
  | .dual _ _ _ _ => 2

lemma CryptoProjection.keyCount_pos (crypto : CryptoProjection) : 0 < crypto.keyCount := by
  cases crypto with
  | stable | candidate => exact Nat.one_pos
  | dual => exact Nat.two_pos

def CryptoProjection.migration : CryptoProjection → Option CryptoMigrationBody
  | .stable _ => none
  | .candidate _ migration _ => some migration
  | .dual _ migration _ _ => some migration

def Projection.retiredSuiteIds (p : Projection) : List CryptoSuiteId :=
  p.crypto.current.retiredSuites.map RetiredCryptoSuite.suiteId

/-- A migration leads to a fresh suite and has a new key for every active controller. -/
structure Projection.Binds (c : Primitives) (p : Projection) (migration : CryptoMigrationBody) :
    Prop where
  unretired : c.cryptoSuiteId migration.toSuite ∉ p.retiredSuiteIds
  differs : c.cryptoSuiteId migration.toSuite ≠ c.cryptoSuiteId p.crypto.current.suite
  covers : ∀ controller ∈ p.activeControllers,
    ∃ binding ∈ migration.bindings, binding.controllerId = controller.id

structure Projection.Suited (c : Primitives) (p : Projection) : Prop where
  unretired : c.cryptoSuiteId p.crypto.current.suite ∉ p.retiredSuiteIds
  first : p.crypto.current.migratedKeys = [] → p.crypto.current.suite = .v1
  covers : p.crypto.current.migratedKeys ≠ [] → ∀ controller ∈ p.activeControllers,
    ∃ migrated ∈ p.crypto.current.migratedKeys, migrated.controllerId = controller.id
  binds : ∀ migration, p.crypto.migration = some migration → p.Binds c migration

/-! ## Verification keys -/

/-- A key of a suite that is not retired, and not a retired key. -/
structure VerificationKey.Live (p : Projection) (key : VerificationKey) : Prop where
  suite : key.cryptoSuiteId ∉ p.retiredSuiteIds
  key : ∀ tombstone ∈ p.crypto.current.keyTombstones, tombstone.asBytes ≠ key.publicKey

section
variable {tombstone : AlgorithmPublicKey}

lemma Projection.Keyed.live (h : p.Keyed retired) {use : KeyUse}
    (huse : use ∈ p.crypto.current.migratedKeys.map MigrationKey.keyUse ++
      p.crypto.bindings.map ControllerKeyBinding.keyUse)
    (htom : tombstone ∈ p.crypto.current.keyTombstones) : tombstone.asBytes ≠ use.bytes := by
  obtain ⟨key, hkey, rfl⟩ := mem_map.mp (h.tombstones.mem_iff.mpr htom)
  have hapar := (pairwise_append.mp (pairwise_append.mp h.apart).2.1).2.1
  rw [← append_assoc] at hapar
  have hcros := (pairwise_append.mp hapar).2.2 use huse (RetiredKey.keyUse key)
    (mem_map_of_mem hkey)
  rcases mem_append.mp huse with hmem | hmem
  all_goals
    obtain ⟨owner, -, rfl⟩ := mem_map.mp hmem
    exact fun heq => hcros heq.symm

end

variable {controller : ProjectedController}

lemma Projection.Suited.stableVerificationKeys
    (h : p.Suited c) (hkeyed : p.Keyed retired) (hcontroller : controller ∈ p.activeControllers) :
    ∃ key, stableVerificationKeys c p.crypto.current controller = .ok [key] ∧
      key.cryptoSuiteId = c.cryptoSuiteId p.crypto.current.suite ∧ key.Live p := by
  unfold Identity.stableVerificationKeys
  split
  · rename_i hunm
    refine ⟨_, rfl, rfl, h.unretired, fun tombstone htom => ?_⟩
    rw [hkeyed.unmigrated hunm] at htom
    cases htom
  · rename_i hmigr
    obtain ⟨migrated, hmem, hid⟩ := h.covers hmigr controller hcontroller
    rw [(lookup_eq_some hkeyed.sorted).mpr ⟨hmem, hid⟩]
    exact ⟨_, rfl, rfl, h.unretired, fun tombstone htom =>
      hkeyed.live (mem_append_left _ (mem_map_of_mem hmem)) htom⟩

lemma Projection.Suited.verificationKeys (h : p.Suited c) (hkeyed : p.Keyed retired)
    (hsor : SortedBy ProjectedController.id p.activeControllers)
    (hcontroller : controller ∈ p.activeControllers) :
    ∃ keys, p.verificationKeys c controller.id = .ok keys ∧ keys.length = p.crypto.keyCount ∧
      (keys.map VerificationKey.cryptoSuiteId).Nodup ∧ ∀ key ∈ keys, key.Live p := by
  obtain ⟨key, hkey, hsuit, hlive⟩ := h.stableVerificationKeys hkeyed hcontroller
  have hact : p.activeController controller.id = some controller :=
    (lookup_eq_some hsor).mpr ⟨hcontroller, rfl⟩
  unfold Projection.verificationKeys
  rw [hact]
  cases hcry : p.crypto with
  | stable stable | candidate previous migration beginEventId =>
    rw [hcry] at hkey
    exact ⟨[key], hkey, rfl, nodup_singleton _, by simpa using hlive⟩
  | dual previous migration beginEventId activationEventId =>
    have hbinds := h.binds migration (by rw [hcry]; rfl)
    obtain ⟨binding, hbin, hid⟩ := hbinds.covers controller hcontroller
    have hbind : p.crypto.bindings = migration.bindings := by rw [hcry]; rfl
    have hlook : lookup ControllerKeyBinding.controllerId controller.id migration.bindings =
        some binding := (lookup_eq_some migration.sorted).mpr ⟨hbin, hid⟩
    have hnext : (migration.verificationKey c binding).Live p :=
      ⟨hbinds.unretired, fun tombstone htom =>
        hkeyed.live (mem_append_right _ (mem_map_of_mem (hbind ▸ hbin))) htom⟩
    rw [hcry] at hkey
    change Identity.stableVerificationKeys c previous controller = .ok [key] at hkey
    have hperm : (sortByKey VerificationKey.sortKey [key, migration.verificationKey c binding]).Perm
          [key, migration.verificationKey c binding] := perm_sortByKey
    refine ⟨_, ?_, hperm.length_eq, (hperm.map _).nodup_iff.mpr ?_, ?_⟩
    · have hok : okOr (lookup ControllerKeyBinding.controllerId controller.id migration.bindings)
          (IdentityError.invalidRelationship "dual migration controller binding") =
            .ok binding := by
        rw [hlook]
        rfl
      exact bind_ok.mpr ⟨controller, rfl, bind_ok.mpr ⟨[key], hkey, bind_ok.mpr
        ⟨binding, hok, rfl⟩⟩⟩
    · refine pairwise_pair.mpr ?_
      rw [hsuit]
      exact hbinds.differs.symm
    · intro key' hkey'
      rcases mem_pair.mp (hperm.mem_iff.mp hkey') with rfl | rfl
      · exact hlive
      · exact hnext

/-! ## The operations -/

/-- An operation keeps the invariant and every retired suite. -/
structure Projection.Migrates (c : Primitives) (p q : Projection) : Prop where
  suited : q.Suited c
  retired : p.retiredSuiteIds ⊆ q.retiredSuiteIds

namespace Projection.Suited

lemma of_same (h : p.Suited c) (hcry : q.crypto = p.crypto)
    (hact : q.activeControllers ⊆ p.activeControllers) : p.Migrates c q := by
  have hids : q.retiredSuiteIds = p.retiredSuiteIds := by
    unfold retiredSuiteIds
    rw [hcry]
  refine ⟨⟨?_, ?_, ?_, ?_⟩, fun _ hid => hids ▸ hid⟩
  · rw [hids, hcry]
    exact h.unretired
  · rw [hcry]
    exact h.first
  · rw [hcry]
    exact fun hmigr controller hcontroller =>
      h.covers hmigr controller (hact hcontroller)
  · intro migration hmig
    rw [hcry] at hmig
    have hbinds := h.binds migration hmig
    refine ⟨?_, ?_, fun controller hcontroller => hbinds.covers controller (hact hcontroller)⟩
    · rw [hids]
      exact hbinds.unretired
    · rw [hcry]
      exact hbinds.differs

variable {epoch : Epoch}

lemma of_unmigrated {stable : StableCrypto} (h : p.Suited c) (hstab : p.crypto = .stable stable)
    (hmigr : stable.migratedKeys = []) (hcry : q.crypto = p.crypto) : p.Migrates c q := by
  have hids : q.retiredSuiteIds = p.retiredSuiteIds := by
    unfold retiredSuiteIds
    rw [hcry]
  refine ⟨⟨?_, ?_, fun hne => ?_, fun migration hmig => ?_⟩, fun _ hid => hids ▸ hid⟩
  · rw [hids, hcry]
    exact h.unretired
  · rw [hcry]
    exact h.first
  · rw [hcry, hstab] at hne
    exact absurd hmigr hne
  · rw [hcry, hstab] at hmig
    cases hmig

variable {descriptor : ControllerDescriptor} {eventId beginEventId : EventId}

lemma enrollmentKey_none (h : p.enrollmentKey descriptor = .ok none) :
    ∃ stable, p.crypto = .stable stable ∧ stable.migratedKeys = [] := by
  unfold enrollmentKey at h
  split at h
  · rename_i stable hstab
    split at h
    · simp only [bind_ok, reject_ok, pure_ok] at h
      obtain ⟨-, -, -, -, h⟩ := h
      cases h
    · rename_i hunm
      exact ⟨stable, hstab, not_not.mp (not_or.mp hunm).2⟩
  · cases h
  · cases h

lemma addController (h : p.Suited c) (hkeyed : p.Keyed retired)
    (hsor : SortedBy ProjectedController.id p.activeControllers)
    (hok : p.addController c descriptor = .ok q) : p.Migrates c q := by
  obtain ⟨migratedKey, active, crypto, -, hkey, -, -, -, -, hact, henr, rfl⟩ :=
    addController_ok hok
  cases migratedKey with
  | none =>
    obtain rfl := Except.ok.inj henr
    obtain ⟨stable, hstab, hmigr⟩ := enrollmentKey_none hkey
    exact h.of_unmigrated hstab hmigr rfl
  | some key =>
    obtain ⟨stable, hstab, hmigr, rfl⟩ := enrollmentKey_some hkey
    rw [hstab] at henr
    simp only [CryptoProjection.enroll, bind_ok, pure_ok] at henr
    obtain ⟨migratedKeys, hins, rfl⟩ := henr
    have hcur : p.crypto.current = stable := by rw [hstab]; rfl
    have hnon : stable.migratedKeys ≠ [] := by
      rcases hmigr with hsuit | hmigr
      · exact fun hnil => hsuit (hcur ▸ h.first (hcur ▸ hnil))
      · exact hmigr
    obtain ⟨-, hperm, -⟩ := insertNew_ok (hcur ▸ hkeyed.sorted) hins
    obtain ⟨-, hpermActive, -⟩ := insertNew_ok hsor hact
    have hids : ({ p with
        activeControllers := active
        crypto := .stable { stable with migratedKeys := migratedKeys } } :
          Projection).retiredSuiteIds = p.retiredSuiteIds := by
      unfold retiredSuiteIds
      rw [hstab]
      rfl
    refine ⟨⟨?_, fun hnil => ?_, fun _ controller hcontroller => ?_, fun _ hmig => ?_⟩,
      fun _ hid => hids ▸ hid⟩
    · rw [hids]
      have hunr := h.unretired
      rwa [hcur] at hunr
    · obtain rfl : migratedKeys = [] := hnil
      exact absurd hperm.symm.eq_nil (cons_ne_nil _ _)
    · rcases mem_cons.mp (hpermActive.mem_iff.mp hcontroller) with rfl | hcontroller
      · exact ⟨_, hperm.mem_iff.mpr mem_cons_self, rfl⟩
      · obtain ⟨migrated, hmem, hid⟩ := h.covers (hcur ▸ hnon) controller hcontroller
        rw [hcur] at hmem
        exact ⟨migrated, hperm.mem_iff.mpr (mem_cons_of_mem _ hmem), hid⟩
    · cases hmig

lemma beginCryptoMigration {begin : BeginCryptoMigration} (h : p.Suited c)
    (hdif : begin.migration.fromSuiteId ≠ c.cryptoSuiteId begin.migration.toSuite)
    (hok : p.beginCryptoMigration c begin eventId = .ok q) : p.Migrates c q := by
  obtain ⟨previous, hstab, hfrom, hret, hbind, rfl⟩ :=
    beginCryptoMigration_ok hok
  have hcur : p.crypto.current = previous := by rw [hstab]; rfl
  have hids : p.retiredSuiteIds = previous.retiredSuites.map RetiredCryptoSuite.suiteId := by
    unfold retiredSuiteIds
    rw [hcur]
  have hunr := h.unretired
  have hfir := h.first
  have hcov := h.covers
  rw [hcur, hids] at hunr
  rw [hcur] at hfir hcov
  refine ⟨⟨hunr, hfir, hcov, fun migration hmig => ?_⟩,
    fun id hid => (hids ▸ hid : id ∈ previous.retiredSuites.map RetiredCryptoSuite.suiteId)⟩
  obtain rfl : begin.migration = migration := Option.some.inj hmig
  refine ⟨fun hmem => ?_, fun heq => hdif (hfrom.trans heq.symm), ?_⟩
  · obtain ⟨retired, hmem, hid⟩ := mem_map.mp hmem
    exact hret retired hmem hid
  · intro controller hcontroller
    obtain ⟨binding, hbin, hid, -⟩ := exists_of_forall₂ hbind hcontroller
    exact ⟨binding, hbin, hid⟩

lemma activateCryptoMigration {activate : ActivateCryptoMigration} (h : p.Suited c)
    (hok : p.activateCryptoMigration c activate eventId = .ok q) : p.Migrates c q := by
  obtain ⟨previous, migration, beginEventId, hcan, rfl⟩ :=
    activateCryptoMigration_ok hok
  obtain ⟨hunr, hfir, hcov, hbinds⟩ := h
  unfold retiredSuiteIds at hunr
  rw [hcan] at hunr hfir hcov hbinds
  refine ⟨⟨hunr, hfir, hcov, fun migration' hmig => ?_⟩, ?_⟩
  · obtain ⟨hunr, hdif, hcov⟩ := hbinds migration' hmig
    unfold retiredSuiteIds at hunr
    rw [hcan] at hunr hdif
    exact ⟨hunr, hdif, hcov⟩
  · unfold retiredSuiteIds
    rw [hcan]
    exact fun _ hid => hid

variable {migration : CryptoMigrationBody} {previous : StableCrypto}

lemma abort (h : p.Suited c) (hcan : p.crypto = .candidate previous migration beginEventId) :
    p.Migrates c { p with crypto := .stable previous, lifecycle := .active } := by
  obtain ⟨hunr, hfir, hcov, -⟩ := h
  unfold retiredSuiteIds at hunr
  rw [hcan] at hunr hfir hcov
  refine ⟨⟨hunr, hfir, hcov, nofun⟩, ?_⟩
  unfold retiredSuiteIds
  rw [hcan]
  exact fun _ hid => hid

lemma retirePrevious {activationEventId : EventId} (h : p.Suited c)
    (hdual : p.crypto = .dual previous migration beginEventId activationEventId)
    (hact : q.activeControllers = p.activeControllers)
    (hcry : q.crypto = .stable (previous.retire c migration p.controllers epoch)) :
    p.Migrates c q := by
  obtain ⟨hunr, hdif, hcov⟩ := h.binds migration (by rw [hdual]; rfl)
  have hids : q.retiredSuiteIds = p.retiredSuiteIds ++ [c.cryptoSuiteId previous.suite] := by
    unfold retiredSuiteIds
    rw [hdual, hcry]
    exact map_append
  have hcur : p.crypto.current = previous := by rw [hdual]; rfl
  rw [hcur] at hdif
  refine ⟨⟨?_, fun hnil => ?_, fun _ controller hcontroller => ?_, fun _ hmig => ?_⟩, ?_⟩
  · rw [hids, hcry]
    simpa [CryptoProjection.current, StableCrypto.retire, hdif] using hunr
  · rw [hcry] at hnil
    exact absurd (map_eq_nil_iff.mp hnil) migration.nonempty
  · rw [hact] at hcontroller
    obtain ⟨binding, hbin, hid⟩ := hcov controller hcontroller
    rw [hcry]
    exact ⟨_, mem_map_of_mem hbin, hid⟩
  · rw [hcry] at hmig
    cases hmig
  · rw [hids]
    exact subset_append_left _ _

lemma retireCryptoSuite {retire : RetireCryptoSuite} (h : p.Suited c)
    (hok : p.retireCryptoSuite c retire epoch = .ok q) : p.Migrates c q := by
  rcases retireCryptoSuite_ok hok with
    ⟨previous, migration, beginEventId, hcan, rfl⟩ |
    ⟨previous, migration, beginEventId, activationEventId, _, _, hdual, -, rfl⟩
  · exact h.abort hcan
  · exact h.retirePrevious hdual rfl rfl

variable {evidence : EventId → Option AdmissionEvidenceId}

lemma applyOperation {time : Option Timestamp} (h : p.Suited c) (hkeyed : p.Keyed retired)
    (hsound : p.Sound c) (hok : p.applyOperation evidence event time = .ok q) : p.Migrates c q := by
  cases applyOperation_changes hok with
  | devices hdev hq =>
    rw [hq]
    exact h.of_same rfl fun _ hmem => hmem
  | authorization hdev hok =>
    have hsorted := ((Projection.Safe.of_forall₂ hdev).sound hsound).devices.sorted
    obtain ⟨_, -, -, -, -, rfl⟩ := authorizeDevice_ok hsorted hok
    exact h.of_same rfl fun _ hmem => hmem
  | addController hok => exact h.addController hkeyed hsound.controllers.activeSorted hok
  | removeController hok =>
    obtain ⟨removed, remaining, revoked, htake, -, -, -, rfl⟩ := removeController_ok hok
    obtain ⟨-, -, hsub⟩ := takeOut_eq_some htake
    exact h.of_same rfl hsub.subset
  | settings hsame hpending => exact h.of_same hsame.crypto fun _ hmem => hsame.active ▸ hmem
  | recovery hop hsame hplan => exact h.of_same hsame.crypto fun _ hmem => hsame.active ▸ hmem
  | finalizeRecovery hop hok =>
    obtain ⟨hcry, pending, _, next, -, -, -, -, hinst, rfl⟩ := finalizeRecovery_ok hok
    obtain ⟨stable, hstab, -, hmigr⟩ := requireV1RecoveryCrypto_ok hcry
    obtain ⟨revoked, -, -, -, rfl⟩ := installRecoveryPlan_ok hinst
    exact h.of_unmigrated hstab hmigr rfl
  | beginCryptoMigration hop hok =>
    have hdif := event.planValid
    rw [hop] at hdif
    exact h.beginCryptoMigration hdif hok
  | activateCryptoMigration hok => exact h.activateCryptoMigration hok
  | retireCryptoSuite hop hok => exact h.retireCryptoSuite hok

lemma applyLinear (h : p.Suited c) (hkeyed : p.Keyed retired) (hsound : p.Sound c)
    (hok : p.applyLinear evidence event = .ok (epoch, q)) : p.Migrates c q := by
  obtain ⟨-, -, time, next, -, hnext, rfl⟩ := applyLinear_ok hok
  obtain ⟨hsuited, hret⟩ := h.applyOperation hkeyed hsound hnext
  refine ⟨(hsuited.of_same ?_ ?_).suited, hret⟩
  · rfl
  · exact fun _ hmem => hmem

lemma applyResolution {resolution : ResolveFork} (h : p.Suited c)
    (hok : p.applyResolution resolution event = .ok q) : p.Migrates c q := by
  obtain ⟨_, _, _, hact, -, -, -, -, rfl⟩ := Projection.Safe.applyResolution_ok hok
  exact h.of_same rfl hact

end Projection.Suited

/-! ## Approvals -/

/-- A projection whose keys are recorded and whose suites are in order. -/
def Projection.Settled (c : Primitives) (p : Projection) : Prop := p.Recorded c ∧ p.Suited c

lemma verifyKeys_suites {signatures : List KeyedSignature} {message : Bytes}
    {keys : List VerificationKey} (h : verifyKeys c signatures message keys = .ok ()) :
    ∀ key ∈ keys, ∃ signature ∈ signatures, signature.cryptoSuiteId = key.cryptoSuiteId := by
  induction keys with
  | nil => simp
  | cons expected rest ih =>
    simp only [verifyKeys, bind_ok, okOr_ok, signatureFor] at h
    obtain ⟨keyed, hfoun, ⟨⟩, -, hrest⟩ := h
    have hsuit := find?_some hfoun
    simp only [decide_eq_true_eq] at hsuit
    refine forall_mem_cons.mpr ⟨?_, ih hrest⟩
    exact ⟨keyed, mem_of_find?_eq_some hfoun, hsuit.1⟩

/-- Every approval carries a signature of a suite that the state has not retired. -/
def Projection.ApprovedByLiveSuites (authority : Projection) (event : AuthorizedEvent c) : Prop :=
  ∀ approval ∈ event.approvals.asSlice,
    ∃ signature ∈ approval.signatures, signature.cryptoSuiteId ∉ authority.retiredSuiteIds

lemma Projection.Settled.approvedByLiveSuites {lineage authority : Projection}
    {epoch : Epoch} {time : Option Timestamp} (hsettled : authority.Settled c)
    (h : validateEvent c lineage authority event epoch = .ok time) :
    authority.ApprovedByLiveSuites event := by
  obtain ⟨⟨hsound, retired, -, hkeyed⟩, hsuited⟩ := hsettled
  intro approval happ
  cases hneed : event.body.operation.requiresEmptyControllerApprovals with
  | true =>
    have hemp := event.cardinality
    rw [hneed, List.isEmpty_iff] at hemp
    rw [hemp] at happ
    cases happ
  | false =>
    obtain ⟨selector, requiredWeight, -, hpas⟩ := passes_of_validateEvent hneed h
    obtain ⟨⟨previous, controller, hsig⟩, hver⟩ := hpas.verifies approval happ
    obtain ⟨hmem, hid⟩ := mem_of_lookup (validateSigner_ok hsig).1
    simp only [verifyControllerApproval, verifySignatures, bind_ok, reject_ok] at hver
    obtain ⟨keys, hkeys, -, -, hver⟩ := hver
    obtain ⟨keys', hkeys', hcount, -, hlive⟩ :=
      hsuited.verificationKeys hkeyed hsound.controllers.activeSorted hmem
    rw [hid, hkeys] at hkeys'
    obtain rfl := Except.ok.inj hkeys'
    have hpos : 0 < keys.length := hcount ▸ authority.crypto.keyCount_pos
    obtain ⟨key, hkey⟩ := exists_mem_of_length_pos hpos
    obtain ⟨signature, hsign, hsuit⟩ := verifyKeys_suites hver key hkey
    exact ⟨signature, hsign, hsuit ▸ (hlive key hkey).suite⟩

/-! ## Every history -/

lemma preserved_settled : AccountState.ProjectionPreserved c (Projection.Settled c) where
  linear := by
    rintro p q evidence event epoch ⟨hrec, hsuited⟩ hok
    have ⟨hsound, retired, _, hkeyed⟩ := hrec
    exact ⟨preserved_recorded.linear hrec hok, (hsuited.applyLinear hkeyed hsound hok).suited⟩
  resolution := by
    rintro p q resolution event ⟨hrec, hsuited⟩ hop hok
    exact ⟨preserved_recorded.resolution hrec hop hok, (hsuited.applyResolution hok).suited⟩
  moved := by
    rintro p sequence heads ⟨hrec, hsuited⟩
    refine ⟨preserved_recorded.moved sequence heads hrec, (hsuited.of_same ?_ ?_).suited⟩
    · rfl
    · exact fun _ hmem => hmem
  forked := by
    rintro p ⟨hrec, hsuited⟩
    refine ⟨preserved_recorded.forked hrec, (hsuited.of_same ?_ ?_).suited⟩
    · rfl
    · exact fun _ hmem => hmem

lemma settled_fromGenesis (genesis : AccountGenesis c) :
    (AccountState.fromGenesis genesis).projection.Settled c := by
  refine ⟨recorded_fromGenesis genesis, not_mem_nil, fun _ => rfl, fun hne => ?_,
    fun _ hmig => ?_⟩
  · exact absurd rfl hne
  · cases hmig

namespace AccountState
variable {s s' : AccountState c}

lemma mem_states_authority (entry : LineageEntry c) : entry.authority ∈ entry.states := by
  unfold LineageEntry.authority LineageEntry.states
  cases entry.authorityState with
  | none => exact mem_cons_self
  | some authority => exact mem_cons_of_mem _ (mem_singleton.mpr rfl)

/-- The transition is in the lineage or in a branch of the open fork. -/
def HasTransition (s : AccountState c) (entry : LineageEntry c) : Prop :=
  entry ∈ s.lineage ∨ ∃ fork, s.fork = some fork ∧ ∃ branch ∈ fork.branches,
    entry ∈ branch.transitions

lemma HasTransition.retained {entry : LineageEntry c} (h : s.HasTransition entry) :
    Retained s entry.authority := by
  rcases h with h | ⟨fork, hfork, branch, hbran, h⟩
  · exact .child (mem_children_of_lineage h (mem_states_authority entry)) (.refl _)
  · exact .child (mem_children_of_branch hfork hbran
      (mem_states_of_transition h (mem_states_authority entry))) (.refl _)

/-- A replay is judged by the state that judged the event when it was accepted. -/
lemma tryReplay_revalidates {outcome : ApplyOutcome}
    (h : s.tryReplay event = .ok (some (s', outcome))) :
    ∃ entry time, s.HasTransition entry ∧ entry.event.eventId = event.eventId ∧
      revalidate entry event = .ok time := by
  rcases tryReplay_cases h with ⟨_, entry, hind, hent, h⟩ |
    ⟨fork, transition, rest, -, hfork, htran, h⟩
  · simp only [replayLineage, bind_ok] at h
    obtain ⟨time, hvalid, -⟩ := h
    obtain ⟨hlt, hid, -⟩ := findIdx?_eq_some_iff_getElem.mp hind
    rw [getElem?_eq_getElem hlt] at hent
    obtain rfl := Option.some.inj hent
    exact ⟨_, time, .inl (getElem_mem hlt), of_decide_eq_true hid, hvalid⟩
  · rw [htran] at h
    simp only [replayFork, mergeTransitions, bind_ok] at h
    obtain ⟨_, ⟨time, hvalid, -⟩, -⟩ := h
    have hmem : transition ∈ fork.transitionsOf event.eventId := by
      rw [htran]
      exact mem_cons_self
    obtain ⟨branch, hbran, htrans⟩ := mem_flatMap.mp hmem
    obtain ⟨htrans, hid⟩ := mem_filter.mp htrans
    exact ⟨transition, time, .inr ⟨fork, hfork, branch, hbran, htrans⟩, of_decide_eq_true hid,
      hvalid⟩

lemma Accepts.keepsRetired {evidence : EventId → Option AdmissionEvidenceId}
    {pre post : AccountState c} {base : Projection} {entry : LineageEntry c}
    (h : Accepts evidence pre event base entry post) (hbase : base.Settled c) :
    base.retiredSuiteIds ⊆ post.projection.retiredSuiteIds := by
  obtain ⟨⟨hsound, retired, -, hkeyed⟩, hsuited⟩ := hbase
  cases h with
  | linear hproj => exact (hsuited.applyLinear hkeyed hsound hproj).retired
  | resolution hproj =>
    obtain ⟨_, _, _, -, -, -, -, -, -, hp⟩ := projectResolution_ok hproj
    exact (hsuited.applyResolution hp).retired

/-- In every retained projection of every history, every active controller has the
keys of the phase, none of a retired suite and none retired. So no state accepts an approval whose
signatures are all of suites that it has retired: neither the state that judges a new event nor the
one that judges a replay, which is the one that judged the event before. Events keep what their
state has retired. -/
theorem live_keys_of_reachable {genesis : AccountGenesis c} (h : Reachable genesis s) :
    (∀ t, Retained s t → ∀ controller ∈ t.projection.activeControllers,
      ∃ keys, t.projection.verificationKeys c controller.id = .ok keys ∧
        keys.length = t.projection.crypto.keyCount ∧
        (keys.map VerificationKey.cryptoSuiteId).Nodup ∧ ∀ key ∈ keys, key.Live t.projection) ∧
    (∀ event s' outcome, s.validateAndApply event = .ok (s', outcome) →
      outcome.disposition = .replay ∨ outcome.disposition = .approvalsMerged →
      ∃ entry time, s.HasTransition entry ∧ entry.event.eventId = event.eventId ∧
        revalidate entry event = .ok time ∧
        entry.authority.projection.ApprovedByLiveSuites event) ∧
    ∀ event s' outcome, s.validateAndApply event = .ok (s', outcome) →
      outcome.disposition = .applied ∨ outcome.disposition = .forkDetected →
      ∃ pre authority base product, Retained s pre ∧ pre.projection.NamedBy event.body ∧
        JudgedBy event pre authority ∧ authority.ApprovedByLiveSuites event ∧
        ActsOn event pre base ∧ Produced event s' product ∧
        base.retiredSuiteIds ⊆ product.retiredSuiteIds := by
  have hsettled : All (fun t => t.projection.Settled c) s :=
    preserved_settled.preserved.all_of_reachable (settled_fromGenesis genesis) h
  refine ⟨fun t ht controller hcontroller => ?_, fun event s' outcome hok hdisposition => ?_,
    fun event s' outcome hok hdisposition => ?_⟩
  · obtain ⟨⟨hsound, retired, -, hkeyed⟩, hsuited⟩ := hsettled t ht
    exact hsuited.verificationKeys hkeyed hsound.controllers.activeSorted hcontroller
  · rcases validateAndApply_cases hok with hreplay | ⟨-, hok⟩
    · obtain ⟨entry, time, hentry, hid, hvalid⟩ := tryReplay_revalidates hreplay
      exact ⟨entry, time, hentry, hid, hvalid,
        (hsettled _ hentry.retained).approvedByLiveSuites hvalid⟩
    · have hnew := (applyNew_ok hok).2.1
      rcases hdisposition with hd | hd
      · simp [hd] at hnew
      · simp [hd] at hnew
  · obtain ⟨evidence, pre, base, entry, post, hretained, haccepts, hproduced⟩ :=
      (new_of_disposition hok hdisposition).lands
    obtain ⟨judge, epoch, time, hpre, hjudged, hvalid⟩ := haccepts.judged
    have hlive := (hsettled judge (hretained.trans hpre)).approvedByLiveSuites hvalid
    have hbase : base.Settled c :=
      haccepts.base_of_all fun t ht => hsettled t (hretained.trans ht)
    exact ⟨pre, judge.projection, base, post.projection, hretained, haccepts.named, hjudged, hlive,
      haccepts.actsOn, hproduced, haccepts.keepsRetired hbase⟩

theorem live_keys_after_migration : migrated.projection.retiredSuiteIds = [⟨number 1⟩] ∧
      ∀ controller ∈ migrated.projection.activeControllers, ∃ keys,
        migrated.projection.verificationKeys primitives controller.id = .ok keys ∧
          keys.length = 1 ∧ ∀ key ∈ keys, key.Live migrated.projection := by
  have hreachable : Reachable migratingAccount migrated :=
    .deliver _ (.deliver _ (.deliver _ .fromGenesis))
  have hcount : migrated.projection.crypto.keyCount = 1 := by decide +kernel
  refine ⟨by decide +kernel, fun controller hcontroller => ?_⟩
  obtain ⟨keys, hkeys, hlength, -, hlive⟩ :=
    (live_keys_of_reachable hreachable).1 _ (.refl _) controller hcontroller
  exact ⟨keys, hkeys, hlength.trans hcount, hlive⟩

/-- A resolution is judged by the state before the fork: signed only with the key of a suite that
the selected branch has retired, it is accepted and extends that branch. And the event that began
the migration is replayed, although the only key that signed it is retired. -/
theorem resolution_signed_by_retired_suite :
    Reachable migratingAccount (migrated.deliver (firstEvent 4)) ∧
      migrated.projection.retiredSuiteIds = [⟨number 1⟩] ∧
      (∀ approval ∈ resolution.approvals.asSlice, ∀ signature ∈ approval.signatures,
        signature.cryptoSuiteId = ⟨number 1⟩) ∧
      ((migrated.deliver (firstEvent 4)).validateAndApply resolution).toOption.map
        (fun result => (result.2.disposition, result.1.projection.retiredSuiteIds)) =
          some (.applied, [⟨number 1⟩]) ∧
      (∀ approval ∈ beginMigration.approvals.asSlice, ∀ signature ∈ approval.signatures,
        signature.cryptoSuiteId = ⟨number 1⟩) ∧
      (migrated.validateAndApply beginMigration).toOption.map
        (fun result => result.2.disposition) = some .replay :=
  ⟨.deliver _ (.deliver _ (.deliver _ (.deliver _ .fromGenesis))), by decide +kernel,
    by decide +kernel, by decide +kernel, by decide +kernel, by decide +kernel⟩

end AccountState
end Krikos.Identity
