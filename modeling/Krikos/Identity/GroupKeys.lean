import Krikos.Identity.Epochs
import Krikos.Identity.Store

/-!
# Identity.GroupKeys

Protected writes and the devices that hold the group keys. A rotation is made for the active devices
of one epoch. As long as the epoch that the store shows is the epoch of every head, a write that is
authorized is under a rotation of that epoch, and its recipients are still active at every head.
-/

namespace Krikos.Identity

open Lib GroupKeyDistributionSnapshot FixedBytes List Table

variable {c : Primitives} {s s' : AccountState c} {event : AuthorizedEvent c}
  {a b : StoredAccount c} {hashes : StoreHashes c} {outcome : ApplyOutcome}
  {emitted : List (AccountId × ProjectionEffect)} {accountId : AccountId}

namespace AccountState

/-! ## Historical conflicts -/

variable {path : List (AuthorizedEvent c)}

lemma replayPath_chain {bytes : Nat} {transitions : List (LineageEntry c)} {tip : AccountState c}
    (h : s.replayPath bytes path = .ok (transitions, tip)) :
    (s.projection :: passed transitions ++ [tip.projection]).Pairwise Projection.Precedes ∧
      ∀ entry ∈ transitions, entry.preState.ForkSteady := by
  induction path generalizing s bytes transitions with
  | nil =>
    obtain ⟨rfl, rfl⟩ : [] = transitions ∧ s = tip := by simpa [replayPath] using h
    refine ⟨?_, fun entry hent => by cases hent⟩
    exact Projection.pairwise_cons_self (pairwise_singleton _ _)
  | cons accepted rest ih =>
    simp only [replayPath, bind_ok, reject_ok, pure_ok, Prod.mk.injEq] at h
    obtain ⟨epoch, -, _, -, next, hnext, _, -, _, -, _, -, ⟨later, tip'⟩, hrest, rfl, rfl⟩ := h
    obtain ⟨hchain, hsett⟩ := ih hrest
    obtain ⟨epoch', p, evicted, lineage, bytes', hproj, -, rfl⟩ := applyNewLinear_ok hnext
    have hstep : s.projection.Precedes p := Projection.applyLinear_precedes hproj
    obtain ⟨hfir, hlat⟩ := pairwise_cons.mp hchain
    refine ⟨Projection.pairwise_cons_self (pairwise_cons.mpr
      ⟨fun q hq => hstep.trans (hfir q hq), hlat⟩), fun entry hent => ?_⟩
    rcases mem_cons.mp hent with rfl | hent
    · exact forkSteady_unforked rfl
    · exact hsett entry hent

lemma historicalConflict_moves {pre : AccountState c}
    {outcome : ApplyOutcome} (hfork : s.fork = none)
    (h : s.validateAndApplyHistoricalConflict pre path event = .ok (s', outcome)) :
    s'.Steady ∧ Moves s s' outcome.effects := by
  simp only [validateAndApplyHistoricalConflict, openForkFrom, bind_ok, okOr_ok, reject_ok,
    pure_ok, Prod.mk.injEq] at h
  obtain ⟨_, -, _, -, _, -, _, -, _, -, _, -, _, -, _, -, ⟨transitions, tip⟩, hpath, _, htip,
    forked, ⟨_, -, _, -, right, hright, hopen⟩, rfl, rfl⟩ := h
  obtain ⟨hchain, hsett⟩ := replayPath_chain hpath
  rw [not_not.mp htip] at hchain
  obtain ⟨ancestor, entry, branches, maximum, heads, hlast, hsor, -, hheads, rfl⟩ :=
    forkOff_ok hopen
  have hacc : Accepts (fun _ => none) pre.detachedSnapshot event pre.projection entry
      right.detachedSnapshot := accepts_of_linear hright hlast
  have hstead : pre.detachedSnapshot.ForkSteady := forkSteady_unforked rfl
  exact moves_opened hfork (.refl _) hchain hsett hacc.pre_eq (hacc.forkSteady hstead) rfl
    (hacc.precedes hstead) hsor hheads _ rfl

end AccountState

namespace StoredAccount
variable {devices : DeviceId → Prop}

lemma unforked_of_linearPath {acceptedId : EventId} {path : List (AuthorizedEvent c)}
    (hs : s.Steady) (h : a.authenticatedLinearPath s.projection.heads acceptedId = .ok path) :
    s.fork = none := by
  unfold authenticatedLinearPath at h
  split at h
  · rename_i head hhead
    cases hfork : s.fork with
    | none => rfl
    | some fork =>
      obtain ⟨hlen, htwo⟩ := hs.fork.heads hfork
      rw [← hlen, hhead] at htwo
      exact absurd htwo (by simp)
  · cases h

lemma applyEvent_moves (hs : s.Steady) (h : a.applyEvent s event = .ok (s', outcome)) :
    s'.Steady ∧ s.Moves s' outcome.effects := by
  unfold applyEvent at h
  split at h
  · rename_i result hres
    obtain rfl := Except.ok.inj h
    exact AccountState.validateAndApply_moves hs hres
  · simp only [applyAuthenticatedHistoricalConflict, bind_ok, okOr_ok] at h
    obtain ⟨_, -, _, -, path, hpath, pre, -, h⟩ := h
    exact AccountState.historicalConflict_moves (unforked_of_linearPath hs hpath) h
  · cases h

/-! ## What a rotation covers -/

/-- Devices that were active in an epoch: as long as every head is of that epoch, they are active at
every head. -/
structure Covers (s : AccountState c) (epoch : Epoch) (devices : DeviceId → Prop) : Prop where
  reached : ∃ tip ∈ s.tips, epoch ≤ tip.epoch
  active : s.Level → s.projection.epoch = epoch →
    ∀ deviceId, devices deviceId → ∀ tip ∈ s.tips, tip.Active deviceId

lemma Covers.moves {epoch : Epoch} {effects : List ProjectionEffect}
    (h : Covers s epoch devices) (hmov : s.Moves s' effects) : Covers s' epoch devices where
  reached := hmov.peak epoch h.reached
  active hlevel hepoch deviceId hdevice := by
    rcases hmov.level hlevel with ⟨hlevel, hsame, hact⟩ | ⟨hris, -⟩
    · exact hact deviceId (h.active hlevel (hsame ▸ hepoch) deviceId hdevice)
    · obtain ⟨tip, htip, hle⟩ := h.reached
      exact absurd hle (not_le.mpr (hepoch ▸ hris tip htip))

lemma covers_unforked (h : s.fork = none) : Covers s s.projection.epoch s.projection.Active where
  reached := ⟨s.projection, by rw [AccountState.tips_unforked h]; exact mem_cons_self, le_rfl⟩
  active _ _ deviceId hdevice tip htip := by
    rw [AccountState.tips_unforked h] at htip
    rw [mem_singleton.mp htip]
    exact hdevice

lemma Covers.mono {epoch : Epoch} {fewer : DeviceId → Prop} (h : Covers s epoch devices)
    (hfew : ∀ deviceId, fewer deviceId → devices deviceId) : Covers s epoch fewer :=
  ⟨h.reached, fun hlevel hepoch deviceId hdevice =>
    h.active hlevel hepoch deviceId (hfew deviceId hdevice)⟩

end StoredAccount

def StoredGroupKeyRotation.Receives (rotation : StoredGroupKeyRotation) (deviceId : DeviceId) :
    Prop :=
  deviceId ∈ rotation.recipientKeyWraps.map WrappedGroupKey.recipientDeviceId

instance (rotation : StoredGroupKeyRotation) (deviceId : DeviceId) :
    Decidable (rotation.Receives deviceId) :=
  inferInstanceAs (Decidable (_ ∈ _))

/-! ## Histories of a store -/

/-- A store with the states that were loaded from it and the effects that it was asked for. -/
structure Session (c : Primitives) where
  stored : StoredAccount c
  loaded : List (AccountState c)
  emitted : List (AccountId × ProjectionEffect)

open Session

def ApplyOutcome.emits (outcome : ApplyOutcome) (accountId : AccountId) :
    List (AccountId × ProjectionEffect) :=
  outcome.effects.map fun effect => (accountId, effect)

/-- One request to the store of an account, which is found by the account that the request names. A
rotation is made for a state that was loaded at some time before; a request that fails changes
nothing. -/
inductive StoreStep (hashes : StoreHashes c) (genesis : AccountGenesis c) (session : Session c) :
    Session c → Prop where
  | load {snapshot : AccountSnapshot c} (loads : session.stored.snapshot = .ok snapshot) :
      StoreStep hashes genesis session { session with loaded := snapshot.state :: session.loaded }
  | commitEvent {revision : AccountRevision} {event : AuthorizedEvent c}
      {stored : StoredAccount c} {outcome : ApplyOutcome}
      (routed : revision.accountId = c.accountId genesis.toGenesisBody)
      (commits : session.stored.commitEvent hashes revision event = .ok (stored, outcome)) :
      StoreStep hashes genesis session { session with
        stored := stored
        emitted := session.emitted ++ outcome.emits revision.accountId }
  | commitEvents {revision : AccountRevision} {events : List (AuthorizedEvent c)}
      {stored : StoredAccount c} {outcomes : List ApplyOutcome}
      (routed : revision.accountId = c.accountId genesis.toGenesisBody)
      (commits : session.stored.commitEvents hashes revision events = .ok (stored, outcomes)) :
      StoreStep hashes genesis session { session with
        stored := stored
        emitted := session.emitted ++
          outcomes.flatMap fun outcome => outcome.emits revision.accountId }
  | claimEffects (request : ClaimEffects) :
      StoreStep hashes genesis session
        { session with stored := (session.stored.claimEffects request).1 }
  | completeEffect {effectId : EffectId} {leaseId : LeaseId} {completedAt : Timestamp}
      {stored : StoredAccount c}
      (completes : session.stored.completeEffect effectId leaseId completedAt = .ok stored) :
      StoreStep hashes genesis session { session with stored := stored }
  | retryEffect {effectId : EffectId} {leaseId : LeaseId} {retryAt : Timestamp}
      {failure : EffectFailure} {stored : StoredAccount c} {exhausted : Bool}
      (retries : session.stored.retryEffect effectId leaseId retryAt failure =
        .ok (stored, exhausted)) :
      StoreStep hashes genesis session { session with stored := stored }
  | rotate {source : AccountState c} {applicationId : ApplicationId} {groupId : GroupId}
      {groupKeyEpoch : GroupKeyEpoch} {recipientIds : List DeviceId}
      {snapshot : GroupKeyDistributionSnapshot} {wraps : RecipientKeyWraps}
      {rotation : GroupKeyRotation} {effectId : EffectId} {leaseId : LeaseId}
      {completedAt : Timestamp} {stored : StoredAccount c} (loaded : source ∈ session.loaded)
      (captures : fromPostState source applicationId groupId
        groupKeyEpoch recipientIds = .ok snapshot)
      (completes : GroupKeyRotation.fromSnapshot snapshot wraps = .ok rotation)
      (commits : session.stored.commitGroupKeyRotation effectId leaseId rotation completedAt =
        .ok stored) :
      StoreStep hashes genesis session { session with stored := stored }

/-- Any number of requests. -/
abbrev StoreRun (hashes : StoreHashes c) (genesis : AccountGenesis c) :
    Session c → Session c → Prop :=
  Relation.ReflTransGen (StoreStep hashes genesis)

abbrev StoreHistory (hashes : StoreHashes c) (genesis : AccountGenesis c) : Session c → Prop :=
  StoreRun hashes genesis ⟨.create genesis, [], []⟩

/-- No two effects of the history have one identifier. -/
def Session.Distinct (hashes : StoreHashes c) (session : Session c) : Prop :=
  Set.InjOn (fun pair : AccountId × ProjectionEffect => hashes.effectId pair.1 pair.2)
    {pair | pair ∈ session.emitted}

instance (hashes : StoreHashes c) (session : Session c) : Decidable (session.Distinct hashes) :=
  decidable_of_iff (∀ left ∈ session.emitted, ∀ right ∈ session.emitted,
    hashes.effectId left.1 left.2 = hashes.effectId right.1 right.2 → left = right)
    ⟨fun h left hleft right hright => h left hleft right hright,
      fun h _ hleft _ hright => h hleft hright⟩

/-! ## The outbox -/

def OutboxOf (hashes : StoreHashes c) (emitted : List (AccountId × ProjectionEffect))
    (outbox : Table EffectId EffectRecord) : Prop :=
  ∀ effectId record, (effectId, record) ∈ outbox.rows →
    effectId = hashes.effectId record.accountId record.effect ∧
      (record.accountId, record.effect) ∈ emitted

def AsksFor (outbox : Table EffectId EffectRecord) (epoch : Epoch) : Prop :=
  ∃ effectId record, (effectId, record) ∈ outbox.rows ∧
    StoredAccount.rotationEpoch record.effect = some epoch

namespace StoredAccount
variable {outbox : Table EffectId EffectRecord} {outbox' : Table EffectId EffectRecord}

/-- The two records are of one effect. -/
structure SameEffect (record record' : EffectRecord) : Prop where
  account : record'.accountId = record.accountId
  effect : record'.effect = record.effect

/-- Effects are only added; the records keep their effects. -/
structure Keeps (outbox outbox' : Table EffectId EffectRecord) : Prop where
  old {effectId : EffectId} {record : EffectRecord} : (effectId, record) ∈ outbox.rows →
    ∃ record', (effectId, record') ∈ outbox'.rows ∧ SameEffect record record'

lemma Keeps.refl (outbox : Table EffectId EffectRecord) : Keeps outbox outbox :=
  ⟨fun h => ⟨_, h, rfl, rfl⟩⟩

lemma Keeps.trans {outbox'' : Table EffectId EffectRecord} (h : Keeps outbox outbox')
    (h' : Keeps outbox' outbox'') : Keeps outbox outbox'' where
  old hrow := by
    obtain ⟨record', hrow', hsame⟩ := h.old hrow
    obtain ⟨record'', hrow'', hsame'⟩ := h'.old hrow'
    exact ⟨record'', hrow'', hsame'.account.trans hsame.account, hsame'.effect.trans hsame.effect⟩

lemma Keeps.asksFor {epoch : Epoch}
    (h : Keeps outbox outbox') (hasks : AsksFor outbox epoch) : AsksFor outbox' epoch := by
  obtain ⟨effectId, record, hrow, hepoch⟩ := hasks
  obtain ⟨record', hrow', hsame⟩ := h.old hrow
  exact ⟨effectId, record', hrow', by rw [hsame.effect, hepoch]⟩

/-- The effects that the store is asked for are in the outbox then, unless another effect has the
identifier of one. -/
lemma insertEffects_spec {effects : List ProjectionEffect} (hout : OutboxOf hashes emitted outbox)
    (hdistinct : Set.InjOn (fun pair : AccountId × ProjectionEffect =>
      hashes.effectId pair.1 pair.2) {pair | pair ∈ emitted})
    (hmem : ∀ effect ∈ effects, (accountId, effect) ∈ emitted) :
    Keeps outbox (insertEffects hashes accountId outbox effects) ∧
      OutboxOf hashes emitted (insertEffects hashes accountId outbox effects) ∧
      ∀ effect ∈ effects, ∃ effectId record,
        (effectId, record) ∈ (insertEffects hashes accountId outbox effects).rows ∧
          record.effect = effect := by
  induction effects generalizing outbox with
  | nil => exact ⟨.refl outbox, hout, forall_mem_nil _⟩
  | cons first rest ih =>
    obtain ⟨hfir, hrest⟩ := forall_mem_cons.mp hmem
    unfold insertEffects
    dsimp only
    split
    · rename_i hsome
      obtain ⟨hkeeps, hrow, hall⟩ := ih hout hrest
      refine ⟨hkeeps, hrow, forall_mem_cons.mpr ⟨?_, hall⟩⟩
      obtain ⟨record, hrec⟩ := Option.isSome_iff_exists.mp hsome
      obtain ⟨hid, hemit⟩ := hout _ record (get_eq_some.mp hrec)
      have hsame := hdistinct hfir hemit hid
      obtain ⟨record', hrow', hkept⟩ := hkeeps.old (get_eq_some.mp hrec)
      exact ⟨_, record', hrow', hkept.effect.trans (congrArg Prod.snd hsame).symm⟩
    · rename_i hnone
      have hins : OutboxOf hashes emitted (outbox.insert (hashes.effectId accountId first)
          ⟨hashes.effectId accountId first, accountId, first, .pending (.scheduled 0), 0, none⟩) := by
        intro effectId record hrow
        rcases mem_insert.mp hrow with ⟨rfl, rfl⟩ | ⟨-, hold⟩
        · exact ⟨rfl, hfir⟩
        · exact hout effectId record hold
      obtain ⟨hkeeps, hrow, hall⟩ := ih hins hrest
      refine ⟨Keeps.trans ⟨fun {effectId record} hold => ?_⟩ hkeeps, hrow,
        forall_mem_cons.mpr ⟨?_, hall⟩⟩
      · refine ⟨record, mem_insert.mpr (.inr ⟨fun heq => hnone ?_, hold⟩), rfl, rfl⟩
        rw [← heq, get_eq_some.mpr hold]
        rfl
      · obtain ⟨record', hrow', hkept⟩ := hkeeps.old (mem_insert.mpr (.inl ⟨rfl, rfl⟩))
        exact ⟨_, record', hrow', hkept.effect⟩

end StoredAccount

/-! ## The invariant of a history -/

/-- The outbox asks for a rotation in the epoch that is shown, and every rotation and every loaded
state is covered. -/
structure Session.Guarded (hashes : StoreHashes c) (session : Session c) : Prop where
  steady : session.stored.projection.Steady
  outbox : OutboxOf hashes session.emitted session.stored.outbox
  asks : session.stored.projection.Level → session.stored.projection.projection.epoch = 0 ∨
    AsksFor session.stored.outbox session.stored.projection.projection.epoch
  rotations : ∀ key rotation, (key, rotation) ∈ session.stored.groupKeyRotations.rows →
    StoredAccount.Covers session.stored.projection rotation.authorizingAccountEpoch
      rotation.Receives
  loaded : ∀ s ∈ session.loaded, s.Steady ∧ (s.fork = none →
    StoredAccount.Covers session.stored.projection s.projection.epoch s.projection.Active)

namespace StoredAccount
variable {loaded : List (AccountState c)}

lemma guarded_create (hashes : StoreHashes c) (genesis : AccountGenesis c) :
    Guarded hashes ⟨create genesis, [], []⟩ where
  steady := AccountState.steady_fromGenesis genesis
  outbox _ _ hrow := by cases hrow
  asks _ := .inl rfl
  rotations _ _ hrow := by cases hrow
  loaded _ hs := by cases hs

lemma groupKeyRotations_insertEvent :
    (a.insertEvent hashes event).groupKeyRotations = a.groupKeyRotations := by
  unfold insertEvent
  dsimp only
  split
  · rfl
  · rfl

variable (h : Guarded hashes ⟨a, loaded, emitted⟩)

include h

lemma guarded_absorb (happ : a.applyEvent a.projection event = .ok (s', outcome))
    (hdistinct : Distinct hashes
      ⟨a.absorb hashes accountId event s' outcome, loaded, emitted ++ outcome.emits accountId⟩) :
    Guarded hashes
      ⟨a.absorb hashes accountId event s' outcome, loaded, emitted ++ outcome.emits accountId⟩ := by
  obtain ⟨hstead, hmov⟩ := applyEvent_moves h.steady happ
  have hout : OutboxOf hashes (emitted ++ outcome.emits accountId) a.outbox := by
    intro effectId record hrow
    obtain ⟨hid, hmem⟩ := h.outbox effectId record hrow
    exact ⟨hid, mem_append_left _ hmem⟩
  have hemits : ∀ effect ∈ outcome.effects,
      (accountId, effect) ∈ emitted ++ outcome.emits accountId :=
    fun effect heff => mem_append_right _ (mem_map_of_mem heff)
  obtain ⟨hkeeps, hrows, hall⟩ := insertEffects_spec hout hdistinct hemits
  refine ⟨hstead, hrows, fun hlevel => ?_, ?_, ?_⟩
  · rcases hmov.level hlevel with ⟨hlevel, hepoch, -⟩ | ⟨-, eventId, hrotat⟩
    · show s'.projection.epoch = 0 ∨ AsksFor _ s'.projection.epoch
      rw [hepoch]
      exact (h.asks hlevel).imp_right hkeeps.asksFor
    · obtain ⟨effectId, record, hrow, heff⟩ := hall _ hrotat
      exact .inr ⟨effectId, record, hrow, by rw [heff]; rfl⟩
  · intro key rotation hrow
    rw [show (a.absorb hashes accountId event s' outcome).groupKeyRotations = a.groupKeyRotations
      from groupKeyRotations_insertEvent] at hrow
    exact (h.rotations key rotation hrow).moves hmov
  · intro state hstat
    obtain ⟨hstateSteady, hcovers⟩ := h.loaded state hstat
    exact ⟨hstateSteady, fun hfork => (hcovers hfork).moves hmov⟩

lemma guarded_absorbAll {events : List (AuthorizedEvent c)} {outcomes : List ApplyOutcome}
    (habs : absorbAll hashes accountId a events = .ok (b, outcomes))
    (hdistinct : Distinct hashes
      ⟨b, loaded, emitted ++ outcomes.flatMap fun outcome => outcome.emits accountId⟩) :
    Guarded hashes
      ⟨b, loaded, emitted ++ outcomes.flatMap fun outcome => outcome.emits accountId⟩ := by
  induction events generalizing a emitted outcomes with
  | nil =>
    obtain ⟨rfl, rfl⟩ : a = b ∧ [] = outcomes := by simpa [absorbAll] using habs
    simpa using h
  | cons event rest ih =>
    simp only [absorbAll, bind_ok, reject_ok, pure_ok, Prod.mk.injEq] at habs
    obtain ⟨_, -, ⟨state, outcome⟩, happ, ⟨committed, later⟩, hrest, rfl, rfl⟩ := habs
    have hemit : emitted ++ (outcome :: later).flatMap (fun outcome => outcome.emits accountId) =
        emitted ++ outcome.emits accountId ++
          later.flatMap fun outcome => outcome.emits accountId := by simp
    rw [hemit] at hdistinct ⊢
    refine ih (guarded_absorb h happ (hdistinct.mono fun pair hpair => ?_)) hrest hdistinct
    exact mem_append_left _ hpair

/-! ## Effects -/

omit h

/-- Only the outbox changes, and its records keep their effects. -/
structure Reworks (a b : StoredAccount c) : Prop where
  rest : b = { a with outbox := b.outbox }
  keeps : Keeps a.outbox b.outbox
  adds : Keeps b.outbox a.outbox

lemma Reworks.refl (a : StoredAccount c) : Reworks a a := ⟨rfl, .refl _, .refl _⟩

lemma Reworks.trans {d : StoredAccount c} (h : Reworks a b) (h' : Reworks b d) : Reworks a d :=
  ⟨h'.rest.trans (by rw [h.rest]), h.keeps.trans h'.keeps, h'.adds.trans h.adds⟩

lemma Reworks.guarded (hr : Reworks a b) (h : Guarded hashes ⟨a, loaded, emitted⟩) :
    Guarded hashes ⟨b, loaded, emitted⟩ := by
  rw [hr.rest]
  refine ⟨h.steady, fun effectId record hrow => ?_,
    fun hlevel => (h.asks hlevel).imp_right hr.keeps.asksFor, h.rotations, h.loaded⟩
  obtain ⟨old, hold, hsame⟩ := hr.adds.old hrow
  have hout := h.outbox effectId old hold
  rwa [hsame.account, hsame.effect] at hout

variable {effectId : EffectId} {record record' : EffectRecord}

lemma reworks_setRecord (hrow : (effectId, record) ∈ a.outbox.rows)
    (hsame : SameEffect record record') : Reworks a (a.setRecord effectId record') := by
  refine ⟨rfl, ⟨fun {other old} hold => ?_⟩, ⟨fun {other new} hnew => ?_⟩⟩
  · by_cases heq : other = effectId
    · subst heq
      obtain rfl := eq_of_mem hold hrow
      exact ⟨record', mem_insert.mpr (.inl ⟨rfl, rfl⟩), hsame⟩
    · exact ⟨old, mem_insert.mpr (.inr ⟨heq, hold⟩), rfl, rfl⟩
  · rcases mem_insert.mp hnew with ⟨rfl, rfl⟩ | ⟨-, hold⟩
    · exact ⟨record, hrow, hsame.account.symm, hsame.effect.symm⟩
    · exact ⟨new, hold, rfl, rfl⟩

/-- The account has a record of the same effect for every row. -/
def Finds (a : StoredAccount c) (rows : List (EffectId × EffectRecord)) : Prop :=
  ∀ effectId record, (effectId, record) ∈ rows →
    ∃ old, (effectId, old) ∈ a.outbox.rows ∧ SameEffect old record

variable {rows : List (EffectId × EffectRecord)}

/-- A record that is set keeps its effect, so the records still to come are found again. -/
lemma Finds.next (h : a.Finds ((effectId, record) :: rows))
    (ih : (a.setRecord effectId record').Finds rows → Reworks (a.setRecord effectId record') b)
    (hsame : SameEffect record record') : Reworks a b := by
  obtain ⟨old, hold, holdSame⟩ := h effectId record mem_cons_self
  have hset : Reworks a (a.setRecord effectId record') := reworks_setRecord hold
    ⟨hsame.account.trans holdSame.account, hsame.effect.trans holdSame.effect⟩
  refine hset.trans (ih fun other later hlat => ?_)
  obtain ⟨first, hfir, hlater⟩ := h other later (mem_cons_of_mem _ hlat)
  obtain ⟨kept, hkept, hkeptSame⟩ := hset.keeps.old hfir
  exact ⟨kept, hkept, hlater.account.trans hkeptSame.account.symm,
    hlater.effect.trans hkeptSame.effect.symm⟩

lemma reworks_claimRows {request : ClaimEffects} {claimed : List EffectRecord}
    (h : a.Finds rows) : Reworks a (claimRows request a claimed rows).1 := by
  fun_induction claimRows request a claimed rows with
  | case1 | case2 => exact .refl _
  | case3 a claimed effectId record rest _ _ ih =>
    exact ih fun other later hlat => h other later (mem_cons_of_mem _ hlat)
  | case4 a claimed effectId record rest _ _ _ ih | case5 a claimed effectId record rest _ _ _ _ ih =>
    exact h.next ih ⟨rfl, rfl⟩

lemma reworks_claimEffects (a : StoredAccount c) (request : ClaimEffects) :
    Reworks a (a.claimEffects request).1 := by
  unfold claimEffects
  dsimp only
  split
  · exact reworks_claimRows fun effectId record hrow => ⟨record, hrow, rfl, rfl⟩
  · exact .refl a

variable {leaseId : LeaseId} {completedAt : Timestamp}

lemma reworks_completeEffect (hcomp : a.completeEffect effectId leaseId completedAt = .ok b) :
    Reworks a b := by
  simp only [completeEffect, bind_ok, okOr_ok, reject_ok] at hcomp
  obtain ⟨record, hrec, _, -, hcomp⟩ := hcomp
  split at hcomp
  · rw [← pure_ok.mp hcomp]
    exact .refl a
  · rw [← pure_ok.mp hcomp]
    exact reworks_setRecord (get_eq_some.mp hrec) ⟨rfl, rfl⟩

lemma reworks_retryEffect {retryAt : Timestamp} {failure : EffectFailure} {exhausted : Bool}
    (hret : a.retryEffect effectId leaseId retryAt failure = .ok (b, exhausted)) : Reworks a b := by
  simp only [retryEffect, bind_ok, okOr_ok] at hret
  obtain ⟨record, hrec, hret⟩ := hret
  split at hret
  · simp only [bind_ok, reject_ok, pure_ok, Prod.mk.injEq] at hret
    obtain ⟨_, -, rfl, -⟩ := hret
    exact reworks_setRecord (get_eq_some.mp hrec) ⟨rfl, rfl⟩
  · cases hret
  · cases hret

/-! ## Rotations -/

lemma unforked_of_distribution (hs : s.Steady)
    (h : validateDistributionLifecycle s.projection = .ok ()) : s.fork = none := by
  cases hfork : s.fork with
  | none => rfl
  | some fork =>
    rw [validateDistributionLifecycle, hs.fork.lifecycle hfork] at h
    cases h

variable {snapshot : GroupKeyDistributionSnapshot} {applicationId : ApplicationId}
  {groupKeyEpoch : GroupKeyEpoch} {recipientIds : List DeviceId}

lemma active_of_fromPostState {groupId : GroupId}
    (h : fromPostState s applicationId groupId groupKeyEpoch recipientIds = .ok snapshot) :
    validateDistributionLifecycle s.projection = .ok () ∧
      snapshot.authorizingAccountEpoch = s.projection.epoch ∧
      ∀ deviceId ∈ snapshot.recipients.map DistributionRecipient.deviceId,
        s.projection.Active deviceId := by
  simp only [fromPostState, bind_ok, reject_ok, pure_ok] at h
  obtain ⟨⟨⟩, hlif, _, -, _, -, _, -, recipients, hrecip, rfl⟩ := h
  refine ⟨hlif, rfl, fun deviceId hdevice => ?_⟩
  obtain ⟨recipient, hrecipien, rfl⟩ := mem_map.mp hdevice
  obtain ⟨requested, -, hreq⟩ := exists_of_forall₂ (mapM_ok hrecip).flip hrecipien
  simp only [distributionRecipient, bind_ok, okOr_ok] at hreq
  obtain ⟨device, hdevice, hreq⟩ := hreq
  obtain ⟨hmem, hid⟩ := mem_of_lookup hdevice
  split at hreq
  · rename_i hact
    simp only [bind_ok, reject_ok, pure_ok] at hreq
    obtain ⟨_, -, rfl⟩ := hreq
    exact ⟨device, hmem, hid, hact⟩
  · cases hreq
  · cases hreq

lemma putRotation_ok {record : StoredGroupKeyRotation} (h : a.putRotation record = .ok b) :
    b = a ∨ b = { a with groupKeyRotations :=
      a.groupKeyRotations.insert (toLex (record.applicationId, record.groupId)) record } := by
  revert h
  fun_cases putRotation a record with
  | case1 | case4 => exact fun h => .inr (Except.ok.inj h).symm
  | case2 => exact fun h => .inl (Except.ok.inj h).symm
  | case3 => nofun

lemma guarded_rotation {groupId : GroupId} {wraps : RecipientKeyWraps} {rotation : GroupKeyRotation}
    (h : Guarded hashes ⟨a, loaded, emitted⟩) (hloaded : s ∈ loaded)
    (hsnap : fromPostState s applicationId groupId groupKeyEpoch recipientIds = .ok snapshot)
    (hrotation : GroupKeyRotation.fromSnapshot snapshot wraps = .ok rotation)
    (hcom : a.commitGroupKeyRotation effectId leaseId rotation completedAt = .ok b) :
    Guarded hashes ⟨b, loaded, emitted⟩ := by
  obtain ⟨hlif, hepoch, hact⟩ := active_of_fromPostState hsnap
  obtain ⟨hstead, hcovers⟩ := h.loaded s hloaded
  simp only [GroupKeyRotation.fromSnapshot, bind_ok, reject_ok, pure_ok, not_not] at hrotation
  obtain ⟨_, hwrap, _, -, rfl⟩ := hrotation
  simp only [commitGroupKeyRotation, bind_ok, okOr_ok, reject_ok] at hcom
  obtain ⟨_, -, effect, heff, epoch, -, _, -, _, -, stored, hput, hcomp⟩ := hcom
  refine (reworks_completeEffect hcomp).guarded ?_
  rcases putRotation_ok hput with rfl | rfl
  · exact h
  · refine ⟨h.steady, h.outbox, h.asks, fun key record hrow => ?_, h.loaded⟩
    rcases mem_insert.mp hrow with ⟨-, rfl⟩ | ⟨-, hold⟩
    · show Covers a.projection snapshot.authorizingAccountEpoch _
      rw [hepoch]
      refine (hcovers (unforked_of_distribution hstead hlif)).mono fun deviceId hdevice => ?_
      exact hact deviceId (hwrap ▸ hdevice)
    · exact h.rotations key record hold

end StoredAccount

/-! ## Protected writes -/

lemma Session.Distinct.mono {hashes : StoreHashes c} {session earlier : Session c}
    (h : session.Distinct hashes) (hsub : earlier.emitted ⊆ session.emitted) :
    earlier.Distinct hashes :=
  Set.InjOn.mono (fun _ hpair => hsub hpair) h

lemma StoreHistory.guarded {hashes : StoreHashes c} {genesis : AccountGenesis c}
    {session : Session c} (h : StoreHistory hashes genesis session)
    (hdistinct : session.Distinct hashes) : session.Guarded hashes := by
  induction h with
  | refl => exact StoredAccount.guarded_create hashes genesis
  | tail before step ih =>
    cases step with
    | load loads =>
      have hguarded := ih hdistinct
      refine ⟨hguarded.steady, hguarded.outbox, hguarded.asks, hguarded.rotations, fun s hs => ?_⟩
      rcases mem_cons.mp hs with rfl | hs
      · simp only [StoredAccount.snapshot, bind_ok, reject_ok, pure_ok] at loads
        obtain ⟨_, -, _, -, rfl⟩ := loads
        exact ⟨hguarded.steady, StoredAccount.covers_unforked⟩
      · exact hguarded.loaded s hs
    | commitEvent routed commits =>
      have hguarded := ih (hdistinct.mono (subset_append_left _ _))
      simp only [StoredAccount.commitEvent, bind_ok, reject_ok, pure_ok, Prod.mk.injEq,
        StoredAccount.snapshot] at commits
      obtain ⟨_, -, current, ⟨_, -, _, -, rfl⟩, ⟨state, outcome⟩, happ, _, -, _, -, _, -, rfl,
        rfl⟩ := commits
      exact StoredAccount.guarded_absorb hguarded happ hdistinct
    | commitEvents routed commits =>
      have hguarded := ih (hdistinct.mono (subset_append_left _ _))
      simp only [StoredAccount.commitEvents, bind_ok, reject_ok, pure_ok, Prod.mk.injEq] at commits
      obtain ⟨_, -, _, -, _, -, ⟨committed, outcomes⟩, habs, _, -, _, -, rfl, rfl⟩ := commits
      exact StoredAccount.guarded_absorbAll hguarded habs hdistinct
    | claimEffects request =>
      exact (StoredAccount.reworks_claimEffects _ request).guarded (ih hdistinct)
    | completeEffect completes =>
      exact (StoredAccount.reworks_completeEffect completes).guarded (ih hdistinct)
    | retryEffect retries => exact (StoredAccount.reworks_retryEffect retries).guarded (ih hdistinct)
    | rotate loaded captures completes commits =>
      exact StoredAccount.guarded_rotation (ih hdistinct) loaded captures completes commits

namespace StoredAccount
variable {a : StoredAccount c}

lemma rotationRequired_false {epoch : Epoch} {records : List EffectRecord}
    (h : rotationRequired epoch records = .ok false) :
    ∀ record ∈ records, rotationEpoch record.effect ≠ some epoch := by
  induction records with
  | nil => exact nofun
  | cons first rest ih =>
    unfold rotationRequired at h
    split at h
    · split at h
      · simp only [bind_ok, pure_ok] at h
        obtain ⟨_, -, h⟩ := h
        cases h
      · cases h
    · rename_i hfir
      intro record hrec
      rcases mem_cons.mp hrec with rfl | hrec
      · exact hfir
      · exact ih h record hrec

lemma authorizeProtectedWrite_ok {revision : AccountRevision} {applicationId : ApplicationId}
    {groupId : GroupId} {rotation : StoredGroupKeyRotation}
    (h : a.authorizeProtectedWrite revision applicationId groupId = .ok ())
    (hrotation : a.rotation applicationId groupId = some rotation) :
    rotation.authorizingAccountEpoch = a.projection.projection.epoch ∨
      ¬ AsksFor a.outbox a.projection.projection.epoch := by
  simp only [authorizeProtectedWrite, bind_ok, reject_ok] at h
  obtain ⟨_, -, required, hrequir, h⟩ := h
  cases required with
  | true =>
    simp only [if_true, bind_ok, okOr_ok, reject_ok, not_not] at h
    obtain ⟨found, hfoun, hepoch⟩ := h
    obtain rfl : found = rotation := Option.some.inj (hfoun.symm.trans hrotation)
    exact .inl hepoch
  | false =>
    refine .inr ?_
    rintro ⟨effectId, record, hrow, hepoch⟩
    exact rotationRequired_false hrequir record (mem_map_of_mem hrow) hepoch

end StoredAccount

/-! ## Runs -/

namespace Session
variable {genesis : AccountGenesis c} {session next : Session c}

def commit (hashes : StoreHashes c) (genesis : AccountGenesis c) (event : AuthorizedEvent c)
    (session : Session c) : Option (Session c) :=
  let revision := session.stored.projection.revisionToken
  if revision.accountId = c.accountId genesis.toGenesisBody then
    match session.stored.commitEvent hashes revision event with
    | .ok (stored, outcome) => some { session with
        stored := stored
        emitted := session.emitted ++ outcome.emits revision.accountId }
    | .error _ => none
  else none

def load (session : Session c) : Option (Session c) :=
  match session.stored.snapshot with
  | .ok snapshot => some { session with loaded := snapshot.state :: session.loaded }
  | .error _ => none

/-- A rotation for one device, made for the state that was loaded last. -/
def rotateFor (deviceId : DeviceId) (effectId : EffectId) (leaseId : LeaseId)
    (session : Session c) : Option (Session c) :=
  match session.loaded with
  | [] => none
  | source :: _ =>
    match fromPostState source (zero 32)
        (zero 32) 1 [deviceId] with
    | .error _ => none
    | .ok snapshot =>
      match GroupKeyRotation.fromSnapshot snapshot [⟨deviceId, []⟩] with
      | .error _ => none
      | .ok rotation =>
        match session.stored.commitGroupKeyRotation effectId leaseId rotation 1 with
        | .error _ => none
        | .ok stored => some { session with stored := stored }

lemma run_commit (hcom : session.commit hashes genesis event = some next) :
    StoreRun hashes genesis session next := by
  unfold commit at hcom
  dsimp only at hcom
  split at hcom
  · rename_i hrout
    split at hcom
    · rename_i stored outcome hok
      obtain rfl := Option.some.inj hcom
      exact .single (.commitEvent hrout hok)
    · cases hcom
  · cases hcom

section
variable (h : StoreHistory hashes genesis session)
include h

lemma history_commit (hcom : session.commit hashes genesis event = some next) :
    StoreHistory hashes genesis next :=
  h.trans (run_commit hcom)

lemma history_load (hload : session.load = some next) : StoreHistory hashes genesis next := by
  unfold load at hload
  split at hload
  · rename_i snapshot hok
    obtain rfl := Option.some.inj hload
    exact h.tail (.load hok)
  · cases hload

lemma history_rotateFor {deviceId : DeviceId} {effectId : EffectId} {leaseId : LeaseId}
    (hrot : session.rotateFor deviceId effectId leaseId = some next) :
    StoreHistory hashes genesis next := by
  revert hrot
  fun_cases rotateFor deviceId effectId leaseId session with
  | case5 source rest hloaded snapshot hsnap rotation hrotation stored hstor =>
    rintro ⟨⟩
    refine h.tail (.rotate ?_ hsnap hrotation hstor)
    rw [hloaded]
    exact mem_cons_self
  | _ => nofun

end
end Session

namespace Toy

def storeHashes : StoreHashes primitives where
  eventAuthorizationId event := padded (event.approvals.asSlice.flatMap (fun approval =>
    approval.body.controllerId.digest.val.drop 31) ++ event.eventId.digest.val)
  effectId _ effect :=
    match effect with
    | .publishAccountEvent eventId => padded (1 :: eventId.digest.val)
    | .rotateGroupKeys eventId _ => padded (2 :: eventId.digest.val)
    | .notifyAccountChanged eventId => padded (3 :: eventId.digest.val)
    | .notifyForkDetected eventId => padded (4 :: eventId.digest.val)

lemma nonce_one_ne_zero : nonce 1 ≠ zero 16 := by decide

def lease : LeaseId := ⟨nonce 1, nonce_one_ne_zero⟩

lemma lasting : 1 < 2 := Nat.lt_succ_self 1

lemma queue_bounded : 16 ≤ IDENTITY_QUEUE_CAPACITY := Nat.le_of_ble_eq_true rfl

def claim : ClaimEffects := ⟨1, 2, lease, 16, lasting, Nat.succ_pos 15, queue_bounded⟩

/-- A device is authorized and the group key is rotated for it. -/
def rotated : Option (Session primitives) := do
  let session : Session primitives := ⟨.create deviceAccount, [], []⟩
  let session ← session.commit storeHashes deviceAccount authorizeDevice
  let session ← session.load
  let session := { session with stored := (session.stored.claimEffects claim).1 }
  session.rotateFor ⟨number 7⟩ (storeHashes.effectId ⟨number 1⟩ (.rotateGroupKeys (eventId 1) 1))
    lease

/-- The device is then revoked, and another first event opens a fork at the genesis. -/
def rolledBack : Option (Session primitives) := do
  let session ← rotated
  let session ← session.commit storeHashes deviceAccount revokeDevice
  session.commit storeHashes deviceAccount (firstEvent 3)

lemma history_rotated {session : Session primitives} (h : rotated = some session) :
    StoreHistory storeHashes deviceAccount session := by
  simp only [rotated, Option.bind_eq_bind, Option.bind_eq_some_iff] at h
  obtain ⟨first, hfir, second, hsec, h⟩ := h
  have hloaded := history_load (history_commit .refl hfir) hsec
  exact history_rotateFor (hloaded.tail (.claimEffects claim)) h

lemma history_rolledBack {session : Session primitives} (h : rolledBack = some session) :
    StoreHistory storeHashes deviceAccount session := by
  simp only [rolledBack, Option.bind_eq_bind, Option.bind_eq_some_iff] at h
  obtain ⟨first, hfir, second, hsec, h⟩ := h
  exact history_commit (history_commit (history_rotated hfir) hsec) h

end Toy

/-! ## Authorized writes -/

namespace StoredAccount

/-- While the epoch that the store shows is the epoch of every head, an authorized
write is under a rotation whose recipients are active at every head. -/
theorem recipients_active_of_history {hashes : StoreHashes c} {genesis : AccountGenesis c}
    {session : Session c} (h : StoreHistory hashes genesis session)
    (hdistinct : session.Distinct hashes) {revision : AccountRevision}
    {applicationId : ApplicationId} {groupId : GroupId} {rotation : StoredGroupKeyRotation}
    (hlevel : session.stored.projection.Level)
    (hauthorized : session.stored.authorizeProtectedWrite revision applicationId groupId = .ok ())
    (hrotation : session.stored.rotation applicationId groupId = some rotation) :
    ∀ tip ∈ session.stored.projection.tips, ∀ deviceId, rotation.Receives deviceId →
      tip.Active deviceId := by
  have hguarded := h.guarded hdistinct
  have hcovers := hguarded.rotations _ rotation (get_eq_some.mp hrotation)
  have hepoch : session.stored.projection.projection.epoch = rotation.authorizingAccountEpoch := by
    rcases authorizeProtectedWrite_ok hauthorized hrotation with hepoch | hnone
    · exact hepoch.symm
    · have hzero := (hguarded.asks hlevel).resolve_right hnone
      obtain ⟨tip, htip, hle⟩ := hcovers.reached
      rw [hlevel tip htip, hzero] at hle
      rw [hzero]
      exact (Nat.le_zero.mp hle).symm
  intro tip htip deviceId hdevice
  exact hcovers.active hlevel hepoch deviceId hdevice tip htip

/-- The write that the gate is asked for in the runs. -/
def authorizesWrite (session : Session c) : Prop :=
  session.stored.authorizeProtectedWrite session.stored.projection.revisionToken
    (zero 32) (zero 32) = .ok ()

instance (session : Session c) : Decidable (authorizesWrite session) :=
  inferInstanceAs (Decidable (_ = _))

lemma rotated_authorized : Toy.rotated.any (fun session =>
    decide (session.Distinct Toy.storeHashes) && decide session.stored.projection.Level &&
      decide (authorizesWrite session) &&
      (session.stored.rotation (zero 32) (zero 32)).any fun rotation =>
        decide (rotation.Receives ⟨Toy.number 7⟩)) = true := by
  decide +kernel

theorem recipients_active_after_rotation : ∃ session rotation,
    Toy.rotated = some session ∧ authorizesWrite session ∧
      session.stored.rotation (zero 32) (zero 32) = some rotation ∧
      rotation.Receives ⟨Toy.number 7⟩ ∧
      ∀ tip ∈ session.stored.projection.tips, tip.Active ⟨Toy.number 7⟩ := by
  obtain ⟨session, hsession, hcheck⟩ := (Option.any_eq_true _ _).mp rotated_authorized
  simp only [Bool.and_eq_true, decide_eq_true_eq, Option.any_eq_true] at hcheck
  obtain ⟨⟨⟨hdistinct, hlevel⟩, hauthorized⟩, rotation, hrotation, hreceives⟩ := hcheck
  exact ⟨session, rotation, hsession, hauthorized, hrotation, hreceives, fun tip htip =>
    recipients_active_of_history (Toy.history_rotated hsession) hdistinct hlevel hauthorized
      hrotation tip htip _ hreceives⟩

lemma rolledBack_authorized : Toy.rolledBack.any (fun session =>
    decide (session.Distinct Toy.storeHashes) && decide (authorizesWrite session) &&
      (session.stored.rotation (zero 32) (zero 32)).any fun rotation =>
        decide (rotation.Receives ⟨Toy.number 7⟩) &&
          decide (∃ tip ∈ session.stored.projection.tips, ¬ tip.Active ⟨Toy.number 7⟩)) = true := by
  decide +kernel

/-- A fork shows the epoch of its common state again, for which no rotation was asked. -/
theorem revoked_recipient_authorized : ∃ session rotation,
    StoreHistory Toy.storeHashes Toy.deviceAccount session ∧ session.Distinct Toy.storeHashes ∧
      authorizesWrite session ∧
      session.stored.rotation (zero 32) (zero 32) = some rotation ∧
      ∃ tip ∈ session.stored.projection.tips, ∃ deviceId, rotation.Receives deviceId ∧
        ¬ tip.Active deviceId := by
  obtain ⟨session, hsession, hcheck⟩ := (Option.any_eq_true _ _).mp rolledBack_authorized
  simp only [Bool.and_eq_true, decide_eq_true_eq, Option.any_eq_true] at hcheck
  obtain ⟨⟨hdistinct, hauthorized⟩, rotation, hrotation, hreceives, tip, htip, hinactive⟩ := hcheck
  exact ⟨session, rotation, Toy.history_rolledBack hsession, hdistinct, hauthorized, hrotation, tip,
    htip, _, hreceives, hinactive⟩

end StoredAccount
end Krikos.Identity
