import Krikos.Identity.Sound

/-!
# Identity.Recovery

What a finalized recovery rests on. A pending recovery goes back to the event that began it, with
nothing after it that would have ended it; the delay has passed by the observations of a quorum of
configured providers, and the plan is installed as it was proposed.

* `Lineage`: the events that lead to a projection.
* `Projection.Awaits`: what a projection remembers of a begun recovery, kept by `preserved_tracked`.
* `Projection.Waited` and `Projection.Recovered`: the delay and the effect of the finalization.
-/

namespace Krikos.Identity

open Lib Projection PendingRecoveryObservation List

variable {c : Primitives} {p q : Projection} {event : AuthorizedEvent c}

/-! ## Lineages -/

/-- The accepted events that lead from the genesis to a projection, the oldest first. -/
inductive Lineage (c : Primitives) : Projection → List (AuthorizedEvent c) → Prop where
  | genesis (genesis : AccountGenesis c) :
      Lineage c (AccountState.fromGenesis genesis).projection []
  | linear {p q : Projection} {events : List (AuthorizedEvent c)}
      {evidence : EventId → Option AdmissionEvidenceId} {event : AuthorizedEvent c}
      {epoch : Epoch} : Lineage c p events → p.applyLinear evidence event = .ok (epoch, q) →
      Lineage c q (events ++ [event])
  | resolution {p q : Projection} {events : List (AuthorizedEvent c)} {resolution : ResolveFork}
      {event : AuthorizedEvent c} : Lineage c p events →
      event.body.operation = .resolveFork resolution →
      p.applyResolution resolution event = .ok q → Lineage c q (events ++ [event])
  | moved {p : Projection} {events : List (AuthorizedEvent c)} (sequence : Sequence)
      (heads : List EventId) : Lineage c p events →
      Lineage c { p with sequence := sequence, heads := heads } events
  | forked {p : Projection} {events : List (AuthorizedEvent c)} : Lineage c p events →
      Lineage c { p with lifecycle := .forked } events

def AccountOperation.endsRecovery : AccountOperation → Bool
  | .vetoRecovery _ => true
  | .cancelRecovery _ => true
  | .finalizeRecovery _ => true
  | _ => false

/-! ## A pending recovery -/

/-- The event and the operation that began a pending recovery. -/
structure Projection.Awaits (c : Primitives) (p : Projection) (begin : AuthorizedEvent c)
    (start : BeginRecovery) (pending : PendingRecovery) : Prop where
  operation : begin.body.operation = .beginRecovery start
  recoveryId : pending.recoveryId = start.recoveryId
  proposal : pending.proposal = start.proposal
  beginProposalId : pending.beginProposalId = c.proposalId begin.body
  observation : fromAdmission c begin.admissionEvidence
    p.recoveryPolicy = .ok pending.beginObservation

/-- The projection has a lineage; where it has a pending recovery, the lineage contains its
beginning and nothing after it ends a recovery. -/
structure Projection.Tracked (c : Primitives) (p : Projection) : Prop where
  lineage : ∃ events, Lineage c p events
  gated : p.pendingRecovery.isSome → p.lifecycle = .recoveryPending ∨ p.lifecycle = .forked
  begun : ∀ pending, p.pendingRecovery = some pending → ∃ earlier begin later start,
    Lineage c p (earlier ++ begin :: later) ∧
    (∀ event ∈ later, event.body.operation.endsRecovery = false) ∧
    p.Awaits c begin start pending

variable {begin : AuthorizedEvent c} {pending : PendingRecovery}

lemma Projection.Awaits.of_policy {start : BeginRecovery} (h : p.Awaits c begin start pending)
    (hpol : q.recoveryPolicy = p.recoveryPolicy) : q.Awaits c begin start pending :=
  ⟨h.operation, h.recoveryId, h.proposal, h.beginProposalId, hpol ▸ h.observation⟩

/-- While a recovery is pending, only the operations that end it pass the lifecycle gate. -/
lemma Projection.endsRecovery_of_gate {operation : AccountOperation}
    (hlif : p.lifecycle = .recoveryPending ∨ p.lifecycle = .forked)
    (h : p.validateLifecycleGate operation = .ok ()) : operation.endsRecovery = true := by
  unfold validateLifecycleGate at h
  rcases hlif with hlif | hlif
  · rw [hlif] at h
    cases operation with
    | vetoRecovery | cancelRecovery | finalizeRecovery => rfl
    | _ => cases h
  · rw [hlif] at h
    cases h

lemma Projection.authorizeDevice_pending {authorization : DeviceAuthorization} {epoch : Epoch}
    (h : p.authorizeDevice authorization epoch = .ok q) :
    q.pendingRecovery = p.pendingRecovery := by
  simp only [authorizeDevice, bind_ok, reject_ok] at h
  obtain ⟨-, -, h⟩ := h
  split at h
  · obtain ⟨-, -, h⟩ := bind_ok.mp h
    cases h
  · simp only [bind_ok, reject_ok, pure_ok] at h
    obtain ⟨-, -, -, -, rfl⟩ := h
    rfl

variable {evidence : EventId → Option AdmissionEvidenceId} {time : Option Timestamp}

lemma Projection.pendingRecovery_of_applyOperation
    (hbegin : ∀ begin, event.body.operation ≠ .beginRecovery begin)
    (hends : event.body.operation.endsRecovery = false)
    (h : p.applyOperation evidence event time = .ok q) : q.pendingRecovery = p.pendingRecovery := by
  cases applyOperation_changes h with
  | devices hdev hq => rw [hq]
  | authorization hdev h =>
    have hpending := authorizeDevice_pending h
    exact hpending
  | addController h =>
    obtain ⟨_, _, _, -, -, -, -, -, -, -, -, rfl⟩ := addController_ok h
    rfl
  | removeController h =>
    obtain ⟨_, _, _, -, -, -, -, rfl⟩ := removeController_ok h
    rfl
  | settings hsame hpending => exact hpending
  | recovery hop hsame hplan =>
    rcases hop with ⟨begin, hop⟩ | ⟨veto, hop⟩ | ⟨cancel, hop⟩
    · exact absurd hop (hbegin begin)
    · rw [hop] at hends
      cases hends
    · rw [hop] at hends
      cases hends
  | finalizeRecovery hop h =>
    rw [hop] at hends
    cases hends
  | beginCryptoMigration hop h =>
    obtain ⟨_, -, -, -, -, rfl⟩ := beginCryptoMigration_ok h
    rfl
  | activateCryptoMigration h =>
    obtain ⟨_, _, _, -, rfl⟩ := activateCryptoMigration_ok h
    rfl
  | retireCryptoSuite hop h =>
    rcases retireCryptoSuite_ok h with ⟨_, _, _, -, rfl⟩ | ⟨_, _, _, _, _, _, -, -, rfl⟩
    · rfl
    · rfl

lemma Projection.pendingRecovery_of_endsRecovery (hends : event.body.operation.endsRecovery = true)
    (h : p.applyOperation evidence event time = .ok q) : q.pendingRecovery = none := by
  cases hop : event.body.operation with
  | vetoRecovery veto =>
    simp only [applyOperation, hop] at h
    rw [(vetoRecovery_ok h).2]
  | cancelRecovery cancel =>
    simp only [applyOperation, hop] at h
    rw [(cancelRecovery_ok h).2]
  | finalizeRecovery finalize =>
    simp only [applyOperation, hop] at h
    obtain ⟨-, _, _, next, -, -, -, -, -, rfl⟩ := finalizeRecovery_ok h
    rfl
  | _ =>
    rw [hop] at hends
    cases hends

lemma Projection.Tracked.linear {epoch : Epoch}
    (hp : p.Tracked c) (h : p.applyLinear evidence event = .ok (epoch, q)) : q.Tracked c := by
  obtain ⟨events, hlineage⟩ := hp.lineage
  have hnext : Lineage c q (events ++ [event]) := .linear hlineage h
  obtain ⟨hgate, -, time, next, -, hok, rfl⟩ := applyLinear_ok h
  by_cases hbegin : ∃ begin, event.body.operation = .beginRecovery begin
  · obtain ⟨start, hop⟩ := hbegin
    simp only [applyOperation, hop] at hok
    obtain ⟨-, observation, hobser, rfl⟩ := beginRecovery_ok hok
    refine ⟨⟨_, hnext⟩, fun _ => .inl rfl, fun pending hpending => ?_⟩
    obtain rfl := Option.some.inj hpending
    refine ⟨events, event, [], start, hnext, ?_, hop, rfl, rfl, rfl, hobser⟩
    intro other hoth
    cases hoth
  · have hnone : next.pendingRecovery = none := by
      cases hends : event.body.operation.endsRecovery with
      | true => exact pendingRecovery_of_endsRecovery hends hok
      | false =>
        rw [pendingRecovery_of_applyOperation (fun b hb => hbegin ⟨b, hb⟩) hends hok]
        -- a pending recovery would have closed the gate to this operation
        cases hpending : p.pendingRecovery with
        | none => rfl
        | some pending =>
          have hlif := hp.gated (by rw [hpending]; rfl)
          rw [endsRecovery_of_gate hlif hgate] at hends
          cases hends
    refine ⟨⟨_, hnext⟩, fun hsome => ?_, fun pending hpending => ?_⟩
    · rw [hnone] at hsome
      cases hsome
    · rw [hnone] at hpending
      cases hpending

lemma Projection.Tracked.resolution {resolution : ResolveFork} (hp : p.Tracked c)
    (hop : event.body.operation = .resolveFork resolution)
    (h : p.applyResolution resolution event = .ok q) : q.Tracked c := by
  obtain ⟨events, hlineage⟩ := hp.lineage
  have hnext : ∀ events, Lineage c p events → Lineage c q (events ++ [event]) :=
    fun _ hlineage => .resolution hlineage hop h
  obtain ⟨_, _, _, -, -, -, -, -, rfl⟩ := Projection.Safe.applyResolution_ok h
  refine ⟨⟨_, hnext events hlineage⟩, fun hsome => ?_, fun pending hsome => ?_⟩
  · exact hp.gated hsome
  · obtain ⟨earlier, begin, later, start, hbeg, hlater, hawaits⟩ :=
      hp.begun pending hsome
    refine ⟨earlier, begin, later ++ [event], start, ?_, ?_, hawaits.of_policy rfl⟩
    · have hstep := hnext _ hbeg
      rwa [append_assoc, cons_append] at hstep
    · intro other hoth
      rcases mem_append.mp hoth with hoth | hoth
      · exact hlater other hoth
      · rw [mem_singleton.mp hoth, hop]
        rfl

lemma preserved_tracked : AccountState.ProjectionPreserved c (Projection.Tracked c) where
  linear hp h := hp.linear h
  resolution hp hop h := hp.resolution hop h
  moved := by
    rintro p sequence heads ⟨⟨events, hlineage⟩, hgat, hbeg⟩
    refine ⟨⟨events, .moved sequence heads hlineage⟩, hgat, fun pending hpending => ?_⟩
    obtain ⟨earlier, begin, later, start, hlineage, hlater, hawaits⟩ := hbeg pending hpending
    exact ⟨earlier, begin, later, start, .moved sequence heads hlineage, hlater,
      hawaits.of_policy rfl⟩
  forked := by
    rintro p ⟨⟨events, hlineage⟩, -, hbeg⟩
    refine ⟨⟨events, .forked hlineage⟩, fun _ => .inr rfl, fun pending hpending => ?_⟩
    obtain ⟨earlier, begin, later, start, hlineage, hlater, hawaits⟩ := hbeg pending hpending
    exact ⟨earlier, begin, later, start, .forked hlineage, hlater, hawaits.of_policy rfl⟩

lemma tracked_fromGenesis (genesis : AccountGenesis c) :
    (AccountState.fromGenesis genesis).projection.Tracked c := by
  refine ⟨⟨[], .genesis genesis⟩, fun hsome => ?_, fun _ hpending => ?_⟩
  · cases hsome
  · cases hpending

/-! ## The delay -/

/-- Verified receipts of distinct configured providers for the proposal of an event. -/
structure Projection.Receives (c : Primitives) (p : Projection) (policy : ReplicatedProviderPolicy)
    (begin : AuthorizedEvent c) (receipts : List InclusionReceipt) : Prop where
  mode : p.providerPolicy.mode = .replicated policy
  distinct : (receipts.map InclusionReceipt.providerId).Nodup
  verified : ∀ receipt ∈ receipts, ∃ provider ∈ policy.providers,
    c.providerId provider = receipt.providerId ∧ c.verifyReceipt receipt provider = .ok ()
  subject : ∀ receipt ∈ receipts, receipt.entry.accountId = p.accountId ∧
    receipt.entry.subject = .eventIntent (c.proposalId begin.body)
  observed : ∀ receipt ∈ receipts, ∃ original ∈ begin.admissionEvidence.delay.providerReceipts,
    ∃ first ∈ original.asSlice, first.entry = receipt.entry

def Projection.finalizationQuorum (p : Projection) (policy : ReplicatedProviderPolicy) : Nat :=
  match p.controlPolicy.ruleFor .finalizeRecovery with
  | some rule =>
    match rule.freshness with
    | .latestKnown => policy.sufficientThreshold
    | .providerQuorum requirement => max policy.sufficientThreshold requirement.required
  | none => policy.sufficientThreshold

/-- A quorum of providers, as large as the beginning asked for, saw the begun recovery, and later
the end of its delay, and the time of authority that follows is within the lifetime of the recovery
and before the plan expires. -/
structure Projection.Waited (c : Primitives) (p : Projection) (begin : AuthorizedEvent c)
    (plan : RecoveryAuthorityPlan) (policy : ReplicatedProviderPolicy)
    (receipts : List InclusionReceipt) (quorum : Nat) (observedAt elapsedAt : Timestamp)
    (outer : Option Timestamp) : Prop where
  receives : p.Receives c policy begin receipts
  sufficient : p.finalizationQuorum policy ≤ quorum
  positive : quorum ≠ 0
  required : begin.admissionEvidence.delay.requiredQuorum = some quorum
  anchored : begin.admissionEvidence.delay.observedAt = some observedAt
  observed : HasRank quorum observedAt (entryTimes receipts)
  elapsed : quorum ≤ ((headTimes receipts).filter fun time =>
    observedAt + p.recoveryPolicy.delay ≤ time).length
  authority : HasRank quorum elapsedAt
    ((headTimes receipts).filter fun time => observedAt + p.recoveryPolicy.delay ≤ time)
  lifetime : recoveryAuthorityTime outer elapsedAt ≤ observedAt + p.recoveryPolicy.lifetime
  expiry : recoveryAuthorityTime outer elapsedAt ≤ plan.expiresAt

lemma completionReceipts_ok {accountId : AccountId} {proposalId : ProposalId}
    {providers : List ProviderDescriptor} {receipts configured : List InclusionReceipt}
    (h : completionReceipts c accountId proposalId providers receipts = .ok configured) :
    configured.Sublist receipts ∧ ∀ receipt ∈ configured,
      receipt.entry.accountId = accountId ∧ receipt.entry.subject = .eventIntent proposalId ∧
      ∃ provider ∈ providers, c.providerId provider = receipt.providerId ∧
        c.verifyReceipt receipt provider = .ok () := by
  induction receipts generalizing configured with
  | nil =>
    obtain rfl : [] = configured := Except.ok.inj h
    exact ⟨List.Sublist.refl _, nofun⟩
  | cons receipt rest ih =>
    simp only [completionReceipts, bind_ok, reject_ok, not_not] at h
    obtain ⟨-, hacc, -, hsubj, h⟩ := h
    split at h
    · obtain ⟨hsub, hall⟩ := ih h
      exact ⟨hsub.cons receipt, hall⟩
    · rename_i provider hprov
      simp only [bind_ok, pure_ok] at h
      obtain ⟨⟨⟩, hver, configured, hrest, rfl⟩ := h
      obtain ⟨hsub, hall⟩ := ih hrest
      refine ⟨hsub.cons_cons receipt, forall_mem_cons.mpr ⟨⟨hacc, hsubj, provider,
        mem_of_find?_eq_some hprov, ?_, hver⟩, hall⟩⟩
      simpa using find?_some hprov

lemma exists_of_receiptEntriesMatch {begin completion : ProviderReceipts}
    (h : receiptEntriesMatch begin completion = true) :
    ∀ receipt ∈ completion.asSlice, ∃ first ∈ begin.asSlice, first.entry = receipt.entry := by
  simp only [receiptEntriesMatch, Bool.and_eq_true, decide_eq_true_eq, all_eq_true] at h
  obtain ⟨hlen, hall⟩ := h
  intro receipt hrec
  obtain ⟨i, hi, rfl⟩ := mem_iff_getElem.mp hrec
  have hzip : i < (begin.asSlice.zip completion.asSlice).length := by
    rw [length_zip]
    omega
  have hmatc := hall _ (getElem_mem hzip)
  rw [getElem_zip] at hmatc
  exact ⟨_, getElem_mem _, hmatc.1.2⟩

lemma fromAdmission_ok {evidence : AdmissionEvidence} {policy : RecoveryPolicy}
    {observation : PendingRecoveryObservation}
    (h : fromAdmission c evidence policy = .ok observation) :
    evidence.delay.requiredQuorum = some observation.requiredQuorum ∧
      evidence.delay.observedAt = some observation.observedAt ∧
      evidence.delay.providerReceipts = some observation.receipts ∧
      observation.delayDeadline = observation.observedAt + policy.delay ∧
      observation.lifetimeDeadline = observation.observedAt + policy.lifetime := by
  simp only [fromAdmission, bind_ok, okOr_ok, pure_ok] at h
  obtain ⟨_, -, _, hquorum, observedAt, hobs, receipts, hreceip, deadline, hdead, lifetime,
    hlifetime, rfl⟩ := h
  exact ⟨hquorum, hobs, hreceip, checkedAdd_ok hdead, checkedAdd_ok hlifetime⟩

lemma waited_of_validateDelayAnchor {start : BeginRecovery} {anchor : RecoveryDelayAnchor}
    {elapsedAt : Timestamp} {outer : Option Timestamp} (hawaits : p.Awaits c begin start pending)
    (h : p.validateDelayAnchor c pending anchor = .ok elapsedAt)
    (hlifetime : recoveryAuthorityTime outer elapsedAt ≤ pending.beginObservation.lifetimeDeadline)
    (hexpiry : recoveryAuthorityTime outer elapsedAt ≤ pending.proposal.plan.expiresAt) :
    ∃ policy receipts quorum observedAt, p.Waited c begin start.proposal.plan policy receipts
      quorum observedAt elapsedAt outer := by
  obtain ⟨hbegun, hobs, hreceip, hdead, hlifetimeDeadline⟩ :=
    fromAdmission_ok hawaits.observation
  simp only [validateDelayAnchor, bind_ok, reject_ok, okOr_ok, pure_ok] at h
  obtain ⟨-, -, -, -, -, -, -, -, policy, hpol, rule, hrule, -, hquor, -, hmat, configured,
    hconf, -, henoug, -, hrank, -, helap, rfl⟩ := h
  obtain ⟨hsub, hall⟩ := completionReceipts_ok hconf
  simp only [matchesCompletionAnchor, Bool.not_eq_false,
    Bool.and_eq_true, decide_eq_true_eq] at hmat
  obtain ⟨⟨⟨-, hrequired⟩, hanchor⟩, hent⟩ := hmat
  have hmode : p.providerPolicy.mode = .replicated policy := by
    unfold ProviderPolicy.replicatedPolicy at hpol
    split at hpol
    · cases hpol
    · rename_i policy' hmode
      rw [hmode, Except.ok.inj hpol]
  rw [hdead] at helap hlifetime hexpiry ⊢
  refine ⟨policy, configured, anchor.requiredQuorum, pending.beginObservation.observedAt,
    ⟨hmode, ?_, ?_, ?_, ?_⟩, ?_, anchor.positive.ne', hrequired ▸ hbegun, hobs, ?_,
    not_lt.mp helap, ?_, hlifetimeDeadline ▸ hlifetime, hawaits.proposal ▸ hexpiry⟩
  · exact anchor.receipts.sorted.nodup.sublist (hsub.map _)
  · exact fun receipt hrec => (hall receipt hrec).2.2
  · intro receipt hrec
    obtain ⟨hacc, hsubj, -⟩ := hall receipt hrec
    exact ⟨hacc, hawaits.beginProposalId ▸ hsubj⟩
  · intro receipt hrec
    exact ⟨_, hreceip, exists_of_receiptEntriesMatch hent receipt (hsub.subset hrec)⟩
  · unfold finalizationQuorum
    rw [hrule]
    cases hfres : rule.freshness with
    | latestKnown =>
      simp only [hfres] at hquor ⊢
      exact (le_max_left _ _).trans (not_lt.mp hquor)
    | providerQuorum requirement =>
      simp only [hfres] at hquor ⊢
      exact not_lt.mp hquor
  · rw [hanchor, ← not_not.mp hrank]
    refine hasRank_insertionSort anchor.positive.ne' ?_ 0
    rw [entryTimes, length_map]
    exact not_lt.mp henoug
  · exact hasRank_insertionSort anchor.positive.ne' (not_lt.mp helap) 0

/-! ## The effect -/

/-- The plan has replaced the controllers and the policies, and revoked what it does not keep. -/
structure Projection.Recovered (c : Primitives) (plan : RecoveryAuthorityPlan) (p q : Projection) :
    Prop where
  active : q.activeControllers = plan.replacementControllers.map fun descriptor =>
    ⟨c.controllerId descriptor, descriptor⟩
  revoked : ∀ controller ∈ p.activeControllers,
    controller.id ∉ plan.replacementControllers.map c.controllerId →
    controller ∈ q.revokedControllers
  devices : ∀ device ∈ q.devices, device.id ∉ plan.retainedDevices → device.lifecycle = .revoked
  kept : q.devices.map ProjectedDevice.id = p.devices.map ProjectedDevice.id
  control : q.controlPolicy = plan.replacementControlPolicy ∧
    q.controlPolicyId = c.controlPolicyId plan.replacementControlPolicy
  recovery : q.recoveryPolicy = plan.replacementRecoveryPolicy ∧
    q.recoveryPolicyId = c.recoveryPolicyId plan.replacementRecoveryPolicy

lemma retainOnly_revoked {retained : List DeviceId} {device : ProjectedDevice}
    (h : (device.retainOnly retained).id ∉ retained) :
    (device.retainOnly retained).lifecycle = .revoked := by
  unfold ProjectedDevice.retainOnly at h ⊢
  split at h
  · rename_i hrev
    rw [if_pos hrev]
  · rename_i hkeep
    rw [if_neg hkeep]
    by_contra hlive
    refine hkeep ⟨hlive, ?_⟩
    cases hlook : lookup (fun deviceId => deviceId) device.id retained with
    | none => rfl
    | some deviceId =>
      obtain ⟨hmem, rfl⟩ := mem_of_lookup hlook
      exact absurd hmem h

lemma recovered_of_installRecoveryPlan {plan : RecoveryAuthorityPlan} (hp : p.Sound c)
    (h : p.installRecoveryPlan c plan = .ok q) : p.Recovered c plan q := by
  obtain ⟨revoked, -, hins, -, rfl⟩ := installRecoveryPlan_ok h
  obtain ⟨-, hperm⟩ := insertRevoked_ok hp.controllers.revokedSorted hins
  refine ⟨rfl, ?_, ?_, ?_, ⟨rfl, rfl⟩, rfl, rfl⟩
  · intro controller hcont hrep
    refine hperm.mem_iff.mpr (mem_append_left _ (mem_filter.mpr ⟨hcont, ?_⟩))
    cases hlook : lookup id controller.id (plan.replacementControllers.map c.controllerId) with
    | none => rfl
    | some controllerId =>
      obtain ⟨hmem, hid⟩ := mem_of_lookup hlook
      exact absurd (hid ▸ hmem) hrep
  · intro device hdevic hretained
    obtain ⟨original, -, rfl⟩ := mem_map.mp hdevic
    exact retainOnly_revoked hretained
  · rw [replacedBy, map_map]
    refine map_congr_left fun device _ => ?_
    exact (ProjectedDevice.retainOnly_continues plan.retainedDevices device).id

/-! ## Every history -/

namespace AccountState
variable {s s' : AccountState c}

def recovering : AccountState Toy.primitives :=
  ((fromGenesis Toy.recoveringAccount).deliver Toy.beforeRecovery).deliver Toy.beginRecovery

end AccountState
end Krikos.Identity
