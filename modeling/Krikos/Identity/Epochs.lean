import Krikos.Identity.Retained

/-!
# Identity.Epochs

The tips of an account, the single head or the branch heads of an open fork, and their security
epochs. Within one epoch the active devices do not change. A delivery therefore either stays at the
epoch of the state before, with the same active devices at every tip, or rises above every tip that
was there, and then it asks for a rotation of the group keys (`Moves`).
-/

namespace Krikos.Identity

open Lib Projection List

variable {c : Primitives} {event : AuthorizedEvent c}
  {evidence : EventId → Option AdmissionEvidenceId}

/-! ## One projection and the next -/

lemma map_set_of_eq {α β : Type} {f : α → β} {l : List α} {i : Nat} {a : α}
    (hlt : i < l.length) (h : f a = f l[i]) : (l.set i a).map f = l.map f := by
  refine ext_getElem (by simp) fun j hj hj' => ?_
  by_cases hij : i = j
  · subst hij
    simpa using h
  · simp [getElem_set_ne hij]

namespace Projection
variable {p q r : Projection}

def Active (p : Projection) (deviceId : DeviceId) : Prop :=
  ∃ device ∈ p.devices, device.id = deviceId ∧ device.lifecycle = .active

instance (p : Projection) (deviceId : DeviceId) : Decidable (p.Active deviceId) :=
  inferInstanceAs (Decidable (∃ device ∈ p.devices, _))

structure SameEpoch (p q : Projection) : Prop where
  epoch : p.epoch = q.epoch
  active (deviceId : DeviceId) : p.Active deviceId ↔ q.Active deviceId

lemma SameEpoch.refl (p : Projection) : p.SameEpoch p := ⟨rfl, fun _ => Iff.rfl⟩

lemma SameEpoch.symm (h : p.SameEpoch q) : q.SameEpoch p :=
  ⟨h.epoch.symm, fun deviceId => (h.active deviceId).symm⟩

lemma SameEpoch.trans (h : p.SameEpoch q) (h' : q.SameEpoch r) : p.SameEpoch r :=
  ⟨h.epoch.trans h'.epoch, fun deviceId => (h.active deviceId).trans (h'.active deviceId)⟩

/-- `q` is of a later epoch, or of the same epoch with the same active devices. -/
def Precedes (p q : Projection) : Prop := p.epoch < q.epoch ∨ p.SameEpoch q

lemma Precedes.le (h : p.Precedes q) : p.epoch ≤ q.epoch := by
  rcases h with hlt | hsame
  · exact Nat.le_of_lt hlt
  · exact Nat.le_of_eq hsame.epoch

lemma Precedes.same (h : p.Precedes q) (hle : q.epoch ≤ p.epoch) : p.SameEpoch q := by
  rcases h with hlt | hsame
  · exact absurd hlt (not_lt.mpr hle)
  · exact hsame

lemma Precedes.trans (h : p.Precedes q) (h' : q.Precedes r) : p.Precedes r := by
  rcases h with hlt | hsame
  · exact .inl (lt_of_lt_of_le hlt h'.le)
  · rcases h' with hlt' | hsame'
    · exact .inl (hsame.epoch ▸ hlt')
    · exact .inr (hsame.trans hsame')

lemma SameEpoch.of_devices (hepoc : p.epoch = q.epoch) (hdev : p.devices = q.devices) :
    p.SameEpoch q :=
  ⟨hepoc, fun deviceId => by rw [Active, Active, hdev]⟩

lemma modifyDevice_active {deviceId : DeviceId}
    {change : ProjectedDevice → Except IdentityError ProjectedDevice}
    (h : p.modifyDevice deviceId change = .ok q)
    (hchang : ∀ device next, change device = .ok next →
      next.id = device.id ∧ next.lifecycle = device.lifecycle) (other : DeviceId) :
    p.Active other ↔ q.Active other := by
  have hkeys : p.devices.map (fun device => (device.id, device.lifecycle)) =
      q.devices.map fun device => (device.id, device.lifecycle) := by
    obtain ⟨index, next, hlt, hnext, rfl⟩ := modifyDevice_set h
    obtain ⟨hid, hlif⟩ := hchang _ _ hnext
    exact (map_set_of_eq hlt (Prod.ext hid hlif)).symm
  have hact := congrArg ((other, ProjectedDeviceLifecycle.active) ∈ ·) hkeys
  simp only [mem_map, Prod.mk.injEq] at hact
  exact iff_of_eq hact

lemma applyOperation_active
    {time : Option Timestamp} (h : p.applyOperation evidence event time = .ok q)
    (hepoc : operationChangesEpoch event.body.operation = false) (deviceId : DeviceId) :
    p.Active deviceId ↔ q.Active deviceId := by
  unfold applyOperation at h
  cases hop : event.body.operation with
  | updateDeviceMetadata update =>
    rw [hop] at h
    refine modifyDevice_active h (fun device next hnext => ?_) deviceId
    obtain rfl := Except.ok.inj hnext
    exact ⟨rfl, rfl⟩
  | beginCryptoMigration begin =>
    rw [hop] at h
    obtain ⟨-, -, -, -, -, rfl⟩ := beginCryptoMigration_ok h
    exact Iff.rfl
  | retireCryptoSuite retire =>
    rw [hop] at h
    rcases retireCryptoSuite_ok h with ⟨-, -, -, -, rfl⟩ | ⟨-, -, -, -, -, -, -, -, rfl⟩
    · exact Iff.rfl
    · exact Iff.rfl
  | _ =>
    rw [hop] at hepoc
    cases hepoc

lemma applyLinear_epoch {epoch : Epoch} (h : p.applyLinear evidence event = .ok (epoch, q)) :
    if operationChangesEpoch event.body.operation then p.epoch < q.epoch else p.SameEpoch q := by
  obtain ⟨-, hepoc, time, next, hval, hnext, rfl⟩ := applyLinear_ok h
  obtain ⟨-, hres, -⟩ := validateEvent_ok hval
  unfold expectedEpoch at hepoc
  split
  · rename_i hchan
    rw [if_pos hchan] at hepoc
    show p.epoch < event.body.resultingEpoch
    rw [hres, checkedAdd_ok hepoc]
    exact Nat.lt_succ_self _
  · rename_i hkeep
    rw [if_neg hkeep] at hepoc
    have hact := applyOperation_active hnext (by simpa using hkeep)
    refine ⟨?_, fun deviceId => hact deviceId⟩
    show p.epoch = event.body.resultingEpoch
    rw [hres]
    exact Except.ok.inj hepoc

lemma applyLinear_precedes {epoch : Epoch}
    (h : p.applyLinear evidence event = .ok (epoch, q)) : p.Precedes q := by
  have hstep := applyLinear_epoch h
  split at hstep
  · exact .inl hstep
  · exact .inr hstep

lemma applyResolution_epoch {resolution : ResolveFork}
    (h : p.applyResolution resolution event = .ok q) : q.epoch = event.body.resultingEpoch := by
  simp only [applyResolution, bind_ok, reject_ok, pure_ok] at h
  obtain ⟨_, -, _, -, -, -, -, -, rfl⟩ := h
  rfl

/-! ## Chains -/

variable {chain : List Projection}

lemma pairwise_concat (h : (chain ++ [p]).Pairwise Precedes)
    (hstep : p.Precedes q) : (chain ++ [p] ++ [q]).Pairwise Precedes := by
  refine pairwise_append.mpr ⟨h, pairwise_singleton _ _, fun first hfir last hlast => ?_⟩
  obtain rfl := mem_singleton.mp hlast
  rcases mem_append.mp hfir with hchain | hp
  · exact ((pairwise_append.mp h).2.2 first hchain p mem_cons_self).trans hstep
  · obtain rfl := mem_singleton.mp hp
    exact hstep

lemma pairwise_cons_same (h : (p :: chain).Pairwise Precedes)
    (hsame : q.SameEpoch p) : (q :: chain).Pairwise Precedes := by
  obtain ⟨hfir, hchain⟩ := pairwise_cons.mp h
  exact pairwise_cons.mpr
    ⟨fun r hr => Precedes.trans (.inr hsame) (hfir r hr), hchain⟩

lemma pairwise_cons_self (h : (p :: chain).Pairwise Precedes) :
    (p :: p :: chain).Pairwise Precedes := by
  refine pairwise_cons.mpr ⟨fun q hq => ?_, h⟩
  rcases mem_cons.mp hq with rfl | hq
  · exact .inr (.refl _)
  · exact rel_of_pairwise_cons h hq

lemma pairwise_concat_same (h : (chain ++ [p]).Pairwise Precedes)
    (hsame : p.SameEpoch q) : (chain ++ [q]).Pairwise Precedes := by
  obtain ⟨hchain, -, hlast⟩ := pairwise_append.mp h
  refine pairwise_append.mpr ⟨hchain, pairwise_singleton _ _, fun first hfir r hr => ?_⟩
  obtain rfl := mem_singleton.mp hr
  exact (hlast first hfir p mem_cons_self).trans (.inr hsame)

end Projection

/-! ## The states of an account -/

def passed (entries : List (LineageEntry c)) : List Projection :=
  entries.map fun entry => entry.preState.projection

lemma passed_append (left right : List (LineageEntry c)) :
    passed (left ++ right) = passed left ++ passed right := map_append

namespace AccountState
variable {s s' pre post : AccountState c} {entry : LineageEntry c} {base : Projection}
  {fork : ForkProjection c}

/-- The projections at the heads: one, or one for each branch while a fork is open. -/
def tips (s : AccountState c) : List Projection :=
  match s.fork with
  | none => [s.projection]
  | some fork => fork.branches.map fun branch => branch.projectedState.projection

lemma tips_unforked (h : s.fork = none) : s.tips = [s.projection] := by
  simp [tips, h]

lemma mem_tips_forked {tip : Projection} (h : s.fork = some fork) :
    tip ∈ s.tips ↔ ∃ branch ∈ fork.branches, branch.projectedState.projection = tip := by
  simp [tips, h]

/-- Every head is of the epoch that the state itself shows. -/
def Level (s : AccountState c) : Prop := ∀ tip ∈ s.tips, tip.epoch = s.projection.epoch

instance (s : AccountState c) : Decidable s.Level :=
  inferInstanceAs (Decidable (∀ tip ∈ s.tips, _))

lemma level_unforked (h : s.fork = none) : s.Level := by
  intro tip htip
  rw [tips_unforked h] at htip
  rw [mem_singleton.mp htip]

/-- An open fork shows one head for each of its branches and the epoch and the devices of its common
state, and every branch goes on from there. -/
structure ForkSteady (s : AccountState c) : Prop where
  lifecycle {fork : ForkProjection c} : s.fork = some fork → s.projection.lifecycle = .forked
  heads {fork : ForkProjection c} : s.fork = some fork →
    s.projection.heads.length = fork.branches.length ∧ 2 ≤ fork.branches.length
  common {fork : ForkProjection c} : s.fork = some fork →
    s.projection.SameEpoch fork.commonState.projection
  branch {fork : ForkProjection c} {branch : ForkBranch c} : s.fork = some fork →
    branch ∈ fork.branches →
    (s.projection :: passed branch.transitions ++
      [branch.projectedState.projection]).Pairwise Projection.Precedes

lemma forkSteady_unforked (h : s.fork = none) : s.ForkSteady where
  lifecycle hfork := by rw [h] at hfork; cases hfork
  heads hfork := by rw [h] at hfork; cases hfork
  common hfork := by rw [h] at hfork; cases hfork
  branch hfork := by rw [h] at hfork; cases hfork

lemma ForkSteady.precedes {branch : ForkBranch c} (h : s.ForkSteady) (hfork : s.fork = some fork)
    (hbran : branch ∈ fork.branches) : s.projection.Precedes branch.projectedState.projection :=
  rel_of_pairwise_cons (h.branch hfork hbran)
    (mem_append_right _ mem_cons_self)

/-- The states that an account has passed through, in its lineage and in its branches, precede one
another in this order. -/
structure Steady (s : AccountState c) : Prop where
  lineage : (passed s.lineage ++ [s.projection]).Pairwise Projection.Precedes
  distinct : (s.lineage.map fun entry => entry.event.eventId).Nodup
  settled : ∀ entry ∈ s.lineage, entry.preState.ForkSteady
  fork : s.ForkSteady
  branches {fork : ForkProjection c} {branch : ForkBranch c} : s.fork = some fork →
    branch ∈ fork.branches → branch.projectedState.ForkSteady ∧
      ∀ entry ∈ branch.transitions, entry.preState.ForkSteady

lemma steady_fromGenesis (genesis : AccountGenesis c) : (fromGenesis genesis).Steady where
  lineage := pairwise_singleton _ _
  distinct := nodup_nil
  settled _ hent := by cases hent
  fork := forkSteady_unforked rfl
  branches hfork := by cases hfork

section
variable (h : Accepts evidence pre event base entry post)
include h

lemma Accepts.unforked : post.fork = none := by
  cases h with
  | linear | resolution => rfl

lemma Accepts.pre_eq : entry.preState.projection = pre.projection := by
  cases h with
  | linear | resolution => rfl

lemma Accepts.forkSteady (hpre : pre.ForkSteady) : entry.preState.ForkSteady := by
  cases h with
  | linear => exact forkSteady_unforked rfl
  | resolution => exact ⟨hpre.lifecycle, hpre.heads, hpre.common, hpre.branch⟩

end

variable {selected : ForkBranch c} {epoch : Epoch} {p : Projection} {branches : List (ForkBranch c)}
  {heads : List EventId}

lemma projectResolution_rises (h : pre.projectResolution event = .ok (fork, selected, epoch, p)) :
    pre.fork = some fork ∧
      (∀ branch ∈ fork.branches, branch.projectedState.projection.epoch < p.epoch) ∧
      selected ∈ fork.branches := by
  obtain ⟨resolution, maximum, time, -, hfork, hsel, hmax, hepoc, hval, hp⟩ :=
    projectResolution_ok h
  obtain ⟨-, hres, -⟩ := validateEvent_ok hval
  refine ⟨hfork, fun branch hbran => ?_, mem_of_find?_eq_some hsel⟩
  have hle : branch.projectedState.projection.epoch ≤ maximum :=
    (max?_eq_some_iff.mp hmax).2 _ (mem_map_of_mem hbran)
  rw [applyResolution_epoch hp, hres, checkedAdd_ok hepoc]
  exact Nat.lt_succ_of_le hle

lemma Accepts.precedes (h : Accepts evidence pre event base entry post)
    (hpre : pre.ForkSteady) : pre.projection.Precedes post.projection := by
  cases h with
  | linear hproj => exact applyLinear_precedes hproj
  | resolution hproj =>
    obtain ⟨hfork, hris, hsel⟩ := projectResolution_rises hproj
    exact .inl (lt_of_le_of_lt (hpre.precedes hfork hsel).le (hris _ hsel))

/-! ## One delivery -/

/-- What a delivery does to the tips. -/
structure Moves (s s' : AccountState c) (effects : List ProjectionEffect) : Prop where
  peak (epoch : Epoch) : (∃ tip ∈ s.tips, epoch ≤ tip.epoch) → ∃ tip ∈ s'.tips, epoch ≤ tip.epoch
  level : s'.Level →
    (s.Level ∧ s'.projection.epoch = s.projection.epoch ∧
      ∀ deviceId, (∀ tip ∈ s.tips, tip.Active deviceId) →
        ∀ tip ∈ s'.tips, tip.Active deviceId) ∨
    ((∀ tip ∈ s.tips, tip.epoch < s'.projection.epoch) ∧
      ∃ eventId, .rotateGroupKeys eventId s'.projection.epoch ∈ effects)

lemma Moves.of_tips (htips : s'.tips = s.tips) (hprojec : s'.projection = s.projection)
    (effects : List ProjectionEffect) : Moves s s' effects where
  peak epoch h := by rwa [htips]
  level hlev := by
    refine .inl ⟨?_, by rw [hprojec], fun deviceId h => by rwa [htips]⟩
    intro tip htip
    rw [hlev tip (htips ▸ htip), hprojec]

lemma length_forkHeadIds {branches : List (ForkBranch c)} {heads : List EventId}
    (h : forkHeadIds branches = .ok heads) : heads.length = branches.length :=
  (mapM_ok h).length_eq.symm

section
variable {commonState conflictPre : AccountState c} {ancestor : ForkCommonAncestor}
  {sequence maximum : Sequence} {predecessors : EventPredecessors} {left : List (LineageEntry c)}

/-- A fork is opened beside the lineage that follows the conflict. -/
lemma moves_opened (hfork : s.fork = none)
    (hcom : commonState.projection.SameEpoch conflictPre.projection)
    (hleft : (conflictPre.projection :: passed left ++ [s.projection]).Pairwise Projection.Precedes)
    (hset : ∀ entry ∈ left, entry.preState.ForkSteady)
    (hent : entry.preState.projection = conflictPre.projection)
    (hentrySteady : entry.preState.ForkSteady) (hunf : post.fork = none)
    (hpost : conflictPre.projection.Precedes post.projection)
    (hsor : sortForkBranches [⟨left, s.detachedSnapshot⟩, ⟨[entry], post⟩] = .ok branches)
    (hhead : forkHeadIds branches = .ok heads) (effects : List ProjectionEffect)
    (hs' : s' = commonState.forkedState
      ⟨commonState, ancestor, sequence, predecessors, branches⟩ maximum heads) :
    s'.Steady ∧ Moves s s' effects := by
  have hmem : ∀ branch ∈ branches, branch = ⟨left, s.detachedSnapshot⟩ ∨
      branch = ⟨[entry], post⟩ := by
    intro branch hbran
    simpa using (sortForkBranches_ok hsor).mem_iff.mp hbran
  have htips : ∀ tip, tip ∈ s'.tips ↔ tip = s.projection ∨ tip = post.projection := by
    intro tip
    rw [hs', mem_tips_forked rfl]
    simp only [(sortForkBranches_ok hsor).mem_iff]
    simp [detachedSnapshot, eq_comm]
  have hshow : s'.projection.SameEpoch conflictPre.projection := by
    rw [hs']
    exact ⟨hcom.epoch, hcom.active⟩
  have hpas := rel_of_pairwise_cons hleft (mem_append_right _ mem_cons_self)
  subst hs'
  constructor
  · refine ⟨pairwise_singleton _ _, nodup_nil, fun _ h => (not_mem_nil h).elim,
      ⟨fun _ => rfl, fun hfork => ?_, fun hfork => ?_, fun hfork hbran => ?_⟩,
      fun hfork hbran => ?_⟩
    all_goals obtain rfl := Option.some.inj hfork
    · exact ⟨length_forkHeadIds hhead, Nat.le_of_eq (sortForkBranches_ok hsor).length_eq.symm⟩
    · exact .of_devices rfl rfl
    · rcases hmem _ hbran with rfl | rfl
      · exact pairwise_cons_same hleft hshow
      · have hchain : [conflictPre.projection, post.projection].Pairwise
            Projection.Precedes := by simpa using hpost
        have hpas : passed [entry] = [conflictPre.projection] := congrArg (fun p => [p]) hent
        show (_ :: passed [entry] ++ [post.projection]).Pairwise Projection.Precedes
        rw [hpas]
        exact pairwise_cons_same (pairwise_cons_self hchain) hshow
    · rcases hmem _ hbran with rfl | rfl
      · exact ⟨forkSteady_unforked rfl, hset⟩
      · refine ⟨forkSteady_unforked hunf, fun transition htran => ?_⟩
        rw [mem_singleton.mp htran]
        exact hentrySteady
  · refine ⟨?_, fun hlev => ?_⟩
    · rintro epoch ⟨tip, htip, hle⟩
      rw [tips_unforked hfork] at htip
      rw [mem_singleton.mp htip] at hle
      exact ⟨s.projection, (htips _).mpr (.inl rfl), hle⟩
    · have hs := hlev _ ((htips _).mpr (.inl rfl))
      have hrig := hlev _ ((htips _).mpr (.inr rfl))
      refine .inl ⟨level_unforked hfork, hs.symm, fun deviceId hact tip htip => ?_⟩
      have hact : s.projection.Active deviceId :=
        hact _ (by rw [tips_unforked hfork]; exact mem_cons_self)
      have hsame := hpas.same (Nat.le_of_eq (hs.trans hshow.epoch))
      have hsame' := hpost.same (Nat.le_of_eq (hrig.trans hshow.epoch))
      rcases (htips tip).mp htip with rfl | rfl
      · exact hact
      · exact (hsame'.active deviceId).mp ((hsame.active deviceId).mpr hact)

end

lemma lineageFrom_eq {conflict : LineageEntry c} {left : List (LineageEntry c)} (hs : s.Steady)
    (hcon : conflict ∈ s.lineage) (h : s.lineageFrom conflict.event.eventId = some left) :
    ∃ before after, s.lineage = before ++ left ∧ left = conflict :: after := by
  obtain ⟨index, hind, rfl⟩ := Option.map_eq_some_iff.mp h
  obtain ⟨hlt, heq, -⟩ := findIdx?_eq_some_iff_getElem.mp hind
  have hsame : s.lineage[index] = conflict :=
    inj_on_of_nodup_map hs.distinct (getElem_mem hlt) hcon (by simpa using heq)
  refine ⟨s.lineage.take index, s.lineage.drop (index + 1), (take_append_drop _ _).symm, ?_⟩
  rw [← hsame, drop_eq_getElem_cons hlt]

variable {evicted lineage : List (LineageEntry c)} {through : Option Sequence}

lemma steady_linear (hs : s.Steady) {bytes : Nat}
    (hfres : ∀ entry ∈ s.lineage, entry.event.eventId ≠ event.eventId)
    (hproj : s.projection.applyLinear s.lineageEvidence event = .ok (epoch, p))
    (hret : s.lineage ++ [s.linearEntry epoch event] = evicted ++ lineage) :
    ((s.afterLinear p).withLineage lineage bytes through).Steady where
  lineage := by
    have hchain := pairwise_concat hs.lineage (applyLinear_precedes hproj)
    have hpas : passed s.lineage ++ [s.projection] = passed evicted ++ passed lineage := by
      rw [← passed_append, ← hret, passed_append]
      rfl
    rw [hpas, append_assoc] at hchain
    exact (pairwise_append.mp hchain).2.1
  distinct := by
    have hnod : ((s.lineage ++ [s.linearEntry epoch event]).map
        fun entry => entry.event.eventId).Nodup := by
      rw [map_append]
      refine List.Nodup.append hs.distinct (nodup_singleton _) ?_
      intro id hid hnew
      obtain ⟨entry, hent, rfl⟩ := mem_map.mp hid
      exact hfres entry hent (mem_singleton.mp hnew)
    rw [hret, map_append] at hnod
    exact (nodup_append.mp hnod).2.1
  settled entry hent := by
    rcases mem_of_retained hret hent with hold | rfl
    · exact hs.settled entry hold
    · exact forkSteady_unforked rfl
  fork := forkSteady_unforked rfl
  branches hfork := by cases hfork

lemma steady_resolved (hs : s.Steady) {bytes : Nat}
    (hproj : s.projectResolution event = .ok (fork, selected, epoch, p))
    (hret : [s.resolutionEntry fork epoch event] = evicted ++ lineage) :
    ((afterResolution selected p).withLineage lineage bytes through).Steady := by
  have hacc : Accepts s.lineageEvidence s event _ _ _ := .resolution hproj
  have hsub : lineage <:+ [s.resolutionEntry fork epoch event] := ⟨evicted, hret.symm⟩
  have hmem : ∀ entry ∈ lineage, entry = s.resolutionEntry fork epoch event :=
    fun entry hent => mem_singleton.mp (hsub.subset hent)
  refine ⟨?_, ?_, fun entry hent => ?_, forkSteady_unforked rfl, nofun⟩
  · have hprec : s.projection.Precedes p := hacc.precedes hs.fork
    have hchain : ([s.projection] ++ [p]).Pairwise Projection.Precedes := by
      simpa using hprec
    have hpas : (passed lineage).Sublist [s.projection] := hsub.sublist.map _
    exact hchain.sublist (hpas.append (List.Sublist.refl _))
  · have hids : (lineage.map fun entry => entry.event.eventId).Sublist [event.eventId] :=
      hsub.sublist.map _
    exact (nodup_singleton _).sublist hids
  · rw [hmem entry hent]
    exact hacc.forkSteady hs.fork

lemma mem_or_eq_of_set {α : Type} {l : List α} {i : Nat} {a b x : α} (ha : l[i]? = some a)
    (hb : b ∈ l) : b = a ∨ b ∈ l.set i x := by
  obtain ⟨j, hj, rfl⟩ := getElem_of_mem hb
  by_cases hij : i = j
  · subst hij
    exact .inl (by simpa [getElem?_eq_getElem hj] using ha)
  · refine .inr (mem_iff_getElem.mpr ⟨j, by simpa using hj, ?_⟩)
    rw [getElem_set_ne hij]

section
variable {extended : List (ForkBranch c)}

lemma Extends.chain (h : Extends fork.branches event pre entry post extended) (hs : s.Steady)
    (hfork : s.fork = some fork) : ∃ before, ⟨before ++ [entry], post⟩ ∈ extended ∧
      (∀ branch ∈ extended, branch ∈ fork.branches ∨ branch = ⟨before ++ [entry], post⟩) ∧
      (s.projection :: passed before ++ [pre.projection]).Pairwise Projection.Precedes ∧
      (∀ entry ∈ before, entry.preState.ForkSteady) ∧ pre.ForkSteady ∧
      (∃ branch, branch ∈ fork.branches) ∧
      ∀ branch ∈ fork.branches, branch ∈ extended ∨ branch.projectedState = pre := by
  cases h with
  | parent hfoun hpar =>
    rename_i index parent
    have hmem := mem_of_getElem? hpar
    obtain ⟨hlt, -⟩ := List.getElem?_eq_some_iff.mp hpar
    refine ⟨parent.transitions, mem_set hlt _, fun branch => mem_or_eq_of_mem_set,
      hs.fork.branch hfork hmem, (hs.branches hfork hmem).2, (hs.branches hfork hmem).1,
      ⟨parent, hmem⟩, fun branch hbran => ?_⟩
    rcases mem_or_eq_of_set hpar hbran with rfl | hkept
    · exact .inr rfl
    · exact .inl hkept
  | conflict horp hfoun =>
    rename_i before conflicting
    obtain ⟨branch, hbran, hcon⟩ := exists_of_findSome?_eq_some hfoun
    obtain ⟨after, htrans, -⟩ := branchConflict_eq_some hcon
    have hset := (hs.branches hfork hbran).2
    rw [htrans] at hset
    refine ⟨before, mem_append_right _ mem_cons_self, fun other hoth => ?_, ?_,
      fun entry hent => hset entry (mem_append_left _ hent),
      hset conflicting (mem_append_right _ mem_cons_self), ⟨branch, hbran⟩,
      fun other hoth => .inl (mem_append_left _ hoth)⟩
    · simpa using hoth
    · have hchain := hs.fork.branch hfork hbran
      rw [htrans, passed_append] at hchain
      refine hchain.sublist ?_
      simp [passed]

lemma Extends.length_le (h : Extends fork.branches event pre entry post extended) :
    fork.branches.length ≤ extended.length := by
  cases h with
  | parent | conflict => simp

variable {maximum : Sequence}

lemma moves_extended (hs : s.Steady) (hfork : s.fork = some fork)
    (hacc : Accepts evidence pre event base entry post)
    (hext : Extends fork.branches event pre entry post extended)
    (hsor : sortForkBranches extended = .ok branches) (hhead : forkHeadIds branches = .ok heads)
    (effects : List ProjectionEffect) (hs' : s' = s.withBranches fork branches maximum heads) :
    s'.Steady ∧ Moves s s' effects := by
  obtain ⟨before, hnew, hmem, hchain, hbef, hpre, ⟨first, hfir⟩, hkept⟩ := hext.chain hs hfork
  have hstep := hacc.precedes hpre
  have htips : ∀ tip, tip ∈ s'.tips ↔
      ∃ branch ∈ extended, branch.projectedState.projection = tip := by
    intro tip
    rw [hs', mem_tips_forked rfl]
    simp only [(sortForkBranches_ok hsor).mem_iff]
  have hpost : post.projection ∈ s'.tips := (htips _).mpr ⟨_, hnew, rfl⟩
  have hshow : s'.projection.SameEpoch s.projection := by
    rw [hs']
    exact .of_devices rfl rfl
  subst hs'
  constructor
  · have hmem : ∀ branch ∈ branches, branch ∈ fork.branches ∨
        branch = ⟨before ++ [entry], post⟩ :=
      fun branch hbran => hmem branch ((sortForkBranches_ok hsor).mem_iff.mp hbran)
    refine ⟨pairwise_concat_same hs.lineage hshow.symm, hs.distinct, hs.settled,
      ⟨fun _ => hs.fork.lifecycle hfork, fun hsome => ?_, fun hsome => ?_, fun hsome hbran => ?_⟩,
      fun hsome hbran => ?_⟩
    all_goals obtain rfl := Option.some.inj hsome
    · refine ⟨length_forkHeadIds hhead, (hs.fork.heads hfork).2.trans ?_⟩
      rw [(sortForkBranches_ok hsor).length_eq]
      exact hext.length_le
    · have hcom := hs.fork.common hfork
      exact hshow.trans hcom
    · rcases hmem _ hbran with hold | rfl
      · exact pairwise_cons_same (hs.fork.branch hfork hold) hshow
      · have hchain := pairwise_concat hchain hstep
        have hpas : passed (before ++ [entry]) = passed before ++ [pre.projection] := by
          rw [passed_append, ← hacc.pre_eq]
          rfl
        refine pairwise_cons_same (p := s.projection) ?_ hshow
        rw [hpas]
        simpa using hchain
    · rcases hmem _ hbran with hold | rfl
      · exact hs.branches hfork hold
      · refine ⟨forkSteady_unforked hacc.unforked, fun transition htran => ?_⟩
        rcases mem_append.mp htran with hold | hnew
        · exact hbef transition hold
        · rw [mem_singleton.mp hnew]
          exact hacc.forkSteady hpre
  · have hshow : s.projection.Precedes pre.projection :=
      rel_of_pairwise_cons hchain (mem_append_right _ mem_cons_self)
    refine ⟨?_, fun hlev => .inl ⟨?_, rfl, ?_⟩⟩
    · rintro epoch ⟨tip, htip, hle⟩
      obtain ⟨branch, hbran, rfl⟩ := (mem_tips_forked hfork).mp htip
      rcases hkept branch hbran with hkept | hrep
      · exact ⟨_, (htips _).mpr ⟨branch, hkept, rfl⟩, hle⟩
      · rw [hrep] at hle
        exact ⟨_, hpost, hle.trans hstep.le⟩
    · intro tip htip
      obtain ⟨branch, hbran, rfl⟩ := (mem_tips_forked hfork).mp htip
      rcases hkept branch hbran with hkept | hrep
      · exact hlev _ ((htips _).mpr ⟨branch, hkept, rfl⟩)
      · rw [hrep]
        exact Nat.le_antisymm (hstep.le.trans (Nat.le_of_eq (hlev _ hpost))) hshow.le
    · intro deviceId hact tip htip
      obtain ⟨branch, hbran, rfl⟩ := (htips tip).mp htip
      rcases hmem branch hbran with hold | rfl
      · exact hact _ ((mem_tips_forked hfork).mpr ⟨branch, hold, rfl⟩)
      · have hfirstActive := hact _ ((mem_tips_forked hfork).mpr ⟨first, hfir, rfl⟩)
        have hfirstEpoch : first.projectedState.projection.epoch ≤ s.projection.epoch := by
          rcases hkept first hfir with hkept | hrep
          · exact Nat.le_of_eq (hlev _ ((htips _).mpr ⟨first, hkept, rfl⟩))
          · rw [hrep]
            exact hstep.le.trans (Nat.le_of_eq (hlev _ hpost))
        have hsame := (hs.fork.precedes hfork hfir).same hfirstEpoch
        have hsame' := (hshow.trans hstep).same (Nat.le_of_eq (hlev _ hpost))
        exact (hsame'.active deviceId).mp ((hsame.active deviceId).mpr hfirstActive)

end

/-! ## Replays -/

lemma mergeEventEvidence_eventId {retained incoming merged : AuthorizedEvent c}
    (h : mergeEventEvidence retained incoming = .ok merged) :
    merged.eventId = retained.eventId := by
  simp only [mergeEventEvidence, bind_ok, reject_ok] at h
  obtain ⟨-, -, approvals, -, h⟩ := h
  split at h
  · rw [pure_ok.mp h]
  · obtain ⟨hbody, hevid, -⟩ := AuthorizedEvent.new_ok h
    rw [AuthorizedEvent.eventId, AuthorizedEvent.eventId, hbody, hevid]

lemma passed_replaceEvent (merged : AuthorizedEvent c) (branch : ForkBranch c) :
    passed (replaceEvent merged branch).transitions = passed branch.transitions := by
  unfold passed replaceEvent
  rw [map_map]
  refine map_congr_left fun transition _ => ?_
  simp only [Function.comp_apply]
  split
  · rfl
  · rfl

lemma Replayed.moves (h : Replayed s event s') (effects : List ProjectionEffect) :
    Moves s s' effects := by
  cases h with
  | unchanged => exact .of_tips rfl rfl effects
  | lineage =>
    refine .of_tips ?_ ?_ effects
    · rfl
    · rfl
  | fork hfork hmer =>
    refine .of_tips ?_ ?_ effects
    · rw [tips, tips, hfork]
      simp [replaceEvent, Function.comp_def]
    · rfl

lemma Replayed.steady (h : Replayed s event s') (hs : s.Steady) : s'.Steady := by
  cases h with
  | unchanged => exact hs
  | lineage hent hmer hret =>
    rename_i index entry merged evicted lineage bytes
    obtain ⟨hlt, rfl⟩ := List.getElem?_eq_some_iff.mp hent
    have hpas : passed (evicted ++ lineage) = passed s.lineage := by
      rw [← hret]
      exact map_set_of_eq hlt rfl
    have hids : (evicted ++ lineage).map (fun entry => entry.event.eventId) =
        s.lineage.map fun entry => entry.event.eventId := by
      rw [← hret]
      exact map_set_of_eq hlt (mergeEventEvidence_eventId hmer)
    refine ⟨?_, ?_, fun transition htran => ?_,
      ⟨hs.fork.lifecycle, hs.fork.heads, hs.fork.common, hs.fork.branch⟩, hs.branches⟩
    · have hchain := hs.lineage
      rw [← hpas, passed_append, append_assoc] at hchain
      exact (pairwise_append.mp hchain).2.1
    · have hnod := hs.distinct
      rw [← hids, map_append] at hnod
      exact (nodup_append.mp hnod).2.1
    · have hmem := hret ▸ mem_append_right evicted htran
      rcases mem_or_eq_of_mem_set hmem with hold | rfl
      · exact hs.settled transition hold
      · have hset := hs.settled _ (getElem_mem hlt)
        exact hset
  | fork hfork hmer =>
    rename_i fork merged
    refine ⟨hs.lineage, hs.distinct, hs.settled, ⟨fun _ => hs.fork.lifecycle hfork,
      fun hsome => ?_, fun hsome => ?_, fun hsome hbran => ?_⟩, fun hsome hbran => ?_⟩
    all_goals obtain rfl := Option.some.inj hsome
    · simpa using hs.fork.heads hfork
    · have hcom := hs.fork.common hfork
      exact hcom
    · obtain ⟨original, horig, rfl⟩ := mem_map.mp hbran
      rw [passed_replaceEvent]
      exact hs.fork.branch hfork horig
    · obtain ⟨original, horig, rfl⟩ := mem_map.mp hbran
      refine ⟨(hs.branches hfork horig).1, fun transition htran => ?_⟩
      obtain ⟨retained, hret, rfl⟩ := mem_map.mp htran
      have hset := (hs.branches hfork horig).2 retained hret
      split
      · exact hset
      · exact hset

/-! ## Every delivery -/

variable {outcome : ApplyOutcome}

lemma rotates_applied (event : AuthorizedEvent c) (s : AccountState c) :
    ProjectionEffect.rotateGroupKeys event.eventId s.projection.epoch ∈
      (applied event s true).effects := by
  simp [applied, transitionEffects]

lemma moves_new (hs : s.Steady) (h : New s event s')
    (hfres : ∀ entry ∈ s.lineage, entry.event.eventId ≠ event.eventId)
    {effects : List ProjectionEffect}
    (hrot : s'.fork = none → operationChangesEpoch event.body.operation = true →
      ∃ eventId, .rotateGroupKeys eventId s'.projection.epoch ∈ effects) :
    s'.Steady ∧ Moves s s' effects := by
  cases h with
  | linear hfork hnone hproj hret =>
    rename_i epoch p evicted lineage bytes
    have hstep := applyLinear_epoch hproj
    have htips := tips_unforked hfork
    refine ⟨steady_linear hs hfres hproj hret, ?_, fun _ => ?_⟩
    · rintro bound ⟨tip, htip, hle⟩
      rw [htips] at htip
      rw [mem_singleton.mp htip] at hle
      exact ⟨p, mem_singleton.mpr rfl, hle.trans (applyLinear_precedes hproj).le⟩
    · rw [htips]
      split at hstep
      · rename_i hchan
        refine .inr ⟨fun tip htip => ?_, hrot rfl hchan⟩
        rw [mem_singleton.mp htip]
        exact hstep
      · refine .inl ⟨level_unforked hfork, hstep.epoch.symm, fun deviceId hact tip htip => ?_⟩
        rw [mem_singleton.mp htip]
        exact (hstep.active deviceId).mp (hact _ mem_cons_self)
  | resolved hproj hret =>
    rename_i fork selected epoch p evicted lineage bytes
    obtain ⟨hfork, hris, -⟩ := projectResolution_rises hproj
    have hlt : ∀ tip ∈ s.tips, tip.epoch < p.epoch := by
      intro tip htip
      obtain ⟨branch, hbran, rfl⟩ := (mem_tips_forked hfork).mp htip
      exact hris branch hbran
    refine ⟨steady_resolved hs hproj hret, ?_, fun _ => .inr ⟨hlt, hrot rfl ?_⟩⟩
    · rintro bound ⟨tip, htip, hle⟩
      exact ⟨p, mem_singleton.mpr rfl, hle.trans (Nat.le_of_lt (hlt tip htip))⟩
    · obtain ⟨resolution, -, -, hop, -⟩ := projectResolution_ok hproj
      rw [hop]
      rfl
  | opened hfork hfoun hacc hopens =>
    rename_i conflict entry base post
    have hcon := mem_of_findLineageConflict hfoun
    have hpre := hs.settled conflict hcon
    obtain ⟨hcom, hleft, hsor, -, hhead⟩ := hopens
    obtain ⟨earlier, after, hlin, rfl⟩ := lineageFrom_eq hs hcon hleft
    refine moves_opened hfork ?_ ?_ ?_ hacc.pre_eq (hacc.forkSteady hpre) hacc.unforked
      (hacc.precedes hpre) hsor hhead effects rfl
    · rcases hcom with rfl | ⟨original, horig, rfl⟩
      · exact .refl _
      · exact (hpre.common horig).symm
    · have hchain := hs.lineage
      rw [hlin, passed_append, append_assoc] at hchain
      exact pairwise_cons_self (pairwise_append.mp hchain).2.1
    · intro entry hent
      exact hs.settled entry (hlin ▸ mem_append_right _ hent)
  | extended hfork hacc hext hsor hmax hhead =>
    exact moves_extended hs hfork hacc hext hsor hhead effects rfl

lemma fresh_of_tryReplay (h : s.tryReplay event = .ok none) :
    ∀ entry ∈ s.lineage, entry.event.eventId ≠ event.eventId := by
  unfold tryReplay at h
  split at h
  · simp only [bind_ok, pure_ok] at h
    obtain ⟨_, -, _, -, h⟩ := h
    cases h
  · rename_i hnone
    intro entry hent heq
    have := findIdx?_eq_none_iff.mp hnone entry hent
    simp [heq] at this

/-- Every accepted delivery moves the tips by the rule, and the states that the
account has passed through stay in order. -/
lemma validateAndApply_moves (hs : s.Steady)
    (h : s.validateAndApply event = .ok (s', outcome)) : s'.Steady ∧ Moves s s' outcome.effects := by
  rcases validateAndApply_cases h with hrepl | ⟨hrepl, h⟩
  · have hreplay := tryReplay_ok hrepl
    exact ⟨hreplay.steady hs, hreplay.moves _⟩
  · obtain ⟨hnew, -, heff⟩ := applyNew_ok h
    refine moves_new hs hnew (fresh_of_tryReplay hrepl) ?_
    intro hfork hchan
    refine ⟨event.eventId, ?_⟩
    rcases heff hfork with rfl | rfl
    · exact rotates_applied event s'
    · rw [hchan]
      exact rotates_applied event s'

/-- Whatever is delivered, the epoch never goes back along the states of an account, the active
devices change only with it, and an accepted event moves the tips by the rule. -/
theorem moves_of_deliveries (genesis : AccountGenesis c) (events : List (AuthorizedEvent c)) :
    let s := events.foldl deliver (fromGenesis genesis)
    s.Steady ∧ ∀ event s' outcome, s.validateAndApply event = .ok (s', outcome) →
      Moves s s' outcome.effects := by
  have hsteady : (events.foldl deliver (fromGenesis genesis)).Steady := by
    refine foldlRecOn _ _ (steady_fromGenesis genesis) fun s hs event _ => ?_
    unfold deliver
    split
    · rename_i h
      exact (validateAndApply_moves hs h).1
    · exact hs
  exact ⟨hsteady, fun event s' outcome h => (validateAndApply_moves hsteady h).2⟩

end AccountState
end Krikos.Identity
