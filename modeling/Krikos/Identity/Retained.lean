import Krikos.Identity.Paths
import Krikos.Identity.Operations

/-!
# Identity.Retained

The states that an account state retains: itself, the pre-states of its lineage, the common state
and the branches of its fork, and what these retain in turn. A property that every event preserves
(`Preserved`) holds of all of them along every history (`all_of_reachable`).
-/

namespace Krikos.Identity

open Lib List

variable {c : Primitives}

/-! ## Retained states -/

def LineageEntry.states (entry : LineageEntry c) : List (AccountState c) :=
  entry.preState :: entry.authorityState.toList

def ForkBranch.states (branch : ForkBranch c) : List (AccountState c) :=
  branch.projectedState :: branch.transitions.flatMap LineageEntry.states

def ForkProjection.states (fork : ForkProjection c) : List (AccountState c) :=
  fork.commonState :: fork.branches.flatMap ForkBranch.states

namespace AccountState

def children (s : AccountState c) : List (AccountState c) :=
  s.lineage.flatMap LineageEntry.states ++ s.fork.toList.flatMap ForkProjection.states

lemma mem_children_of_lineage {s t : AccountState c} {entry : LineageEntry c}
    (hent : entry ∈ s.lineage) (ht : t ∈ entry.states) : t ∈ s.children :=
  mem_append_left _ (mem_flatMap.mpr ⟨entry, hent, ht⟩)

variable {fork : ForkProjection c} {P : AccountState c → Prop} {entry : LineageEntry c}

lemma mem_children_of_fork {s t : AccountState c}
    (hfork : s.fork = some fork) (ht : t ∈ fork.states) : t ∈ s.children := by
  refine mem_append_right _ ?_
  simpa [hfork] using ht

lemma mem_children_of_branch {s t : AccountState c}
    {branch : ForkBranch c} (hfork : s.fork = some fork) (hbran : branch ∈ fork.branches)
    (ht : t ∈ branch.states) : t ∈ s.children :=
  mem_children_of_fork hfork
    (mem_cons_of_mem _ (mem_flatMap.mpr ⟨branch, hbran, ht⟩))

inductive Retained : AccountState c → AccountState c → Prop where
  | refl (s : AccountState c) : Retained s s
  | child {s t u : AccountState c} : t ∈ s.children → Retained t u → Retained s u

def All (P : AccountState c → Prop) (s : AccountState c) : Prop :=
  ∀ t, Retained s t → P t

section
variable {s t : AccountState c}

lemma all_iff : All P s ↔ P s ∧ ∀ t ∈ s.children, All P t := by
  constructor
  · intro h
    exact ⟨h s (.refl s), fun t ht u hu => h u (.child ht hu)⟩
  · rintro ⟨hs, hchil⟩ t (⟨⟩ | ⟨hmem, hret⟩)
    · exact hs
    · exact hchil _ hmem t hret

lemma all_of_mem_lineage (h : All P s) (hent : entry ∈ s.lineage) (ht : t ∈ entry.states) :
    All P t :=
  (all_iff.mp h).2 t (mem_children_of_lineage hent ht)

lemma all_common (h : All P s) (hfork : s.fork = some fork) : All P fork.commonState :=
  (all_iff.mp h).2 _ (mem_children_of_fork hfork mem_cons_self)

lemma all_of_mem_branch {branch : ForkBranch c} (h : All P s) (hfork : s.fork = some fork)
    (hbran : branch ∈ fork.branches) (ht : t ∈ branch.states) : All P t :=
  (all_iff.mp h).2 t (mem_children_of_branch hfork hbran ht)

lemma mem_states_of_transition {branch : ForkBranch c} (hent : entry ∈ branch.transitions)
    (ht : t ∈ entry.states) : t ∈ branch.states :=
  mem_cons_of_mem _ (mem_flatMap.mpr ⟨entry, hent, ht⟩)

lemma all_of_children_nil (h : P s) (hnil : s.children = []) : All P s := by
  refine all_iff.mpr ⟨h, fun t ht => ?_⟩
  rw [hnil] at ht
  cases ht

lemma all_withLineage {lineage : List (LineageEntry c)} {bytes : Nat}
    {through : Option Sequence} (h : All P s) (hP : P (s.withLineage lineage bytes through))
    (hlin : ∀ entry ∈ lineage, ∀ t ∈ entry.states, All P t) :
    All P (s.withLineage lineage bytes through) := by
  refine all_iff.mpr ⟨hP, fun t ht => ?_⟩
  rcases mem_append.mp ht with ht | ht
  · obtain ⟨entry, hent, ht⟩ := mem_flatMap.mp ht
    exact hlin entry hent t ht
  · exact (all_iff.mp h).2 t (mem_append_right _ ht)

lemma all_of_fork (hs : P s) (hlin : ∀ entry ∈ s.lineage, ∀ t ∈ entry.states, All P t)
    (hfork : s.fork = some fork) (hcom : All P fork.commonState)
    (hbranc : ∀ branch ∈ fork.branches, ∀ t ∈ branch.states, All P t) : All P s := by
  refine all_iff.mpr ⟨hs, fun t ht => ?_⟩
  rcases mem_append.mp ht with ht | ht
  · obtain ⟨entry, hent, ht⟩ := mem_flatMap.mp ht
    exact hlin entry hent t ht
  · rw [hfork] at ht
    have ht : t ∈ fork.states := by simpa using ht
    rcases mem_cons.mp ht with rfl | ht
    · exact hcom
    · obtain ⟨branch, hbran, ht⟩ := mem_flatMap.mp ht
      exact hbranc branch hbran t ht

end

/-! ## Properties that every event preserves -/

/-- The property survives events and holds of the state of a fork; it does not depend on the
lineage or on the envelopes that a fork retains. -/
structure Preserved (P : AccountState c → Prop) : Prop where
  lineage {s : AccountState c} (lineage : List (LineageEntry c)) (bytes : Nat)
    (through : Option Sequence) : P s → P (s.withLineage lineage bytes through)
  detached {s : AccountState c} : P s → P s.detachedSnapshot
  linear {pre : AccountState c} {evidence : EventId → Option AdmissionEvidenceId}
    {event : AuthorizedEvent c} {epoch : Epoch} {p : Projection} :
    P pre → pre.projection.applyLinear evidence event = .ok (epoch, p) → P (pre.afterLinear p)
  resolution {selected : ForkBranch c} {resolution : ResolveFork} {event : AuthorizedEvent c}
    {p : Projection} : P selected.projectedState →
    event.body.operation = .resolveFork resolution →
    selected.projectedState.projection.applyResolution resolution event = .ok p →
    P (afterResolution selected p)
  opened {common : AccountState c} {fork : ForkProjection c} {maximum : Sequence}
    {heads : List EventId} : P common → maximumSequence fork.branches = some maximum →
    P (common.forkedState fork maximum heads)
  extended {s : AccountState c} {fork : ForkProjection c} {branches : List (ForkBranch c)}
    {maximum : Sequence} {heads : List EventId} : P s → maximumSequence branches = some maximum →
    P (s.withBranches fork branches maximum heads)
  replayed {s : AccountState c} {fork : ForkProjection c} (merged : AuthorizedEvent c) : P s →
    s.fork = some fork →
    P { s with fork := some { fork with branches := fork.branches.map (replaceEvent merged) } }

/-- A property of projections that events preserve, whatever their position and whether or not a
fork is open. -/
structure ProjectionPreserved (c : Primitives) (P : Projection → Prop) : Prop where
  linear {p q : Projection} {evidence : EventId → Option AdmissionEvidenceId}
    {event : AuthorizedEvent c} {epoch : Epoch} :
    P p → p.applyLinear evidence event = .ok (epoch, q) → P q
  resolution {p q : Projection} {resolution : ResolveFork} {event : AuthorizedEvent c} :
    P p → event.body.operation = .resolveFork resolution →
    p.applyResolution resolution event = .ok q → P q
  moved {p : Projection} (sequence : Sequence) (heads : List EventId) :
    P p → P { p with sequence := sequence, heads := heads }
  forked {p : Projection} : P p → P { p with lifecycle := .forked }

lemma ProjectionPreserved.preserved {P : Projection → Prop} (hP : ProjectionPreserved c P) :
    Preserved fun s : AccountState c => P s.projection where
  lineage _ _ _ hs := hs
  detached hs := hs
  linear hpre h := hP.linear hpre h
  resolution hbase hop h := hP.resolution hbase hop h
  opened {_ _ maximum heads} hcom _ := hP.forked (hP.moved maximum heads hcom)
  extended {_ _ _ maximum heads} hs _ := hP.moved maximum heads hs
  replayed _ hs _ := hs

variable {s s' pre post : AccountState c} {event : AuthorizedEvent c} {base : Projection}
  {evidence : EventId → Option AdmissionEvidenceId}

lemma projectResolution_ok {selected : ForkBranch c} {epoch : Epoch}
    {p : Projection} (h : pre.projectResolution event = .ok (fork, selected, epoch, p)) :
    ∃ resolution maximum time, event.body.operation = .resolveFork resolution ∧
      pre.fork = some fork ∧
      fork.branches.find? (fun branch => branch.eventId = some resolution.selectedHead) =
        some selected ∧
      maximumBranchEpoch fork.branches = some maximum ∧
      Epoch.checkedNext maximum = .ok epoch ∧
      validateEvent c pre.projection fork.commonState.projection event epoch = .ok time ∧
      selected.projectedState.projection.applyResolution resolution event = .ok p := by
  unfold projectResolution at h
  split at h
  · rename_i resolution hres
    simp only [bind_ok, okOr_ok, reject_ok, pure_ok] at h
    obtain ⟨fork', hfork, -, -, -, -, selected', hsel, maximum, hmax, epoch', hepoc,
      time, hval, p', hp, h⟩ := h
    obtain ⟨rfl, rfl, rfl, rfl⟩ : fork' = fork ∧ selected' = selected ∧ epoch' = epoch ∧
        p' = p := by simpa using h
    exact ⟨resolution, maximum, time, hres, hfork, hsel, hmax, hepoc, hval, hp⟩
  · cases h

namespace Preserved

section
variable (hP : Preserved P)
include hP

lemma all_detached (h : All P s) : All P s.detachedSnapshot :=
  all_of_children_nil (hP.detached (all_iff.mp h).1) rfl

lemma all_withoutLineage (h : All P s) : All P s.withoutLineage := by
  have hnil : ∀ entry ∈ ([] : List (LineageEntry c)), ∀ t ∈ entry.states, All P t := by simp
  exact all_withLineage h (hP.lineage _ _ _ (all_iff.mp h).1) hnil

lemma accepts (h : Accepts evidence pre event base entry post)
    (hpre : All P pre) : (∀ t ∈ entry.states, All P t) ∧ All P post := by
  cases h with
  | linear hproj =>
    refine ⟨?_, all_of_children_nil (hP.linear (all_iff.mp hpre).1 hproj) rfl⟩
    simpa [LineageEntry.states, linearEntry] using hP.all_detached hpre
  | resolution hproj =>
    obtain ⟨resolution, maximum, time, hop, hfork, hsel, -, -, -, hp⟩ :=
      projectResolution_ok hproj
    have hsel := mem_of_find?_eq_some hsel
    have hbase := (all_iff.mp (all_of_mem_branch hpre hfork hsel mem_cons_self)).1
    refine ⟨?_, all_of_children_nil (hP.resolution hbase hop hp) rfl⟩
    simpa [LineageEntry.states, resolutionEntry] using
      ⟨hP.all_withoutLineage hpre, hP.all_detached (all_common hpre hfork)⟩

lemma all_opened {conflict : LineageEntry c} (hs : All P s)
    (hcon : conflict ∈ s.lineage) (hent : ∀ t ∈ entry.states, All P t) (hpost : All P post)
    (h : Opens s event conflict entry post s') : All P s' := by
  have hpre : All P conflict.preState :=
    all_of_mem_lineage hs hcon mem_cons_self
  obtain ⟨hcom, hleft, hsor, hmax, -⟩ := h
  rename_i commonState ancestor left branches maximum heads
  have hall : All P commonState := by
    rcases hcom with rfl | ⟨original, horig, rfl⟩
    · exact hP.all_detached hpre
    · exact hP.all_detached (all_common hpre horig)
  refine all_of_fork (hP.opened (all_iff.mp hall).1 hmax) nofun rfl
    hall fun branch hbran t ht => ?_
  have hmem : branch = ⟨left, s.detachedSnapshot⟩ ∨ branch = ⟨[entry], post⟩ := by
    simpa using (sortForkBranches_ok hsor).mem_iff.mp hbran
  rcases hmem with rfl | rfl
  · rcases mem_cons.mp ht with rfl | ht
    · exact hP.all_detached hs
    · obtain ⟨index, -, rfl⟩ := Option.map_eq_some_iff.mp hleft
      obtain ⟨transition, htran, ht⟩ := mem_flatMap.mp ht
      exact all_of_mem_lineage hs (mem_of_mem_drop htran) ht
  · rcases mem_cons.mp ht with rfl | ht
    · exact hpost
    · exact hent t (by simpa using ht)

lemma all_extended {fork : ForkProjection c} {extended branches : List (ForkBranch c)}
    {maximum : Sequence} {heads : List EventId} (hs : All P s) (hfork : s.fork = some fork)
    (hext : Extends fork.branches event pre entry post extended)
    (hent : ∀ t ∈ entry.states, All P t) (hpost : All P post)
    (hsor : sortForkBranches extended = .ok branches)
    (hmax : maximumSequence branches = some maximum) :
    All P (s.withBranches fork branches maximum heads) := by
  have hcom := all_common hs hfork
  refine all_of_fork (hP.extended (all_iff.mp hs).1 hmax)
    (fun entry hent t ht => all_of_mem_lineage hs hent ht) rfl hcom ?_
  intro branch hbran t ht
  have hbran : branch ∈ extended := (sortForkBranches_ok hsor).mem_iff.mp hbran
  rcases hext.mem hbran with hold | ⟨before, rfl, parent, hpar, hbef⟩
  · exact all_of_mem_branch hs hfork hold ht
  · rcases mem_cons.mp ht with rfl | ht
    · exact hpost
    · obtain ⟨transition, htran, hstat⟩ := mem_flatMap.mp ht
      rcases mem_append.mp htran with hold | hnew
      · exact all_of_mem_branch hs hfork hpar
          (mem_states_of_transition (hbef.subset hold) hstat)
      · rw [mem_singleton.mp hnew] at hstat
        exact hent t hstat

end
end Preserved

/-! ## Along a history -/

lemma mem_of_findLineageConflict {conflict : LineageEntry c}
    (h : s.findLineageConflict event = some conflict) : conflict ∈ s.lineage :=
  mem_reverse.mp (mem_of_find?_eq_some h)

lemma pre_mem_of_extends {extended : List (ForkBranch c)} (hfork : s.fork = some fork)
    (h : Extends fork.branches event pre entry post extended) : pre ∈ s.children := by
  cases h with
  | parent hfoun hpar =>
    exact mem_children_of_branch hfork (mem_of_getElem? hpar) mem_cons_self
  | conflict horp hfoun =>
    obtain ⟨branch, hbran, hcon⟩ := exists_of_findSome?_eq_some hfoun
    obtain ⟨after, htrans, -⟩ := branchConflict_eq_some hcon
    refine mem_children_of_branch hfork hbran (mem_states_of_transition ?_ mem_cons_self)
    rw [htrans]
    exact mem_append_right _ mem_cons_self

lemma mem_of_retained {lineage evicted kept : List (LineageEntry c)}
    {transition : LineageEntry c} (h : lineage ++ [entry] = evicted ++ kept)
    (hmem : transition ∈ kept) : transition ∈ lineage ∨ transition = entry := by
  have hmem : transition ∈ lineage ++ [entry] := h ▸ mem_append_right _ hmem
  simpa using hmem

lemma Preserved.all_new (hP : Preserved P) (hs : All P s) (h : New s event s') : All P s' := by
  cases h with
  | linear hfork hfres hproj hret =>
    have hacc : Accepts s.lineageEvidence s event s.projection _ _ := .linear hproj
    obtain ⟨hent, hpost⟩ := hP.accepts hacc hs
    refine all_withLineage hpost (hP.lineage _ _ _ (all_iff.mp hpost).1)
      fun transition htran t ht => ?_
    rcases mem_of_retained hret htran with hold | rfl
    · exact all_of_mem_lineage hs hold ht
    · exact hent t ht
  | resolved hproj hret =>
    have hacc : Accepts s.lineageEvidence s event _ _ _ := .resolution hproj
    obtain ⟨hent, hpost⟩ := hP.accepts hacc hs
    refine all_withLineage hpost (hP.lineage _ _ _ (all_iff.mp hpost).1)
      fun transition htran t ht => ?_
    obtain rfl := mem_singleton.mp (hret ▸ mem_append_right _ htran)
    exact hent t ht
  | opened hfork hcon hacc hopen =>
    have hcon := mem_of_findLineageConflict hcon
    obtain ⟨hent, hpost⟩ :=
      hP.accepts hacc (all_of_mem_lineage hs hcon mem_cons_self)
    exact hP.all_opened hs hcon hent hpost hopen
  | extended hfork hacc hext hsor hmax hhead =>
    obtain ⟨hent, hpost⟩ :=
      hP.accepts hacc ((all_iff.mp hs).2 _ (pre_mem_of_extends hfork hext))
    exact hP.all_extended hs hfork hext hent hpost hsor hmax

lemma Preserved.all_replayed (hP : Preserved P) (hs : All P s) (h : Replayed s event s') :
    All P s' := by
  cases h with
  | unchanged => exact hs
  | lineage hent hmer hret =>
    refine all_withLineage hs (hP.lineage _ _ _ (all_iff.mp hs).1)
      fun transition htran t ht => ?_
    have hmem := hret ▸ mem_append_right _ htran
    rcases mem_or_eq_of_mem_set hmem with hold | rfl
    · exact all_of_mem_lineage hs hold ht
    · exact all_of_mem_lineage hs (mem_of_getElem? hent) ht
  | fork hfork hmer =>
    have hcom := all_common hs hfork
    refine all_of_fork (hP.replayed _ (all_iff.mp hs).1 hfork)
      (fun entry hent t ht => all_of_mem_lineage hs hent ht) rfl hcom
      fun branch hbran t ht => ?_
    obtain ⟨original, horig, rfl⟩ := mem_map.mp hbran
    rcases mem_cons.mp ht with rfl | ht
    · exact all_of_mem_branch hs hfork horig mem_cons_self
    · obtain ⟨transition, htran, ht⟩ := mem_flatMap.mp ht
      obtain ⟨retained, hret, rfl⟩ := mem_map.mp htran
      refine all_of_mem_branch hs hfork horig (mem_states_of_transition hret ?_)
      split at ht
      · exact ht
      · exact ht

/-- What holds at genesis and is preserved by every event holds of everything that
is retained in any state that deliveries lead to. -/
lemma Preserved.all_of_reachable (hP : Preserved P) {genesis : AccountGenesis c}
    (h0 : P (fromGenesis genesis)) (h : Reachable genesis s) : All P s := by
  induction h with
  | fromGenesis => exact all_of_children_nil h0 rfl
  | deliver event _ ih =>
    unfold deliver
    split
    · rename_i next outcome hok
      rcases validateAndApply_ok hok with hrep | hnew
      · exact hP.all_replayed ih hrep
      · exact hP.all_new ih hnew
    · exact ih

/-! ## Where a new event lands -/

/-- The projection that an event acts on at its pre-state: the pre-state itself or, for a
resolution, the branch that it selects. -/
inductive ActsOn (event : AuthorizedEvent c) (pre : AccountState c) : Projection → Prop where
  | linear (linear : event.body.operation.isResolveFork = false) : ActsOn event pre pre.projection
  | resolution {resolution : ResolveFork} {fork : ForkProjection c} {branch : ForkBranch c}
      (resolves : event.body.operation = .resolveFork resolution) (forked : pre.fork = some fork)
      (selects : fork.branches.find? (fun branch => branch.eventId = some resolution.selectedHead)
        = some branch) : ActsOn event pre branch.projectedState.projection

def Produced (event : AuthorizedEvent c) (s' : AccountState c) (product : Projection) : Prop :=
  product.heads = [event.eventId] ∧ (s'.projection = product ∨
    ∃ fork, s'.fork = some fork ∧ ∃ branch ∈ fork.branches,
      branch.eventId = some event.eventId ∧ branch.projectedState.projection = product)

section
variable (h : Accepts evidence pre event base entry post)
include h

lemma Accepts.event_eq : entry.event = event := by
  cases h with
  | linear | resolution => rfl

lemma Accepts.actsOn : ActsOn event pre base := by
  cases h with
  | linear hproj =>
    obtain ⟨-, -, time, next, -, hnext, -⟩ := Projection.applyLinear_ok hproj
    refine .linear ?_
    cases hop : event.body.operation with
    | resolveFork resolution => simp [Projection.applyOperation, hop] at hnext
    | _ => rfl
  | resolution hproj =>
    obtain ⟨resolution, _, _, hresol, hfork, hsel, -⟩ := projectResolution_ok hproj
    exact .resolution hresol hfork hsel

lemma Accepts.named : pre.projection.NamedBy event.body := by
  cases h with
  | linear hproj =>
    obtain ⟨-, -, time, next, hval, -, -⟩ := Projection.applyLinear_ok hproj
    exact (validateEvent_ok hval).1
  | resolution hproj =>
    obtain ⟨_, _, _, -, -, -, -, -, hval, -⟩ := projectResolution_ok hproj
    exact (validateEvent_ok hval).1

lemma Accepts.heads : post.projection.heads = [event.eventId] := by
  cases h with
  | linear hproj =>
    obtain ⟨-, -, time, next, -, -, rfl⟩ := Projection.applyLinear_ok hproj
    rfl
  | resolution hproj =>
    obtain ⟨_, _, _, -, -, -, -, -, -, hp⟩ := projectResolution_ok hproj
    simp only [Projection.applyResolution, bind_ok, reject_ok, pure_ok] at hp
    obtain ⟨_, -, _, -, -, -, -, -, rfl⟩ := hp
    rfl

end

lemma ForkBranch.eventId_append {before : List (LineageEntry c)} {post : AccountState c} :
    ForkBranch.eventId ⟨before ++ [entry], post⟩ = some entry.event.eventId := by
  simp [ForkBranch.eventId]

lemma New.lands (h : New s event s') : ∃ evidence pre base entry post, Retained s pre ∧
      Accepts evidence pre event base entry post ∧ Produced event s' post.projection := by
  cases h with
  | linear hfork hfres hproj hret =>
    have hacc : Accepts s.lineageEvidence s event s.projection _ _ := .linear hproj
    exact ⟨_, s, _, _, _, .refl s, hacc, hacc.heads, .inl rfl⟩
  | resolved hproj hret =>
    have hacc : Accepts s.lineageEvidence s event _ _ _ := .resolution hproj
    exact ⟨_, s, _, _, _, .refl s, hacc, hacc.heads, .inl rfl⟩
  | opened hfork hcon hacc hopen =>
    rename_i conflict entry base post
    have hpre : conflict.preState ∈ s.children :=
      mem_children_of_lineage (mem_of_findLineageConflict hcon) mem_cons_self
    refine ⟨_, _, base, entry, post, .child hpre (.refl _), hacc, hacc.heads, .inr ?_⟩
    obtain ⟨-, -, hsor, -, -⟩ := hopen
    refine ⟨_, rfl, ⟨[] ++ [entry], post⟩, (sortForkBranches_ok hsor).mem_iff.mpr (by simp), ?_,
      rfl⟩
    rw [ForkBranch.eventId_append, hacc.event_eq]
  | extended hfork hacc hext hsor hmax hhead =>
    rename_i pre post base entry extended branches maximum heads
    have hpre := pre_mem_of_extends hfork hext
    refine ⟨_, _, base, entry, post, .child hpre (.refl _), hacc, hacc.heads, .inr ?_⟩
    obtain ⟨before, hmem⟩ : ∃ before, (⟨before ++ [entry], post⟩ : ForkBranch c) ∈ extended := by
      cases hext with
      | parent hfoun hpar =>
        obtain ⟨hlt, -⟩ := List.getElem?_eq_some_iff.mp hpar
        exact ⟨_, mem_set hlt _⟩
      | conflict horp hfoun => exact ⟨_, mem_append_right _ mem_cons_self⟩
    refine ⟨_, rfl, _, (sortForkBranches_ok hsor).mem_iff.mpr hmem, ?_, rfl⟩
    rw [ForkBranch.eventId_append, hacc.event_eq]

end AccountState
end Krikos.Identity
