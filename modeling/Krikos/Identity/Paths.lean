import Krikos.Identity.Apply

/-!
# Identity.Paths

The ways in which a delivery is accepted. `Accepts` says what one event does at the retained state
that its predecessors name, `New` says where the result goes (the end of the lineage, a new fork, a
branch of an open fork) and `Replayed` covers the events that are already retained. Later modules
argue from these relations only.
-/

namespace Krikos.Identity

open Lib List

variable {c : Primitives} {entry : LineageEntry c}

/-! ## Retention of lineage entries -/

/-- The sequence through which historical state is required, once entries have been evicted. -/
def evictedThrough (through : Option Sequence) (evicted : List (LineageEntry c)) :
    Option Sequence :=
  evicted.foldl (fun _ entry => some entry.event.body.sequence) through

lemma evictedThrough_append (through : Option Sequence) (left right : List (LineageEntry c)) :
    evictedThrough through (left ++ right) = evictedThrough (evictedThrough through left) right :=
  foldl_append

lemma lineageFull_ok {length lineageBytes entryBytes : Nat} {full : Bool}
    (h : lineageFull length lineageBytes entryBytes = .ok full)
    (hent : entryBytes > MAX_HISTORY_PAGE_BYTES) : full = true := by
  unfold lineageFull at h
  split at h
  · exact (Except.ok.inj h).symm
  · obtain ⟨total, htot, h⟩ := bind_ok.mp h
    obtain rfl := pure_ok.mp h
    rw [checkedAdd_ok htot]
    simp only [gt_iff_lt, decide_eq_true_eq] at hent ⊢
    omega

section
variable {lineage lineage' rest : List (LineageEntry c)} {bytes bytes' entryBytes : Nat}
  {through through' : Option Sequence}

lemma evict_ok (h : evict entryBytes lineage bytes through = .ok (lineage', bytes', through')) :
    (∃ evicted, lineage = evicted ++ lineage' ∧ through' = evictedThrough through evicted) ∧
      (entryBytes > MAX_HISTORY_PAGE_BYTES → lineage' = []) := by
  induction lineage generalizing bytes through with
  | nil =>
    obtain ⟨rfl, rfl, rfl⟩ : [] = lineage' ∧ bytes = bytes' ∧ through = through' := by
      simpa [evict] using h
    exact ⟨⟨[], rfl, rfl⟩, fun _ => rfl⟩
  | cons removed lineage ih =>
    simp only [evict] at h
    obtain ⟨full, hfull, h⟩ := bind_ok.mp h
    split at h
    · simp only [bind_ok, reject_ok] at h
      obtain ⟨removedBytes, -, -, -, h⟩ := h
      obtain ⟨⟨evicted, rfl, rfl⟩, hnil⟩ := ih h
      exact ⟨⟨removed :: evicted, rfl, rfl⟩, hnil⟩
    · rename_i hkeep
      obtain ⟨rfl, rfl, rfl⟩ : removed :: lineage = lineage' ∧ bytes = bytes' ∧
          through = through' := by simpa using pure_ok.mp h
      exact ⟨⟨[], rfl, rfl⟩, fun hent => absurd (lineageFull_ok hfull hent) hkeep⟩

lemma retainEntry_ok
    (h : retainEntry lineage bytes through entry = .ok (lineage', bytes', through')) :
    ∃ evicted, lineage ++ [entry] = evicted ++ lineage' ∧
      through' = evictedThrough through evicted := by
  simp only [retainEntry, bind_ok] at h
  obtain ⟨entryBytes, -, ⟨kept, keptBytes, keptThrough⟩, hevic, h⟩ := h
  obtain ⟨⟨evicted, rfl, rfl⟩, hnil⟩ := evict_ok hevic
  split at h
  · rename_i hent
    obtain ⟨rfl, -, rfl⟩ : kept = lineage' ∧ keptBytes = bytes' ∧
        some entry.event.body.sequence = through' := by simpa using pure_ok.mp h
    obtain rfl := hnil hent
    exact ⟨evicted ++ [entry], by simp, by simp [evictedThrough]⟩
  · obtain ⟨total, -, h⟩ := bind_ok.mp h
    obtain ⟨rfl, -, rfl⟩ : kept ++ [entry] = lineage' ∧ total = bytes' ∧
        evictedThrough through evicted = through' := by simpa using pure_ok.mp h
    exact ⟨evicted, by simp, rfl⟩

lemma retainEntries_ok
    (h : retainEntries lineage bytes through rest = .ok (lineage', bytes', through')) :
    ∃ evicted, lineage ++ rest = evicted ++ lineage' ∧
      through' = evictedThrough through evicted := by
  induction rest generalizing lineage bytes through with
  | nil =>
    obtain ⟨rfl, -, rfl⟩ : lineage = lineage' ∧ bytes = bytes' ∧ through = through' := by
      simpa [retainEntries] using h
    exact ⟨[], by simp, rfl⟩
  | cons entry rest ih =>
    simp only [retainEntries, bind_ok] at h
    obtain ⟨⟨middle, middleBytes, middleThrough⟩, hent, h⟩ := h
    obtain ⟨first, hfir, rfl⟩ := retainEntry_ok hent
    obtain ⟨second, hsec, rfl⟩ := ih h
    refine ⟨first ++ second, ?_, (evictedThrough_append through first second).symm⟩
    calc lineage ++ entry :: rest = lineage ++ [entry] ++ rest := by simp
      _ = first ++ (middle ++ rest) := by rw [hfir, append_assoc]
      _ = first ++ second ++ lineage' := by rw [hsec, append_assoc]

end

namespace AccountState
variable {s s' pre post : AccountState c} {event : AuthorizedEvent c} {commonState : AccountState c}

lemma retainLineageEntry_ok (h : s.retainLineageEntry entry = .ok s') :
    ∃ evicted lineage bytes, s.lineage ++ [entry] = evicted ++ lineage ∧
      s' = s.withLineage lineage bytes
        (evictedThrough s.historicalStateRequiredThrough evicted) := by
  simp only [retainLineageEntry, bind_ok, pure_ok] at h
  obtain ⟨⟨lineage, bytes, through⟩, hretain, rfl⟩ := h
  obtain ⟨evicted, heq, rfl⟩ := retainEntry_ok hretain
  exact ⟨evicted, lineage, bytes, heq, rfl⟩

lemma normalizeLineageBound_ok (h : s.normalizeLineageBound = .ok s') :
    ∃ evicted lineage bytes, s.lineage = evicted ++ lineage ∧ s' = s.withLineage lineage bytes
        (evictedThrough s.historicalStateRequiredThrough evicted) := by
  simp only [normalizeLineageBound, bind_ok, pure_ok] at h
  obtain ⟨⟨lineage, bytes, through⟩, hretain, rfl⟩ := h
  obtain ⟨evicted, heq, rfl⟩ := retainEntries_ok hretain
  exact ⟨evicted, lineage, bytes, by simpa using heq, rfl⟩

/-! ## One event at its pre-state -/

/-- The state that an event is retained with, and the state after it, on a linear history. -/
def linearEntry (pre : AccountState c) (epoch : Epoch) (event : AuthorizedEvent c) :
    LineageEntry c :=
  ⟨pre.detachedSnapshot, none, epoch, event⟩

def afterLinear (pre : AccountState c) (p : Projection) : AccountState c :=
  { pre.detachedSnapshot with projection := p }

/-- The same for an event that resolves the fork of the pre-state. -/
def resolutionEntry (pre : AccountState c) (fork : ForkProjection c) (epoch : Epoch)
    (event : AuthorizedEvent c) : LineageEntry c :=
  ⟨pre.withoutLineage, some fork.commonState.detachedSnapshot, epoch, event⟩

def afterResolution (selected : ForkBranch c) (p : Projection) : AccountState c :=
  { selected.projectedState.detachedSnapshot with projection := p }

/-- The event is accepted at a pre-state. `base` is the projection that it changes: the pre-state
itself or, for a resolution, the selected branch. `entry` is what is retained of it, with the state
that judged it, and `post` is the state that it leads to. -/
inductive Accepts (evidence : EventId → Option AdmissionEvidenceId) (pre : AccountState c)
    (event : AuthorizedEvent c) : Projection → LineageEntry c → AccountState c → Prop where
  | linear {epoch : Epoch} {p : Projection}
      (project : pre.projection.applyLinear evidence event = .ok (epoch, p)) :
      Accepts evidence pre event pre.projection (pre.linearEntry epoch event) (pre.afterLinear p)
  | resolution {fork : ForkProjection c} {selected : ForkBranch c} {epoch : Epoch}
      {p : Projection}
      (project : pre.projectResolution event = .ok (fork, selected, epoch, p)) :
      Accepts evidence pre event selected.projectedState.projection
        (pre.resolutionEntry fork epoch event) (afterResolution selected p)

lemma applyNewLinear_ok (h : s.applyNewLinear event = .ok s') : ∃ epoch p evicted lineage bytes,
      s.projection.applyLinear s.lineageEvidence event = .ok (epoch, p) ∧
      s.lineage ++ [s.linearEntry epoch event] = evicted ++ lineage ∧
      s' = (s.afterLinear p).withLineage lineage bytes
        (evictedThrough s.historicalStateRequiredThrough evicted) := by
  simp only [applyNewLinear, bind_ok, pure_ok] at h
  obtain ⟨⟨epoch, p⟩, hproj, next, hretain, rfl⟩ := h
  obtain ⟨evicted, lineage, bytes, heq, rfl⟩ := retainLineageEntry_ok hretain
  exact ⟨epoch, p, evicted, lineage, bytes, hproj, heq, rfl⟩

lemma applyForkResolution_ok (h : s.applyForkResolution event = .ok s') :
    ∃ fork selected epoch p evicted lineage bytes,
      s.projectResolution event = .ok (fork, selected, epoch, p) ∧
      [s.resolutionEntry fork epoch event] = evicted ++ lineage ∧
      s' = (afterResolution selected p).withLineage lineage bytes
        (evictedThrough selected.projectedState.historicalStateRequiredThrough evicted) := by
  simp only [applyForkResolution, bind_ok, pure_ok] at h
  obtain ⟨⟨fork, selected, epoch, p⟩, hproj, next, hretain, rfl⟩ := h
  obtain ⟨evicted, lineage, bytes, heq, rfl⟩ := retainLineageEntry_ok hretain
  exact ⟨fork, selected, epoch, p, evicted, lineage, bytes, hproj, heq, rfl⟩

lemma retained_last {evicted lineage : List (LineageEntry c)} {transition : LineageEntry c}
    (h : [entry] = evicted ++ lineage) (hlast : lineage.getLast? = some transition) :
    transition = entry ∧ evicted = [] := by
  cases evicted with
  | nil =>
    obtain rfl : [entry] = lineage := h
    exact ⟨(Option.some.inj hlast).symm, rfl⟩
  | cons first evicted =>
    obtain ⟨-, hnil⟩ := cons.inj h
    obtain ⟨-, rfl⟩ := append_eq_nil_iff.mp hnil.symm
    cases hlast

lemma accepts_of_linear (h : pre.detachedSnapshot.applyNewLinear event = .ok s')
    (hlast : s'.lineage.getLast? = some entry) :
    Accepts (fun _ => none) pre event pre.projection entry s'.detachedSnapshot := by
  obtain ⟨epoch, p, evicted, lineage, bytes, hproj, hret, rfl⟩ := applyNewLinear_ok h
  obtain ⟨rfl, rfl⟩ := retained_last hret hlast
  exact .linear hproj

lemma accepts_of_resolution (evidence : EventId → Option AdmissionEvidenceId)
    (h : pre.applyForkResolution event = .ok s') (hlast : s'.lineage.getLast? = some entry) :
    ∃ base, Accepts evidence pre event base entry s'.detachedSnapshot := by
  obtain ⟨fork, selected, epoch, p, evicted, lineage, bytes, hproj, hret, rfl⟩ :=
    applyForkResolution_ok h
  obtain ⟨rfl, rfl⟩ := retained_last hret hlast
  exact ⟨_, .resolution hproj⟩

lemma applyForkResolution_withoutLineage :
    pre.withoutLineage.applyForkResolution event = pre.applyForkResolution event := rfl

lemma projectTransition_ok (h : pre.projectTransition event = .ok (entry, post)) :
    ∃ base, Accepts (fun _ => none) pre event base entry post := by
  simp only [projectTransition, bind_ok, okOr_ok, pure_ok] at h
  obtain ⟨projected, hprojec, transition, hlast, h⟩ := h
  obtain ⟨rfl, rfl⟩ : transition = entry ∧ projected.detachedSnapshot = post := by simpa using h
  unfold projectedAfter at hprojec
  split at hprojec
  · rw [applyForkResolution_withoutLineage] at hprojec
    exact accepts_of_resolution (fun _ => none) hprojec hlast
  · exact ⟨_, accepts_of_linear hprojec hlast⟩

/-! ## Forks -/

lemma sortForkBranches_ok {branches sorted : List (ForkBranch c)}
    (h : sortForkBranches branches = .ok sorted) : sorted.Perm branches := by
  simp only [sortForkBranches, bind_ok, pure_ok] at h
  obtain ⟨identified, hiden, rfl⟩ := h
  have hsnd : identified.map Prod.snd = branches := by
    refine forall₂_eq_eq_eq ▸ forall₂_map_left_iff.mpr ?_
    refine (mapM_ok hiden).flip.imp fun pair branch hpair => ?_
    simp only [bind_ok, pure_ok] at hpair
    obtain ⟨eventId, -, rfl⟩ := hpair
    rfl
  exact hsnd ▸ (perm_sortByKey.map Prod.snd)

def forkedState (commonState : AccountState c) (fork : ForkProjection c) (sequence : Sequence)
    (heads : List EventId) : AccountState c :=
  { commonState.detachedSnapshot with
    projection := { commonState.projection with
      sequence := sequence
      heads := heads
      lifecycle := .forked }
    fork := some fork }

lemma forked_ok {ancestor : ForkCommonAncestor}
    {sequence : Sequence} {predecessors : EventPredecessors} {branches : List (ForkBranch c)}
    (h : forked commonState ancestor sequence predecessors branches = .ok s') :
    ∃ maximum heads, maximumSequence branches = some maximum ∧ forkHeadIds branches = .ok heads ∧
      s' = commonState.forkedState ⟨commonState, ancestor, sequence, predecessors, branches⟩
        maximum heads := by
  simp only [forked, bind_ok, okOr_ok, pure_ok] at h
  obtain ⟨maximum, hmax, heads, hhead, rfl⟩ := h
  exact ⟨maximum, heads, hmax, hhead, rfl⟩

/-- A fork that opens over a common state: the retained lineage from the conflict on against the
incoming event. -/
inductive Opens (s : AccountState c) (event : AuthorizedEvent c) (conflict entry : LineageEntry c)
    (post : AccountState c) : AccountState c → Prop where
  | mk {commonState : AccountState c} {ancestor : ForkCommonAncestor}
      {left : List (LineageEntry c)} {branches : List (ForkBranch c)} {maximum : Sequence}
      {heads : List EventId}
      (common : commonState = conflict.preState.detachedSnapshot ∨
        ∃ original, conflict.preState.fork = some original ∧
          commonState = original.commonState.detachedSnapshot)
      (leftFrom : s.lineageFrom conflict.event.eventId = some left)
      (sorted : sortForkBranches [⟨left, s.detachedSnapshot⟩, ⟨[entry], post⟩] = .ok branches)
      (sequence : maximumSequence branches = some maximum)
      (tips : forkHeadIds branches = .ok heads) :
      Opens s event conflict entry post
        (commonState.forkedState
          ⟨commonState, ancestor, event.body.sequence, event.body.predecessors, branches⟩
          maximum heads)

lemma forkOff_ok {rightState : AccountState c}
    {ancestor : Except IdentityError ForkCommonAncestor} {left : List (LineageEntry c)}
    (h : s.forkOff event commonState ancestor left rightState = .ok s') :
    ∃ ancestor entry branches maximum heads, rightState.lineage.getLast? = some entry ∧
      sortForkBranches [⟨left, s.detachedSnapshot⟩, ⟨[entry], rightState.detachedSnapshot⟩] =
        .ok branches ∧
      maximumSequence branches = some maximum ∧ forkHeadIds branches = .ok heads ∧
      s' = commonState.forkedState
        ⟨commonState, ancestor, event.body.sequence, event.body.predecessors, branches⟩
        maximum heads := by
  simp only [forkOff, bind_ok, okOr_ok] at h
  obtain ⟨entry, hlast, branches, hsor, -, -, ancestor, -, h⟩ := h
  obtain ⟨maximum, heads, hmax, hhead, rfl⟩ := forked_ok h
  exact ⟨ancestor, entry, branches, maximum, heads, hlast, hsor, hmax, hhead, rfl⟩

lemma openFork_ok {conflict : LineageEntry c} (h : s.openFork event conflict = .ok s') :
    ∃ base entry post, Accepts (fun _ => none) conflict.preState event base entry post ∧
      Opens s event conflict entry post s' := by
  unfold openFork at h
  split at h
  · simp only [openResolutionFork, bind_ok, okOr_ok] at h
    obtain ⟨original, horig, left, hleft, rightState, hrig, h⟩ := h
    obtain ⟨ancestor, entry, branches, maximum, heads, hlast, hsor, hmax, hhead, rfl⟩ :=
      forkOff_ok h
    obtain ⟨base, hacc⟩ := accepts_of_resolution (fun _ => none) hrig hlast
    exact ⟨base, entry, _, hacc, .mk (.inr ⟨original, horig, rfl⟩) hleft hsor hmax hhead⟩
  · simp only [bind_ok, okOr_ok] at h
    obtain ⟨-, -, -, -, left, hleft, rightState, hrig, h⟩ := h
    obtain ⟨ancestor, entry, branches, maximum, heads, hlast, hsor, hmax, hhead, rfl⟩ :=
      forkOff_ok h
    exact ⟨_, entry, _, accepts_of_linear hrig hlast, .mk (.inl rfl) hleft hsor hmax hhead⟩

/-- The branches of an open fork with one more event. -/
inductive Extends (branches : List (ForkBranch c)) (event : AuthorizedEvent c) :
    AccountState c → LineageEntry c → AccountState c → List (ForkBranch c) → Prop where
  | parent {index : Nat} {parent : ForkBranch c} {entry : LineageEntry c} {post : AccountState c}
      (found : branches.findIdx? (continues event) = some index)
      (position : branches[index]? = some parent) :
      Extends branches event parent.projectedState entry post
        (branches.set index ⟨parent.transitions ++ [entry], post⟩)
  | conflict {before : List (LineageEntry c)} {conflicting entry : LineageEntry c}
      {post : AccountState c}
      (orphan : branches.findIdx? (continues event) = none)
      (found : branches.findSome? (branchConflict event) = some (before, conflicting)) :
      Extends branches event conflicting.preState entry post
        (branches ++ [⟨before ++ [entry], post⟩])

lemma branchConflict_eq_some {branch : ForkBranch c} {before : List (LineageEntry c)}
    {conflicting : LineageEntry c} (h : branchConflict event branch = some (before, conflicting)) :
    ∃ after, branch.transitions = before ++ conflicting :: after ∧
      conflicting.event.sameSlot event = true := by
  simp only [branchConflict, Option.bind_eq_bind, Option.bind_eq_some_iff, Option.pure_def,
    Option.some.injEq, Prod.mk.injEq] at h
  obtain ⟨index, hind, transition, htran, rfl, rfl⟩ := h
  obtain ⟨hlt, hslot, -⟩ := findIdx?_eq_some_iff_getElem.mp hind
  obtain ⟨-, rfl⟩ := List.getElem?_eq_some_iff.mp htran
  refine ⟨branch.transitions.drop (index + 1), ?_, hslot⟩
  rw [← List.drop_eq_getElem_cons hlt, List.take_append_drop]

variable {branches extended : List (ForkBranch c)}

lemma Extends.mem {branch : ForkBranch c} (h : Extends branches event pre entry post extended)
    (hmem : branch ∈ extended) : branch ∈ branches ∨ ∃ before, branch = ⟨before ++ [entry], post⟩ ∧
      ∃ parent ∈ branches, before <+: parent.transitions := by
  cases h with
  | parent hfoun hpar =>
    rcases mem_or_eq_of_mem_set hmem with hold | rfl
    · exact .inl hold
    · exact .inr ⟨_, rfl, _, mem_of_getElem? hpar, prefix_rfl⟩
  | conflict horp hfoun =>
    rcases mem_append.mp hmem with hold | hnew
    · exact .inl hold
    · obtain rfl := mem_singleton.mp hnew
      obtain ⟨parent, hpar, hcon⟩ := exists_of_findSome?_eq_some hfoun
      obtain ⟨after, htrans, -⟩ := branchConflict_eq_some hcon
      exact .inr ⟨_, rfl, parent, hpar, htrans ▸ prefix_append _ _⟩

lemma extendBranches_ok (h : extendBranches branches event = .ok extended) :
    ∃ pre base entry post, Accepts (fun _ => none) pre event base entry post ∧
      Extends branches event pre entry post extended := by
  unfold extendBranches at h
  split at h
  · rename_i index hind
    simp only [bind_ok, okOr_ok, pure_ok] at h
    obtain ⟨parent, hpar, ⟨entry, post⟩, hproj, rfl⟩ := h
    obtain ⟨base, hacc⟩ := projectTransition_ok hproj
    exact ⟨_, base, entry, post, hacc, .parent hind hpar⟩
  · rename_i hind
    simp only [bind_ok, okOr_ok, reject_ok, pure_ok] at h
    obtain ⟨⟨before, conflicting⟩, hcon, -, -, ⟨entry, post⟩, hproj, rfl⟩ := h
    obtain ⟨base, hacc⟩ := projectTransition_ok hproj
    exact ⟨_, base, entry, post, hacc, .conflict hind hcon⟩

def withBranches (s : AccountState c) (fork : ForkProjection c) (branches : List (ForkBranch c))
    (sequence : Sequence) (heads : List EventId) : AccountState c :=
  { s with
    projection := { s.projection with sequence := sequence, heads := heads }
    fork := some { fork with branches := branches } }

/-! ## New events -/

/-- Where a new event takes the state, by the way it is accepted. -/
inductive New (s : AccountState c) (event : AuthorizedEvent c) : AccountState c → Prop where
  | linear {epoch : Epoch} {p : Projection} {evicted lineage : List (LineageEntry c)} {bytes : Nat}
      (unforked : s.fork = none) (fresh : s.findLineageConflict event = none)
      (project : s.projection.applyLinear s.lineageEvidence event = .ok (epoch, p))
      (retained : s.lineage ++ [s.linearEntry epoch event] = evicted ++ lineage) :
      New s event ((s.afterLinear p).withLineage lineage bytes
        (evictedThrough s.historicalStateRequiredThrough evicted))
  | resolved {fork : ForkProjection c} {selected : ForkBranch c} {epoch : Epoch} {p : Projection}
      {evicted lineage : List (LineageEntry c)} {bytes : Nat}
      (project : s.projectResolution event = .ok (fork, selected, epoch, p))
      (retained : [s.resolutionEntry fork epoch event] = evicted ++ lineage) :
      New s event ((afterResolution selected p).withLineage lineage bytes
        (evictedThrough selected.projectedState.historicalStateRequiredThrough evicted))
  | opened {conflict entry : LineageEntry c} {base : Projection} {post s' : AccountState c}
      (unforked : s.fork = none) (found : s.findLineageConflict event = some conflict)
      (accepts : Accepts (fun _ => none) conflict.preState event base entry post)
      (opens : Opens s event conflict entry post s') : New s event s'
  | extended {fork : ForkProjection c} {pre post : AccountState c} {base : Projection}
      {entry : LineageEntry c} {extended branches : List (ForkBranch c)} {maximum : Sequence}
      {heads : List EventId} (forked : s.fork = some fork)
      (accepts : Accepts (fun _ => none) pre event base entry post)
      (grows : Extends fork.branches event pre entry post extended)
      (sorted : sortForkBranches extended = .ok branches)
      (sequence : maximumSequence branches = some maximum)
      (tips : forkHeadIds branches = .ok heads) :
      New s event (s.withBranches fork branches maximum heads)

lemma extendFork_ok (h : s.extendFork event = .ok s') : New s event s' ∧ s'.fork ≠ none := by
  simp only [extendFork, bind_ok, okOr_ok, reject_ok, pure_ok] at h
  obtain ⟨fork, hfork, -, -, extended, hext, branches, hsor, -, -, maximum, hmax,
    heads, hhead, rfl⟩ := h
  obtain ⟨pre, base, entry, post, hacc, hexten⟩ := extendBranches_ok hext
  exact ⟨.extended hfork hacc hexten hsor hmax hhead, Option.some_ne_none _⟩

variable {outcome : ApplyOutcome}

/-- A new event is never answered like a replay, and a new epoch is announced. -/
lemma applyNew_ok (h : s.applyNew event = .ok (s', outcome)) : New s event s' ∧
    (outcome.disposition = .applied ∨ outcome.disposition = .forkDetected) ∧ (s'.fork = none →
      outcome = applied event s' true ∨
        outcome = applied event s' (operationChangesEpoch event.body.operation)) := by
  unfold applyNew at h
  split at h
  · unfold applyWhileForked at h
    split at h
    · simp only [bind_ok, pure_ok, Prod.mk.injEq] at h
      obtain ⟨resolved, hres, rfl, rfl⟩ := h
      obtain ⟨fork, selected, epoch, p, evicted, lineage, bytes, hproj, hret, rfl⟩ :=
        applyForkResolution_ok hres
      exact ⟨.resolved hproj hret, .inl rfl, fun _ => .inl rfl⟩
    · simp only [bind_ok, pure_ok, Prod.mk.injEq] at h
      obtain ⟨extended, hext, rfl, rfl⟩ := h
      obtain ⟨hnew, hfork⟩ := extendFork_ok hext
      exact ⟨hnew, .inr rfl, fun hnone => absurd hnone hfork⟩
  · rename_i hfork
    have hfork : s.fork = none := by simpa using hfork
    split at h
    · rename_i conflict hcon
      simp only [bind_ok, pure_ok, Prod.mk.injEq] at h
      obtain ⟨opened, hopen, rfl, rfl⟩ := h
      obtain ⟨base, entry, post, hacc, hopens⟩ := openFork_ok hopen
      refine ⟨.opened hfork hcon hacc hopens, .inr rfl, fun hnone => ?_⟩
      cases hopens
      cases hnone
    · rename_i hcon
      simp only [bind_ok, reject_ok, pure_ok, Prod.mk.injEq] at h
      obtain ⟨-, -, next, hnext, rfl, rfl⟩ := h
      obtain ⟨epoch, p, evicted, lineage, bytes, hproj, hret, rfl⟩ :=
        applyNewLinear_ok hnext
      exact ⟨.linear hfork hcon hproj hret, .inl rfl, fun _ => .inr rfl⟩

/-! ## Replays -/

/-- Where a replay takes the state: at most the envelope of the event changes. -/
inductive Replayed (s : AccountState c) (event : AuthorizedEvent c) : AccountState c → Prop where
  | unchanged : Replayed s event s
  | lineage {index : Nat} {entry : LineageEntry c} {merged : AuthorizedEvent c}
      {evicted lineage : List (LineageEntry c)} {bytes : Nat}
      (position : s.lineage[index]? = some entry)
      (merge : mergeEventEvidence entry.event event = .ok merged)
      (retained : s.lineage.set index { entry with event := merged } = evicted ++ lineage) :
      Replayed s event (s.withLineage lineage bytes
        (evictedThrough s.historicalStateRequiredThrough evicted))
  | fork {fork : ForkProjection c} {merged : AuthorizedEvent c} (forked : s.fork = some fork)
      (merge : mergeTransitions event event (fork.transitionsOf event.eventId) = .ok merged) :
      Replayed s event
        { s with fork := some { fork with branches := fork.branches.map (replaceEvent merged) } }

lemma replayLineage_ok {index : Nat} (h : s.replayLineage event index entry = .ok (s', outcome))
    (hent : s.lineage[index]? = some entry) : Replayed s event s' := by
  simp only [replayLineage, bind_ok] at h
  obtain ⟨-, -, merged, hmer, h⟩ := h
  split at h
  · obtain ⟨next, hnext, h⟩ := bind_ok.mp h
    obtain ⟨rfl, -⟩ : next = s' ∧ _ := by simpa using pure_ok.mp h
    obtain ⟨evicted, lineage, bytes, hret, rfl⟩ := normalizeLineageBound_ok hnext
    exact .lineage hent hmer hret
  · obtain ⟨rfl, -⟩ : s = s' ∧ _ := by simpa using pure_ok.mp h
    exact .unchanged

lemma replayFork_ok {fork : ForkProjection c}
    (h : s.replayFork event fork (fork.transitionsOf event.eventId) = .ok (s', outcome))
    (hfork : s.fork = some fork) : Replayed s event s' := by
  simp only [replayFork, bind_ok] at h
  obtain ⟨merged, hmer, h⟩ := h
  split at h
  · obtain ⟨-, -, h⟩ := bind_ok.mp h
    obtain ⟨rfl, -⟩ : _ = s' ∧ _ := by simpa using pure_ok.mp h
    exact .fork hfork hmer
  · obtain ⟨rfl, -⟩ : s = s' ∧ _ := by simpa using pure_ok.mp h
    exact .unchanged

lemma tryReplay_cases (h : s.tryReplay event = .ok (some (s', outcome))) : (∃ index entry,
      (s.lineage.findIdx? fun entry => entry.event.eventId = event.eventId) = some index ∧
      s.lineage[index]? = some entry ∧ s.replayLineage event index entry = .ok (s', outcome)) ∨
    ∃ fork transition rest,
      (s.lineage.findIdx? fun entry => entry.event.eventId = event.eventId) = none ∧
      s.fork = some fork ∧ fork.transitionsOf event.eventId = transition :: rest ∧
      s.replayFork event fork (fork.transitionsOf event.eventId) = .ok (s', outcome) := by
  unfold tryReplay at h
  split at h
  · rename_i index hind
    simp only [bind_ok, okOr_ok, pure_ok, Option.some.injEq] at h
    obtain ⟨entry, hent, _, hrep, rfl⟩ := h
    exact .inl ⟨index, entry, hind, hent, hrep⟩
  · rename_i hnone
    split at h
    · simp [pure, Except.pure] at h
    · rename_i fork hfork
      split at h
      · simp [pure, Except.pure] at h
      · rename_i transition rest hrest
        simp only [bind_ok, pure_ok, Option.some.injEq] at h
        obtain ⟨_, hrep, rfl⟩ := h
        exact .inr ⟨fork, transition, rest, hnone, hfork, hrest, hrest ▸ hrep⟩

lemma tryReplay_ok (h : s.tryReplay event = .ok (some (s', outcome))) : Replayed s event s' := by
  rcases tryReplay_cases h with ⟨_, _, -, hent, hrep⟩ | ⟨_, _, _, -, hfork, -, hrep⟩
  · exact replayLineage_ok hrep hent
  · exact replayFork_ok hrep hfork

lemma validateAndApply_cases (h : s.validateAndApply event = .ok (s', outcome)) :
    s.tryReplay event = .ok (some (s', outcome)) ∨
      s.tryReplay event = .ok none ∧ s.applyNew event = .ok (s', outcome) := by
  simp only [validateAndApply, bind_ok] at h
  obtain ⟨replay, hrep, h⟩ := h
  cases replay with
  | some result =>
    obtain rfl : result = (s', outcome) := pure_ok.mp h
    exact .inl hrep
  | none => exact .inr ⟨hrep, h⟩

/-- An accepted delivery is a replay, or it goes one of the ways of `New`. -/
lemma validateAndApply_ok (h : s.validateAndApply event = .ok (s', outcome)) :
    Replayed s event s' ∨ New s event s' :=
  (validateAndApply_cases h).imp tryReplay_ok fun hnew => (applyNew_ok hnew.2).1

lemma tryReplay_disposition (h : s.tryReplay event = .ok (some (s', outcome))) :
    outcome.disposition = .replay ∨ outcome.disposition = .approvalsMerged := by
  have hdone : ∀ {t changed}, pure (t, replayed event changed) =
      (.ok (s', outcome) : Except IdentityError _) →
      outcome.disposition = .replay ∨ outcome.disposition = .approvalsMerged := by
    intro t changed h
    obtain ⟨-, rfl⟩ : t = s' ∧ replayed event changed = outcome := by simpa using pure_ok.mp h
    cases changed with
    | false => exact .inl rfl
    | true => exact .inr rfl
  rcases tryReplay_cases h with ⟨_, _, -, -, h⟩ | ⟨_, _, _, -, -, -, h⟩
  · simp only [replayLineage, bind_ok] at h
    obtain ⟨-, -, merged, -, h⟩ := h
    split at h
    · obtain ⟨next, -, h⟩ := bind_ok.mp h
      exact hdone h
    · exact hdone h
  · simp only [replayFork, bind_ok] at h
    obtain ⟨merged, -, h⟩ := h
    split at h
    · obtain ⟨-, -, h⟩ := bind_ok.mp h
      exact hdone h
    · exact hdone h

lemma new_of_disposition (h : s.validateAndApply event = .ok (s', outcome))
    (hnew : outcome.disposition = .applied ∨ outcome.disposition = .forkDetected) :
    New s event s' := by
  rcases validateAndApply_cases h with hrep | ⟨-, h⟩
  · rcases tryReplay_disposition hrep with hd | hd
    · simp [hd] at hnew
    · simp [hd] at hnew
  · exact (applyNew_ok h).1

end AccountState
end Krikos.Identity
