import Krikos.Identity.GroupKeys
import Krikos.Identity.Sync

/-!
# Identity.FrozenHistory

The history of a head set. The ancestor closure is what the heads reach over the predecessors of the
stored events, so that it stays the same while the store accepts further events, and so does the
order of its events: the history of a revision is frozen.
-/

namespace Krikos.Identity

open Lib List StoredAccount AuthorizedEvent SignedControllerApproval ControllerApprovals

variable {c : Primitives} {a b d : StoredAccount c} {closure pending heads : List EventId}
  {eventId : EventId} {event : AuthorizedEvent c} {genesis : AccountGenesis c}

/-- What identifies an event: all but its approvals. -/
def AuthorizedEvent.content (event : AuthorizedEvent c) : EventBody × AdmissionEvidence :=
  (event.body, event.admissionEvidence)

lemma AuthorizedEvent.eventId_of_content {event other : AuthorizedEvent c}
    (h : event.content = other.content) : event.eventId = other.eventId := by
  obtain ⟨hbody, hevid⟩ := Prod.mk.inj h
  rw [eventId, eventId, hbody, hevid]

namespace StoredAccount
variable {hashes : StoreHashes c}

/-! ## Growth -/

/-- The store keeps every envelope. -/
structure Grows (a b : StoredAccount c) : Prop where
  genesis : b.genesis = a.genesis
  rows : a.events.rows ⊆ b.events.rows

lemma Grows.refl (a : StoredAccount c) : Grows a a := ⟨rfl, fun _ h => h⟩

lemma Grows.trans (h : Grows a b) (h' : Grows b d) : Grows a d :=
  ⟨h'.genesis.trans h.genesis, fun _ hrow => h'.rows (h.rows hrow)⟩

lemma Reworks.grows (h : Reworks a b) : Grows a b := by
  rw [h.rest]
  exact ⟨rfl, fun _ hrow => hrow⟩

lemma grows_commitGroupKeyRotation {effectId : EffectId} {leaseId : LeaseId}
    {completedAt : Timestamp} {rotation : GroupKeyRotation}
    (h : a.commitGroupKeyRotation effectId leaseId rotation completedAt = .ok b) : Grows a b := by
  simp only [commitGroupKeyRotation, bind_ok, okOr_ok, reject_ok] at h
  obtain ⟨_, -, _, -, _, -, _, -, _, -, stored, hput, h⟩ := h
  have hstored : Grows a stored := by
    rcases putRotation_ok hput with rfl | rfl
    · exact .refl _
    · exact ⟨rfl, fun _ hrow => hrow⟩
  exact hstored.trans (reworks_completeEffect h).grows

lemma grows_absorb {accountId : AccountId} {s : AccountState c} {outcome : ApplyOutcome} :
    Grows a (a.absorb hashes accountId event s outcome) := by
  have hins : Grows a (a.insertEvent hashes event) := by
    unfold insertEvent
    dsimp only
    split
    · exact .refl a
    · rename_i hnew
      refine ⟨rfl, fun row hrow => Table.mem_insert.mpr (.inr ⟨fun heq => hnew ?_, hrow⟩)⟩
      rw [← heq, Table.get_eq_some.mpr hrow]
      rfl
  exact ⟨hins.genesis, hins.rows⟩

lemma grows_absorbAll {accountId : AccountId} {events : List (AuthorizedEvent c)}
    {outcomes : List ApplyOutcome}
    (h : absorbAll hashes accountId a events = .ok (b, outcomes)) : Grows a b := by
  induction events generalizing a outcomes with
  | nil =>
    obtain ⟨rfl, -⟩ : a = b ∧ [] = outcomes := by simpa [absorbAll] using h
    exact .refl a
  | cons event rest ih =>
    simp only [absorbAll, bind_ok, reject_ok, pure_ok, Prod.mk.injEq] at h
    obtain ⟨_, -, _, -, ⟨committed, later⟩, hrest, rfl, -⟩ := h
    exact grows_absorb.trans (ih hrest)

end StoredAccount

variable {session next : Session c}

lemma StoreStep.grows {hashes : StoreHashes c} (h : StoreStep hashes genesis session next) :
    session.stored.Grows next.stored := by
  cases h with
  | load loads => exact .refl _
  | commitEvent routed commits =>
    simp only [StoredAccount.commitEvent, bind_ok, reject_ok, pure_ok, Prod.mk.injEq] at commits
    obtain ⟨_, -, _, -, _, -, _, -, _, -, _, -, rfl, -⟩ := commits
    exact grows_absorb
  | commitEvents routed commits =>
    simp only [StoredAccount.commitEvents, bind_ok, reject_ok, pure_ok, Prod.mk.injEq] at commits
    obtain ⟨_, -, _, -, _, -, ⟨committed, outcomes⟩, habs, _, -, _, -, rfl, -⟩ := commits
    exact grows_absorbAll habs
  | claimEffects request => exact (reworks_claimEffects _ request).grows
  | completeEffect completes => exact (reworks_completeEffect completes).grows
  | retryEffect retries => exact (reworks_retryEffect retries).grows
  | rotate loaded captures completes commits =>
    exact grows_commitGroupKeyRotation commits

lemma StoreRun.grows {hashes : StoreHashes c} (h : StoreRun hashes genesis session next) :
    session.stored.Grows next.stored := by
  induction h with
  | refl => exact .refl _
  | tail before step ih => exact ih.trans step.grows

namespace StoredAccount

/-! ## Ancestors -/

lemma mem_envelopes : event ∈ a.envelopes eventId ↔
    (∃ authorizationId, (authorizationId, event) ∈ a.events.rows) ∧ event.eventId = eventId := by
  simp [envelopes]

lemma canonicalEnvelope_ok (h : a.canonicalEnvelope eventId = .ok event) :
    event ∈ a.envelopes eventId :=
  mem_of_mem_head? (okOr_ok.mp h)

def predecessorsOf (a : StoredAccount c) (eventId : EventId) : List EventId :=
  match a.canonicalEnvelope eventId with
  | .ok event => event.body.predecessors.eventHeads.getD []
  | .error _ => []

lemma predecessorsOf_eq (h : a.canonicalEnvelope eventId = .ok event) :
    a.predecessorsOf eventId = event.body.predecessors.eventHeads.getD [] := by
  rw [predecessorsOf, h]

def Ancestor (a : StoredAccount c) (heads : List EventId) (eventId : EventId) : Prop :=
  ∃ head ∈ heads, Relation.ReflTransGen (fun next previous => previous ∈ a.predecessorsOf next)
    head eventId

lemma Ancestor.head {head : EventId} (h : head ∈ heads) : a.Ancestor heads head :=
  ⟨head, h, .refl⟩

variable {others : List EventId}

lemma Ancestor.mono (h : a.Ancestor heads eventId)
    (hsub : heads ⊆ others) : a.Ancestor others eventId := by
  obtain ⟨head, hhead, hpath⟩ := h
  exact ⟨head, hsub hhead, hpath⟩

/-- What the loop over the stack adds to the closure. -/
structure Closes (a : StoredAccount c) (closure pending closed : List EventId) : Prop where
  keeps : closure ⊆ closed
  covers : pending ⊆ closed
  stored : ∀ eventId ∈ closed, eventId ∉ closure →
    (∃ event, a.canonicalEnvelope eventId = .ok event) ∧ a.predecessorsOf eventId ⊆ closed
  reached : ∀ eventId ∈ closed, eventId ∈ closure ∨ a.Ancestor pending eventId
  distinct : closure.Nodup → closed.Nodup

lemma mem_of_dropWhile_nil (h : pending.dropWhile (· ∈ closure) = []) : pending ⊆ closure := by
  intro eventId hmem
  simpa using dropWhile_eq_nil_iff.mp h eventId hmem

lemma closes_nil (h : pending.dropWhile (· ∈ closure) = []) : a.Closes closure pending closure where
  keeps _ h := h
  covers := mem_of_dropWhile_nil h
  stored _ h hnot := absurd h hnot
  reached _ h := .inl h
  distinct h := h

/-- One round: the event on top of the stack, in front of which everything is in the closure. -/
lemma closes_cons {rest closed : List EventId}
    (h : pending.dropWhile (· ∈ closure) = eventId :: rest)
    (hevent : a.canonicalEnvelope eventId = .ok event)
    (hrest : a.Closes (eventId :: closure)
      ((event.body.predecessors.eventHeads.getD []).reverse ++ rest) closed) :
    a.Closes closure pending closed := by
  have hpen : pending = pending.takeWhile (· ∈ closure) ++ eventId :: rest := by
    rw [← h, takeWhile_append_dropWhile]
  have hnew : eventId ∉ closure := by
    have hhead := head_dropWhile_not (· ∈ closure) (h ▸ cons_ne_nil eventId rest)
    simpa [h] using hhead
  have hself : eventId ∈ closed := hrest.keeps mem_cons_self
  have hprev : a.predecessorsOf eventId ⊆ closed := by
    rw [predecessorsOf_eq hevent]
    intro previous hmem
    exact hrest.covers (mem_append_left _ (mem_reverse.mpr hmem))
  have htop : eventId ∈ pending := by
    rw [hpen]
    exact mem_append_right _ mem_cons_self
  refine ⟨fun x hx => hrest.keeps (mem_cons_of_mem _ hx), ?_, ?_, ?_, ?_⟩
  · intro x hx
    rw [hpen] at hx
    rcases mem_append.mp hx with hx | hx
    · exact hrest.keeps (mem_cons_of_mem _ (by simpa using mem_takeWhile_imp hx))
    · rcases mem_cons.mp hx with rfl | hx
      · exact hself
      · exact hrest.covers (mem_append_right _ hx)
  · intro x hx hnot
    by_cases heq : x = eventId
    · rw [heq]
      exact ⟨⟨event, hevent⟩, hprev⟩
    · exact hrest.stored x hx (not_mem_cons_of_ne_of_not_mem heq hnot)
  · intro x hx
    rcases hrest.reached x hx with hx | ⟨head, hhead, hpath⟩
    · rcases mem_cons.mp hx with rfl | hx
      · exact .inr (.head htop)
      · exact .inl hx
    · rcases mem_append.mp hhead with hhead | hhead
      · refine .inr ⟨eventId, htop, .head ?_ hpath⟩
        rw [predecessorsOf_eq hevent]
        exact mem_reverse.mp hhead
      · refine .inr ⟨head, ?_, hpath⟩
        rw [hpen]
        exact mem_append_right _ (mem_cons_of_mem _ hhead)
  · exact fun hdis => hrest.distinct (nodup_cons.mpr ⟨hnew, hdis⟩)

lemma closeAncestors_closes {room : Nat} {closed : List EventId}
    (h : a.closeAncestors room closure pending = .ok closed) : a.Closes closure pending closed := by
  induction room generalizing closure pending with
  | zero =>
    simp only [closeAncestors] at h
    split at h
    · rename_i hnil
      obtain rfl := Except.ok.inj h
      exact closes_nil hnil
    · cases h
  | succ room ih =>
    simp only [closeAncestors] at h
    split at h
    · rename_i hnil
      obtain rfl := Except.ok.inj h
      exact closes_nil hnil
    · rename_i eventId rest htop
      obtain ⟨event, hevent, h⟩ := bind_ok.mp h
      split at h
      · rename_i predecessors hpred
        refine closes_cons htop hevent ?_
        rw [hpred]
        exact ih h
      · rename_i hnone
        obtain ⟨_, -, h⟩ := bind_ok.mp h
        refine closes_cons htop hevent ?_
        rw [hnone]
        exact ih h

lemma ancestorClosure_ok (h : a.ancestorClosure heads = .ok closure) :
    closure.Nodup ∧ (∀ eventId, eventId ∈ closure ↔ a.Ancestor heads eventId) ∧
      ∀ eventId ∈ closure, ∃ event, a.canonicalEnvelope eventId = .ok event := by
  have hcloses := closeAncestors_closes h
  have hstor : ∀ eventId ∈ closure, (∃ event, a.canonicalEnvelope eventId = .ok event) ∧
      a.predecessorsOf eventId ⊆ closure :=
    fun eventId hmem => hcloses.stored eventId hmem not_mem_nil
  refine ⟨hcloses.distinct nodup_nil, fun eventId => ⟨fun hmem => ?_, ?_⟩,
    fun eventId hmem => (hstor eventId hmem).1⟩
  · exact ((hcloses.reached eventId hmem).resolve_left not_mem_nil).mono
      fun _ => mem_reverse.mp
  · rintro ⟨head, hhead, hpath⟩
    induction hpath with
    | refl => exact hcloses.covers (mem_reverse.mpr hhead)
    | tail _ hstep ih => exact (hstor _ ih).2 hstep

/-! ## The history of a head set -/

def contentOrder (c : Primitives) (content : EventBody × AdmissionEvidence) : Sequence ×ₗ EventId :=
  toLex (content.1.sequence, c.admittedEventId content.1 (c.admissionEvidenceId content.2))

/-- The contents are those of the ancestors of the heads, in order, and each ancestor is stored
with one content only. -/
structure Frozen (a : StoredAccount c) (heads : List EventId)
    (contents : List (EventBody × AdmissionEvidence)) : Prop where
  sorted : SortedBy (contentOrder c) contents
  stored : ∀ eventId, a.Ancestor heads eventId →
    ∃ event, a.canonicalEnvelope eventId = .ok event ∧ event.content ∈ contents
  sound : ∀ content ∈ contents, ∃ eventId, a.Ancestor heads eventId ∧
    ∃ event ∈ a.envelopes eventId, event.content = content
  uniform : ∀ eventId, a.Ancestor heads eventId → ∀ event ∈ a.envelopes eventId,
    ∀ other ∈ a.envelopes eventId, event.content = other.content

lemma Grows.envelopes (h : Grows a b) (hevent : event ∈ a.envelopes eventId) :
    event ∈ b.envelopes eventId := by
  obtain ⟨⟨authorizationId, hrow⟩, hid⟩ := mem_envelopes.mp hevent
  exact mem_envelopes.mpr ⟨⟨authorizationId, h.rows hrow⟩, hid⟩

lemma Ancestor.tail {previous : EventId} (h : a.Ancestor heads eventId)
    (hprev : previous ∈ a.predecessorsOf eventId) : a.Ancestor heads previous := by
  obtain ⟨head, hhead, hpath⟩ := h
  exact ⟨head, hhead, hpath.tail hprev⟩

variable {contents later : List (EventBody × AdmissionEvidence)}

section
variable (h : a.Frozen heads contents)
include h

lemma Frozen.content_eq (h' : b.Frozen others later) (hgrow : Grows a b)
    (ha : a.Ancestor heads eventId) (hb : b.Ancestor others eventId) :
    ∃ event other, a.canonicalEnvelope eventId = .ok event ∧
      b.canonicalEnvelope eventId = .ok other ∧ event.content = other.content := by
  obtain ⟨event, hevent, -⟩ := h.stored eventId ha
  obtain ⟨other, hoth, -⟩ := h'.stored eventId hb
  exact ⟨event, other, hevent, hoth, h'.uniform eventId hb event
    (hgrow.envelopes (canonicalEnvelope_ok hevent)) other (canonicalEnvelope_ok hoth)⟩

lemma Frozen.predecessors_eq
    (h' : b.Frozen others later) (hgrow : Grows a b) (ha : a.Ancestor heads eventId)
    (hb : b.Ancestor others eventId) : a.predecessorsOf eventId = b.predecessorsOf eventId := by
  obtain ⟨event, other, hevent, hoth, hcon⟩ := h.content_eq h' hgrow ha hb
  have hbody : event.body = other.body := congrArg Prod.fst hcon
  rw [predecessorsOf_eq hevent, predecessorsOf_eq hoth, hbody]

lemma Frozen.ancestor_iff (h' : b.Frozen others later) (hgrow : Grows a b)
    (hheads : ∀ head, head ∈ heads ↔ head ∈ others) :
    a.Ancestor heads eventId ↔ b.Ancestor others eventId := by
  -- Along a path both stores name the same predecessors, as long as it stays within both.
  constructor
  · rintro ⟨head, hhead, hpath⟩
    induction hpath with
    | refl => exact .head ((hheads head).mp hhead)
    | tail hbef hstep ih =>
      exact ih.tail (h.predecessors_eq h' hgrow ⟨head, hhead, hbef⟩ ih ▸ hstep)
  · rintro ⟨head, hhead, hpath⟩
    induction hpath with
    | refl => exact .head ((hheads head).mpr hhead)
    | tail hbef hstep ih =>
      exact ih.tail (h.predecessors_eq h' hgrow ih ⟨head, hhead, hbef⟩ ▸ hstep)

lemma Frozen.eq (h' : b.Frozen others later) (hgrow : Grows a b)
    (hheads : ∀ head, head ∈ heads ↔ head ∈ others) : later = contents := by
  refine h'.sorted.eq_of_mem_iff h.sorted fun content => ⟨fun hmem => ?_, fun hmem => ?_⟩
  · obtain ⟨eventId, hb, event, hevent, rfl⟩ := h'.sound content hmem
    have ha := (h.ancestor_iff h' hgrow hheads).mpr hb
    obtain ⟨stored, hstor, hcon⟩ := h.stored eventId ha
    rwa [h'.uniform eventId hb event hevent stored (hgrow.envelopes (canonicalEnvelope_ok hstor))]
  · obtain ⟨eventId, ha, event, hevent, rfl⟩ := h.sound content hmem
    have hb := (h.ancestor_iff h' hgrow hheads).mp ha
    obtain ⟨stored, hstor, hcon⟩ := h'.stored eventId hb
    rwa [h'.uniform eventId hb event (hgrow.envelopes hevent) stored (canonicalEnvelope_ok hstor)]

end

lemma contentOrder_content (event : AuthorizedEvent c) :
    contentOrder c event.content = toLex (event.body.sequence, event.eventId) := rfl

/-! ## Merged approvals -/

/-- The signatures of approvals, each with what it signs. -/
def signatures (approvals : List SignedControllerApproval) :
    Set (ControllerApprovalBody × KeyedSignature) :=
  {signed | ∃ approval ∈ approvals, approval.body = signed.1 ∧ signed.2 ∈ approval.signatures}

lemma keepDistinct_ok {previous : Option KeyedSignature} {l merged : List KeyedSignature}
    (h : keepDistinct previous l = .ok merged) (signature : KeyedSignature) :
    signature ∈ merged ∨ previous = some signature ↔ signature ∈ l ∨ previous = some signature := by
  fun_induction keepDistinct previous l generalizing merged with
  | case1 =>
    obtain rfl := Except.ok.inj h
    rfl
  | case2 first rest ih =>
    obtain ⟨merged, hrest, h⟩ := bind_ok.mp h
    obtain rfl := pure_ok.mp h
    have := ih hrest
    grind
  | case3 previous first rest hkey ih =>
    obtain ⟨_, hsame, h⟩ := bind_ok.mp h
    rw [reject_ok, not_not] at hsame
    have := ih h
    grind
  | case4 previous first rest hkey ih =>
    obtain ⟨merged, hrest, h⟩ := bind_ok.mp h
    obtain rfl := pure_ok.mp h
    have := ih hrest
    grind

lemma merge_ok {approval other merged : SignedControllerApproval}
    (h : approval.merge other = .ok merged) :
    signatures [merged] = signatures [approval] ∪ signatures [other] := by
  simp only [SignedControllerApproval.merge, bind_ok, reject_ok, not_not] at h
  obtain ⟨_, hbody, kept, hkept, h⟩ := h
  unfold SignedControllerApproval.fromSorted at h
  split at h
  · cases h
  · obtain ⟨_, -, h⟩ := bind_ok.mp h
    split at h
    · obtain rfl := Except.ok.inj h
      ext ⟨body, signature⟩
      have hmem := keepDistinct_ok hkept signature
      simp only [perm_sortByKey.mem_iff, mem_append, reduceCtorEq, or_false] at hmem
      simp [signatures, hmem, hbody, and_or_left]
    · cases h

lemma signatures_cons (approval : SignedControllerApproval)
    (rest : List SignedControllerApproval) :
    signatures (approval :: rest) = signatures [approval] ∪ signatures rest := by
  ext
  simp [signatures]

lemma signatures_of_perm {approvals others : List SignedControllerApproval}
    (h : approvals.Perm others) : signatures approvals = signatures others := by
  ext
  simp only [signatures, Set.mem_ofPred_eq, h.mem_iff]

lemma mergeOne_ok {approvals merged : List SignedControllerApproval}
    {incoming : SignedControllerApproval} (h : mergeOne approvals incoming = .ok merged) :
    signatures merged = signatures approvals ∪ signatures [incoming] := by
  unfold mergeOne at h
  split at h
  · rename_i index hfound
    obtain ⟨approval, hget, -⟩ := search_ok hfound
    rw [hget] at h
    obtain ⟨together, hmerge, h⟩ := bind_ok.mp h
    obtain rfl := pure_ok.mp h
    obtain ⟨hlt, rfl⟩ := List.getElem?_eq_some_iff.mp hget
    rw [signatures_of_perm (set_perm_cons_eraseIdx hlt together), signatures_cons,
      merge_ok hmerge, Set.union_right_comm, ← signatures_cons,
      signatures_of_perm (getElem_cons_eraseIdx_perm hlt)]
  · rename_i index hnew
    obtain rfl := Except.ok.inj h
    rw [signatures_of_perm (perm_insertIdx incoming approvals (le_length_of_search_error hnew)),
      signatures_cons, Set.union_comm]

lemma foldlM_mergeOne {approvals others merged : List SignedControllerApproval}
    (h : others.foldlM mergeOne approvals = .ok merged) :
    signatures merged = signatures approvals ∪ signatures others := by
  induction others generalizing approvals with
  | nil =>
    obtain rfl : approvals = merged := by simpa [pure, Except.pure] using h
    simp [signatures]
  | cons incoming rest ih =>
    rw [foldlM_cons] at h
    obtain ⟨next, hnext, hrest⟩ := bind_ok.mp h
    rw [ih hrest, mergeOne_ok hnext, Set.union_assoc, ← signatures_cons]

lemma signatures_merge {approvals other merged : ControllerApprovals}
    (h : approvals.merge other = .ok merged) :
    signatures merged.asSlice = signatures approvals.asSlice ∪ signatures other.asSlice := by
  simp only [ControllerApprovals.merge, ControllerApprovals.fromSorted, bind_ok] at h
  obtain ⟨result, hfold, _, -, h⟩ := h
  split at h
  · obtain rfl := Except.ok.inj h
    exact foldlM_mergeOne hfold
  · cases h

/-! ## Collecting a history -/

variable {events : List (AuthorizedEvent c)}

/-- The table has an event for each identifier of the closure that was seen, with the content of
every envelope of it. -/
structure Collects (closure : List EventId) (seen : List (AuthorizedEvent c))
    (byEventId : Table EventId (AuthorizedEvent c)) : Prop where
  filed : ∀ eventId event, (eventId, event) ∈ byEventId.rows →
    eventId ∈ closure ∧ event.eventId = eventId
  found : ∀ event ∈ seen, event.eventId ∈ closure →
    ∃ retained, (event.eventId, retained) ∈ byEventId.rows ∧ retained.content = event.content
  sound : ∀ eventId event, (eventId, event) ∈ byEventId.rows →
    ∃ other ∈ seen, other.content = event.content
  signed : ∀ eventId event, (eventId, event) ∈ byEventId.rows → ∀ signed,
    signed ∈ signatures event.approvals.asSlice ↔
      ∃ other ∈ seen, other.eventId = eventId ∧ signed ∈ signatures other.approvals.asSlice

lemma collects_empty : Collects closure ([] : List (AuthorizedEvent c)) .empty where
  filed _ _ h := by cases h
  found _ h := by cases h
  sound _ _ h := by cases h
  signed _ _ h := by cases h

variable {seen : List (AuthorizedEvent c)} {byEventId : Table EventId (AuthorizedEvent c)}

lemma Collects.insert {merged : AuthorizedEvent c}
    (h : Collects closure seen byEventId) (hclos : event.eventId ∈ closure)
    (hmer : merged.content = event.content)
    (hsame : ∀ retained, (event.eventId, retained) ∈ byEventId.rows →
      retained.content = event.content)
    (hsigned : ∀ signed, signed ∈ signatures merged.approvals.asSlice ↔
      (∃ other ∈ seen, other.eventId = event.eventId ∧
        signed ∈ signatures other.approvals.asSlice) ∨
      signed ∈ signatures event.approvals.asSlice) :
    Collects closure (seen ++ [event]) (byEventId.insert event.eventId merged) where
  filed eventId other hrow := by
    rcases Table.mem_insert.mp hrow with ⟨rfl, rfl⟩ | ⟨-, hold⟩
    · exact ⟨hclos, eventId_of_content hmer⟩
    · exact h.filed eventId other hold
  found other hoth hin := by
    rcases mem_append.mp hoth with hoth | hoth
    · obtain ⟨retained, hrow, hcon⟩ := h.found other hoth hin
      by_cases hid : other.eventId = event.eventId
      · rw [hid] at hrow ⊢
        refine ⟨merged, Table.mem_insert.mpr (.inl ⟨rfl, rfl⟩), ?_⟩
        rw [hmer, ← hsame retained hrow, hcon]
      · exact ⟨retained, Table.mem_insert.mpr (.inr ⟨hid, hrow⟩), hcon⟩
    · rw [mem_singleton.mp hoth]
      exact ⟨merged, Table.mem_insert.mpr (.inl ⟨rfl, rfl⟩), hmer⟩
  sound eventId other hrow := by
    rcases Table.mem_insert.mp hrow with ⟨-, rfl⟩ | ⟨-, hold⟩
    · exact ⟨event, by simp, hmer.symm⟩
    · obtain ⟨source, hsour, hcon⟩ := h.sound eventId other hold
      exact ⟨source, mem_append_left _ hsour, hcon⟩
  signed eventId other hrow signed := by
    rcases Table.mem_insert.mp hrow with ⟨rfl, rfl⟩ | ⟨hne, hold⟩
    · simp [hsigned, or_and_right, exists_or]
    · simp [h.signed eventId other hold, or_and_right, exists_or, hne.symm]

lemma collectEvent_collects {next : Table EventId (AuthorizedEvent c)}
    (h : Collects closure seen byEventId) (hcol : collectEvent closure byEventId event = .ok next) :
    Collects closure (seen ++ [event]) next := by
  unfold collectEvent at hcol
  split at hcol
  · rename_i hcont
    have hclos : event.eventId ∈ closure := contains_iff_mem.mp hcont
    split at hcol
    · rename_i hnone
      obtain rfl := Except.ok.inj hcol
      have habsent := Table.get_eq_none.mp hnone
      refine h.insert hclos rfl (fun retained hrow => absurd hrow (habsent retained)) fun _ =>
        ⟨.inr, fun hsigned => hsigned.resolve_left ?_⟩
      rintro ⟨other, hother, hid, -⟩
      obtain ⟨retained, hrow, -⟩ := h.found other hother (hid ▸ hclos)
      exact habsent retained (hid ▸ hrow)
    · rename_i retained hsome
      simp only [bind_ok, reject_ok, pure_ok, not_or, not_not] at hcol
      obtain ⟨_, ⟨hbody, hevid⟩, approvals, happrovals, merged, hmer, rfl⟩ := hcol
      have hrow := Table.get_eq_some.mp hsome
      have hcon : retained.content = event.content := Prod.ext hbody hevid
      obtain ⟨hbody', hevid', rfl⟩ := new_ok hmer
      refine h.insert hclos ((Prod.ext hbody' hevid').trans hcon) (fun other hoth => ?_)
        fun signed => ?_
      · rw [Table.eq_of_mem hoth hrow, hcon]
      · rw [signatures_merge happrovals, Set.mem_union, h.signed _ _ hrow]
  · rename_i hcont
    have hclos : event.eventId ∉ closure := fun hin => hcont (contains_iff_mem.mpr hin)
    obtain rfl := Except.ok.inj hcol
    refine ⟨h.filed, fun other hoth hin => ?_, fun eventId other hrow => ?_,
      fun eventId other hrow signed => ?_⟩
    · rcases mem_append.mp hoth with hoth | hoth
      · exact h.found other hoth hin
      · exact absurd (mem_singleton.mp hoth ▸ hin) hclos
    · obtain ⟨source, hsour, hcon⟩ := h.sound eventId other hrow
      exact ⟨source, mem_append_left _ hsour, hcon⟩
    · have hne : event.eventId ≠ eventId := fun hid => hclos (hid ▸ (h.filed _ _ hrow).1)
      simp [h.signed eventId other hrow, or_and_right, exists_or, hne]

lemma collects_foldlM {seen events : List (AuthorizedEvent c)}
    {result : Table EventId (AuthorizedEvent c)} (h : Collects closure seen byEventId)
    (hfold : events.foldlM (collectEvent closure) byEventId = .ok result) :
    Collects closure (seen ++ events) result := by
  induction events generalizing seen byEventId with
  | nil =>
    obtain rfl : byEventId = result := by simpa [pure, Except.pure] using hfold
    simpa using h
  | cons event rest ih =>
    rw [foldlM_cons] at hfold
    obtain ⟨next, hnext, hrest⟩ := bind_ok.mp hfold
    simpa using ih (collectEvent_collects h hnext) hrest

/-- The event has exactly the signatures of its envelopes. -/
def Merges (a : StoredAccount c) (event : AuthorizedEvent c) : Prop :=
  ∀ signed, signed ∈ signatures event.approvals.asSlice ↔
    ∃ envelope ∈ a.envelopes event.eventId, signed ∈ signatures envelope.approvals.asSlice

lemma orderedHistory_ok (h : a.orderedHistory heads = .ok events) :
    a.Frozen heads (events.map content) ∧ ∀ event ∈ events, a.Merges event := by
  simp only [orderedHistory, bind_ok, reject_ok, pure_ok] at h
  obtain ⟨_, -, closure, hclos, byEventId, hfold, _, -, rfl⟩ := h
  obtain ⟨-, hmem, hstor⟩ := ancestorClosure_ok hclos
  have hcoll : Collects closure (a.events.rows.map Prod.snd) byEventId :=
    collects_foldlM collects_empty hfold
  have hseen : ∀ {eventId event}, event ∈ a.envelopes eventId →
      event ∈ a.events.rows.map Prod.snd := fun hevent => (mem_filter.mp hevent).1
  -- Every envelope of an ancestor has the content of the row of its identifier.
  have hrow : ∀ eventId, a.Ancestor heads eventId → ∀ event ∈ a.envelopes eventId,
      ∃ retained, (eventId, retained) ∈ byEventId.rows ∧ retained.content = event.content := by
    intro eventId hanc event hevent
    have hid := (mem_envelopes.mp hevent).2
    obtain ⟨retained, hrow, hcon⟩ :=
      hcoll.found event (hseen hevent) (hid ▸ (hmem eventId).mpr hanc)
    exact ⟨retained, hid ▸ hrow, hcon⟩
  have hin : ∀ {eventId retained}, (eventId, retained) ∈ byEventId.rows → retained.content ∈
      ((sortByKey (fun row => toLex (row.2.body.sequence, row.1)) byEventId.rows).map
        Prod.snd).map content := fun hrow =>
    mem_map_of_mem (mem_map_of_mem (perm_sortByKey.mem_iff.mpr hrow))
  refine ⟨⟨?_, fun eventId hanc => ?_, fun content hcon => ?_,
    fun eventId hanc event hevent other hoth => ?_⟩, fun event hevent signed => ?_⟩
  · have hkeys : (byEventId.rows.map fun row =>
        toLex (row.2.body.sequence, row.1)).Nodup := by
      refine List.Nodup.of_map (fun key => (ofLex key).2) ?_
      rw [map_map]
      exact byEventId.keys_nodup
    have hsor := sortedBy_sortByKey hkeys
    refine pairwise_map.mpr (pairwise_map.mpr (hsor.imp_of_mem ?_))
    intro left right hleft hrig hlt
    rw [contentOrder_content, contentOrder_content,
      (hcoll.filed _ _ (perm_sortByKey.mem_iff.mp hleft)).2,
      (hcoll.filed _ _ (perm_sortByKey.mem_iff.mp hrig)).2]
    exact hlt
  · obtain ⟨event, hevent⟩ := hstor eventId ((hmem eventId).mpr hanc)
    obtain ⟨retained, hret, hcon⟩ := hrow eventId hanc event (canonicalEnvelope_ok hevent)
    exact ⟨event, hevent, hcon ▸ hin hret⟩
  · simp only [mem_map, perm_sortByKey.mem_iff] at hcon
    obtain ⟨event, ⟨⟨eventId, retained⟩, hret, rfl⟩, rfl⟩ := hcon
    obtain ⟨hin, hid⟩ := hcoll.filed eventId retained hret
    obtain ⟨source, hsour, hcon⟩ := hcoll.sound eventId retained hret
    refine ⟨eventId, (hmem eventId).mp hin, source, ?_, hcon⟩
    refine mem_filter.mpr ⟨hsour, decide_eq_true ?_⟩
    rw [eventId_of_content hcon, hid]
  · obtain ⟨retained, hret, hcon⟩ := hrow eventId hanc event hevent
    obtain ⟨retained', hret', hcon'⟩ := hrow eventId hanc other hoth
    rw [← hcon, ← hcon', Table.eq_of_mem hret hret']
  · simp only [mem_map, perm_sortByKey.mem_iff] at hevent
    obtain ⟨⟨eventId, retained⟩, hret, rfl⟩ := hevent
    obtain ⟨-, rfl⟩ := hcoll.filed eventId retained hret
    rw [hcoll.signed _ _ hret]
    simp [envelopes, and_assoc]

end StoredAccount
end Krikos.Identity
