import Krikos.Identity.Audit

/-!
# Identity.AuditJournal

The journal of concurrent durable auditors. An auditor that is seeded with the latest head of a
journal is the auditor that has replayed the journal, so a record that is appended is one that the
replay accepts. The accepted heads never go back, and the log of a later one starts with the log of
every earlier one: a consistency proof determines the old root from the new leaves, and this goes
down the chain of all heads in between.
-/

namespace Krikos.Identity

open Lib List PortableAccounting ProviderHeadAuditor
open Lib.HashTree

variable {c : AuditPrimitives} {result : Except IdentityError ProviderHeadAuditDisposition}
  {consistencyProof : Option MerkleConsistencyProof} {auditor : ProviderHeadAuditor}
  {head : SignedProviderHead}

/-! ## The outcome of an observation -/

namespace ProviderHeadAuditor
variable {a a' : ProviderHeadAuditor} {head : SignedProviderHead}
  {consistencyProof : Option MerkleConsistencyProof}
  {result : Except IdentityError ProviderHeadAuditDisposition} {provider : ProviderDescriptor}

/-- How an accepted head follows the latest one: it is the same tree, or a proof leads to it. -/
structure Follows (c : AuditPrimitives) (previous head : SignedProviderHead)
    (consistencyProof : Option MerkleConsistencyProof) : Prop where
  size : previous.body.treeSize ≤ head.body.treeSize
  time : previous.body.observedAt ≤ head.body.observedAt
  tree : (previous.body.treeSize = head.body.treeSize ∧
      previous.body.treeRoot = head.body.treeRoot) ∨
    ∃ proof, consistencyProof = some proof ∧ proof.oldSize = previous.body.treeSize ∧
      proof.newSize = head.body.treeSize ∧
      proof.verify c.merkleHash previous.body.treeRoot head.body.treeRoot = .ok ()

lemma progression_ok {older newer : SignedProviderHead} {proof : MerkleConsistencyProof} {u : Unit}
    (h : verifyProviderHeadProgression c provider older newer proof = .ok u) :
    proof.oldSize = older.body.treeSize ∧ proof.newSize = newer.body.treeSize ∧
      proof.verify c.merkleHash older.body.treeRoot newer.body.treeRoot = .ok () := by
  simp only [verifyProviderHeadProgression, bind_ok, reject_ok, not_or, not_not] at h
  obtain ⟨_, -, _, -, _, -, _, -, _, -, _, ⟨hold, hnew⟩, hverify⟩ := h
  exact ⟨hold, hnew, hverify⟩

lemma progress_ok {previous : SignedProviderHead} {disposition : ProviderHeadAuditDisposition}
    (hroot : ¬ (head.body.treeSize = previous.body.treeSize ∧
      head.body.treeRoot ≠ previous.body.treeRoot))
    (hback : ¬ (head.body.treeSize < previous.body.treeSize ∨
      head.body.observedAt < previous.body.observedAt))
    (h : a.progress c previous head consistencyProof = .ok disposition) :
    Follows c previous head consistencyProof := by
  obtain ⟨hsize, htime⟩ := not_or.mp hback
  refine ⟨not_lt.mp hsize, not_lt.mp htime, ?_⟩
  unfold progress at h
  split at h
  · rename_i hsame
    refine .inl ⟨hsame.symm, ?_⟩
    by_contra hne
    exact hroot ⟨hsame, fun he => hne he.symm⟩
  · simp only [bind_ok, okOr_ok, pure_ok] at h
    obtain ⟨proof, hproof, _, hprog, -⟩ := h
    obtain ⟨hold, hnew, hverify⟩ := progression_ok hprog
    exact .inr ⟨proof, hproof, hold, hnew, hverify⟩

/-- What an observation can do to an auditor. -/
inductive Outcome (c : AuditPrimitives) (a : ProviderHeadAuditor) (head : SignedProviderHead)
    (consistencyProof : Option MerkleConsistencyProof) :
    ProviderHeadAuditor → Except IdentityError ProviderHeadAuditDisposition → Prop
  | accepted (disposition : ProviderHeadAuditDisposition)
      (hverify : head.verify c a.provider = .ok ()) (hlog : head.body.logId = a.logId)
      (hfollows : ∀ previous, a.latest = some previous → Follows c previous head consistencyProof) :
      Outcome c a head consistencyProof { a with latest := some head } (.ok disposition)
  | equivocated (evidence : ProviderEquivocationEvidence)
      (hverify : evidence.verify c a.provider = .ok ()) :
      Outcome c a head consistencyProof { a with equivocation := some evidence }
        (.error .providerEquivocation)
  | rejected (e : IdentityError) : Outcome c a head consistencyProof a (.error e)

lemma evidence_verify {first second : SignedProviderHead} {evidence : ProviderEquivocationEvidence}
    (h : ProviderEquivocationEvidence.new c provider first second = .ok evidence) :
    evidence.verify c provider = .ok () := by
  simp only [ProviderEquivocationEvidence.new, bind_ok] at h
  obtain ⟨_, hfir, _, hsec, hheads⟩ := h
  have hsame : evidence = ⟨first, second⟩ := by
    simp only [ProviderEquivocationEvidence.fromHeads, bind_ok, pure_ok] at hheads
    obtain ⟨_, -, rfl⟩ := hheads
    rfl
  subst hsame
  simp only [ProviderEquivocationEvidence.verify, bind_ok]
  exact ⟨_, hfir, _, hsec, _, hheads, rfl⟩

lemma judge_outcome (hverify : head.verify c a.provider = .ok ())
    (hlog : head.body.logId = a.logId) :
    Outcome c a head consistencyProof (a.judge c head consistencyProof).1
      (a.judge c head consistencyProof).2 := by
  fun_cases judge c a head consistencyProof with
  | case1 hlat =>
    refine .accepted .firstObserved hverify hlog fun previous hprev => ?_
    rw [hlat] at hprev
    cases hprev
  | case2 hlat =>
    have hkeep : a = { a with latest := some head } := by rw [← hlat]
    nth_rewrite 2 [hkeep]
    refine .accepted .replay hverify hlog fun previous hprev => ?_
    rw [hlat] at hprev
    cases hprev
    exact ⟨le_refl _, le_refl _, .inl ⟨rfl, rfl⟩⟩
  | case4 previous hlat _ _ evidence hevidence => exact .equivocated _ (evidence_verify hevidence)
  | case7 previous hlat _ hroot hback disposition hprog =>
    refine .accepted disposition hverify hlog fun previous' hprev => ?_
    rw [hlat] at hprev
    cases hprev
    exact progress_ok hroot hback hprog
  | _ => exact .rejected _

lemma observe_outcome : Outcome c a head consistencyProof (a.observe c head consistencyProof).1
      (a.observe c head consistencyProof).2 := by
  fun_cases observe c a head consistencyProof with
  | case4 _ hverify hlog => exact judge_outcome hverify (not_not.mp hlog)
  | _ => exact .rejected _

end ProviderHeadAuditor

lemma seededAuditor_ok {provider : ProviderDescriptor} {logId : ProviderLogId}
    {latestHead : Option SignedProviderHead}
    (h : seededAuditor c provider logId latestHead = .ok auditor) :
    auditor = ⟨provider, logId, latestHead, none⟩ := by
  unfold seededAuditor at h
  split at h
  · exact (Except.ok.inj h).symm
  · rename_i latest
    have hout := @observe_outcome c (.new provider logId) latest none
    split at h
    · cases h
    · rename_i seeded disposition heq
      rw [heq] at hout
      simp only [bind_ok, reject_ok, pure_ok] at h
      obtain ⟨_, -, rfl⟩ := h
      cases hout
      rfl

/-! ## Replays -/

lemma provider_outcome {a a' : ProviderHeadAuditor}
    (h : Outcome c a head consistencyProof a' result) :
    a'.provider = a.provider ∧ a'.logId = a.logId := by
  cases h with
  | accepted | equivocated | rejected => exact ⟨rfl, rfl⟩

variable {record : ProviderAuditRecord} {records : List ProviderAuditRecord}

lemma replayRecords_concat {tip : ProviderHeadAuditor} {index : Nat}
    (h : replayRecords c auditor index records = .ok tip)
    (hseq : record.sequence = index + records.length + 1)
    (hlog : record.head.body.logId = tip.logId) (hstat : record.status.matchesOutcome
      (tip.observe c record.head record.consistencyProof).2 = true) :
    replayRecords c auditor index (records ++ [record]) =
      .ok (tip.observe c record.head record.consistencyProof).1 := by
  induction records generalizing auditor index with
  | nil =>
    cases h
    have hind : record.sequence = index + 1 := by simpa using hseq
    simp [replayRecords, reject, hind, hlog, hstat, bind, Except.bind]
  | cons first rest ih =>
    simp only [replayRecords, bind_ok, reject_ok] at h
    obtain ⟨_, hfir, _, hmat, hrest⟩ := h
    simp only [cons_append, replayRecords, bind_ok, reject_ok]
    refine ⟨(), hfir, (), hmat, ih hrest ?_⟩
    rw [hseq, length_cons]
    omega

variable {accounting next : PortableAccounting}

lemma ofRecords_concat (h : ofRecords c records = .ok accounting)
    (hnext : accounting.withAppendedRecord c record = .ok next) :
    ofRecords c (records ++ [record]) = .ok next := by
  unfold ofRecords at h ⊢
  rw [foldlM_append, h]
  simp [bind, Except.bind, hnext, pure, Except.pure]

lemma withAppendedRecord_ok (h : accounting.withAppendedRecord c record = .ok next) :
    next.records = accounting.records + 1 ∧ next.records ≤ MAX_PROVIDER_AUDIT_RECORDS := by
  simp only [withAppendedRecord, bind_ok, reject_ok, pure_ok] at h
  obtain ⟨n, hn, _, hmax, _, -, _, -, _, -, rfl⟩ := h
  exact ⟨checkedAdd_ok hn, not_lt.mp hmax⟩

/-! ## Logs that heads commit to -/

def SignedProviderHead.Commits (c : AuditPrimitives) (head : SignedProviderHead)
    (log : List ProviderLogEntryBody) : Prop :=
  head.body.treeSize = log.length ∧
    head.body.treeRoot = treeHash c.merkleHash (log.map fun entry => c.merkleHash (.leaf entry))

/-- Everything that is hashed for the roots of a log and its prefixes. -/
def prefixPreimages (c : AuditPrimitives) (log : List ProviderLogEntryBody) :
    Set (Preimage ProviderLogEntryBody Digest) :=
  {p | ∃ n, p ∈ (merkleTree (log.take n)).preimages c.merkleHash}

/-- Everything that is hashed when a proof of the journal is checked from an accepted head. -/
def ProviderAuditSnapshot.checked (c : AuditPrimitives) (s : ProviderAuditSnapshot) :
    Set (Preimage ProviderLogEntryBody Digest) :=
  {p | ∃ older ∈ s.acceptedHeads, ∃ record ∈ s.records, ∃ proof,
    record.consistencyProof = some proof ∧ p ∈ proof.checked c.merkleHash older.body.treeRoot}

/-- The later head does not go back, and every log that it commits to starts with a log that the
earlier head commits to, unless two of the hashed preimages collide. -/
structure Extends (c : AuditPrimitives) (checked : Set (Preimage ProviderLogEntryBody Digest))
    (older newer : SignedProviderHead) : Prop where
  size : older.body.treeSize ≤ newer.body.treeSize
  time : older.body.observedAt ≤ newer.body.observedAt
  log : ∀ log, newer.Commits c log → Set.InjOn c.merkleHash (prefixPreimages c log ∪ checked) →
    older.Commits c (log.take older.body.treeSize)

namespace Extends
variable {checked checked' : Set (Preimage ProviderLogEntryBody Digest)}
  {older newer newest : SignedProviderHead} {log : List ProviderLogEntryBody}

lemma refl (head : SignedProviderHead) : Extends c checked head head := by
  refine ⟨le_refl _, le_refl _, fun log h _ => ?_⟩
  rw [h.1, take_length]
  exact h

lemma prefixPreimages_take {n : Nat} : prefixPreimages c (log.take n) ⊆ prefixPreimages c log := by
  rintro p ⟨m, hp⟩
  rw [take_take] at hp
  exact ⟨_, hp⟩

lemma trans (h : Extends c checked older newer) (h' : Extends c checked newer newest) :
    Extends c checked older newest := by
  refine ⟨h.size.trans h'.size, h.time.trans h'.time, fun log hlog hinj => ?_⟩
  have hnewer := h'.log log hlog hinj
  have holder := h.log _ hnewer (hinj.mono (Set.union_subset_union_left _ prefixPreimages_take))
  rw [take_take, Nat.min_eq_left h.size] at holder
  exact holder

lemma mono (h : Extends c checked older newer) (hsub : checked ⊆ checked') :
    Extends c checked' older newer :=
  ⟨h.size, h.time, fun log hlog hinj =>
    h.log log hlog (hinj.mono (Set.union_subset_union_right _ hsub))⟩

lemma of_follows {consistencyProof : Option MerkleConsistencyProof}
    (h : Follows c older newer consistencyProof)
    (hchec : ∀ proof, consistencyProof = some proof →
      proof.checked c.merkleHash older.body.treeRoot ⊆ checked) :
    Extends c checked older newer := by
  refine ⟨h.size, h.time, fun log hlog hinj => ?_⟩
  rcases h.tree with ⟨hsize, hroot⟩ | ⟨proof, hproof, hold, hnew, hverify⟩
  · rw [hsize, hlog.1, take_length]
    exact ⟨hsize.trans hlog.1, hroot.trans hlog.2⟩
  · have hlen : older.body.treeSize ≤ log.length := h.size.trans_eq hlog.1
    refine ⟨by rw [length_take, Nat.min_eq_left hlen], ?_⟩
    rw [hlog.2] at hverify
    have htree : (merkleTree log).preimages c.merkleHash ⊆ prefixPreimages c log := by
      intro p hp
      exact ⟨log.length, by rwa [take_length]⟩
    obtain ⟨hroot, -⟩ := oldRoot_of_verify (hnew.trans hlog.1)
      (hinj.mono (Set.union_subset_union htree (hchec proof hproof))) hverify
    rw [hold] at hroot
    exact hroot

lemma isPrefix (h : Extends c checked older newer) {log' : List ProviderLogEntryBody}
    (hlog : newer.Commits c log) (hlog' : older.Commits c log')
    (hinj : Set.InjOn c.merkleHash (prefixPreimages c log ∪ prefixPreimages c log' ∪ checked)) :
    log' <+: log := by
  have hpref := h.log log hlog
    (hinj.mono (Set.union_subset_union_left _ Set.subset_union_left))
  have hroots := hpref.2.symm.trans hlog'.2
  rw [treeHash_eq_digest, treeHash_eq_digest] at hroots
  have hsame : log.take older.body.treeSize = log' := by
    refine eq_of_digest_merkleTree hroots (hinj.mono ?_)
    rintro p (hp | hp)
    · exact .inl (.inl ⟨_, hp⟩)
    · exact .inl (.inr ⟨log'.length, by rwa [take_length]⟩)
  rw [← hsame]
  exact take_prefix _ _

end Extends

/-! ## The accepted heads -/

namespace ProviderAuditSnapshot
variable {s : ProviderAuditSnapshot} {append : ProviderAuditAppend}

/-- The accepted heads extend one another, and the latest head is one of them that extends all. -/
structure Chain (c : AuditPrimitives) (s : ProviderAuditSnapshot) : Prop where
  first : s.latestHead = none → s.acceptedHeads = []
  member : ∀ head, s.latestHead = some head → head ∈ s.acceptedHeads
  tip : ∀ head, s.latestHead = some head → ∀ older ∈ s.acceptedHeads,
    Extends c (s.checked c) older head
  chain : s.acceptedHeads.Pairwise (Extends c (s.checked c))

variable {disposition : ProviderHeadAuditDisposition}

lemma acceptedHeads_accept (hstat : append.record.status = .accepted disposition) :
    (applyAuditAppend s append).acceptedHeads = s.acceptedHeads ++ [append.record.head] := by
  simp [acceptedHeads, applyAuditAppend, hstat]

lemma acceptedHeads_keep (hstat : ∀ disposition, append.record.status ≠ .accepted disposition) :
    (applyAuditAppend s append).acceptedHeads = s.acceptedHeads := by
  unfold acceptedHeads applyAuditAppend
  rw [filterMap_append]
  cases hcase : append.record.status with
  | accepted disposition => exact absurd hcase (hstat disposition)
  | rollback | equivocation => simp [hcase]

lemma mem_acceptedHeads_append {head : SignedProviderHead} (h : head ∈ s.acceptedHeads) :
    head ∈ (applyAuditAppend s append).acceptedHeads := by
  unfold acceptedHeads applyAuditAppend
  rw [filterMap_append]
  exact mem_append_left _ h

lemma checked_append : s.checked c ⊆ (applyAuditAppend s append).checked c := by
  rintro p ⟨older, holder, record, hrec, proof, hproof, hp⟩
  exact ⟨older, mem_acceptedHeads_append holder, record, mem_append_left _ hrec, proof, hproof, hp⟩

lemma Chain.keep (h : s.Chain c)
    (hstat : ∀ disposition, append.record.status ≠ .accepted disposition)
    (hlat : append.latestHead = s.latestHead) : (applyAuditAppend s append).Chain c := by
  have hheads := acceptedHeads_keep (s := s) hstat
  have hsame : (applyAuditAppend s append).latestHead = s.latestHead := hlat
  refine ⟨?_, ?_, ?_, ?_⟩
  · rw [hheads, hsame]
    exact h.first
  · rw [hheads, hsame]
    exact h.member
  · rw [hheads, hsame]
    exact fun head hhead older holder => (h.tip head hhead older holder).mono checked_append
  · rw [hheads]
    exact h.chain.imp fun hextends => hextends.mono checked_append

lemma Chain.extends_head (h : s.Chain c)
    (hfollows : ∀ previous, s.latestHead = some previous → Follows c previous
      append.record.head append.record.consistencyProof)
    {older : SignedProviderHead} (holder : older ∈ s.acceptedHeads) :
    Extends c ((applyAuditAppend s append).checked c) older append.record.head := by
  cases hlat : s.latestHead with
  | none =>
    rw [h.first hlat] at holder
    cases holder
  | some previous =>
    refine ((h.tip previous hlat older holder).mono checked_append).trans
      (.of_follows (hfollows previous hlat) fun proof hproof p hp => ?_)
    exact ⟨previous, mem_acceptedHeads_append (h.member previous hlat), append.record,
      mem_append_right _ (mem_singleton_self _), proof, hproof, hp⟩

lemma Chain.accept (h : s.Chain c) (hstat : append.record.status = .accepted disposition)
    (hlat : append.latestHead = some append.record.head)
    (hfollows : ∀ previous, s.latestHead = some previous → Follows c previous
      append.record.head append.record.consistencyProof) : (applyAuditAppend s append).Chain c := by
  have hheads := acceptedHeads_accept (s := s) hstat
  have hlast : (applyAuditAppend s append).latestHead = some append.record.head := hlat
  refine ⟨?_, ?_, ?_, ?_⟩
  · intro hnone
    rw [hlast] at hnone
    cases hnone
  · intro head hhead
    rw [hlast] at hhead
    cases hhead
    rw [hheads]
    exact mem_append_right _ (mem_singleton_self _)
  · intro head hhead older holder
    rw [hlast] at hhead
    cases hhead
    rw [hheads, mem_append, mem_singleton] at holder
    rcases holder with holder | rfl
    · exact h.extends_head hfollows holder
    · exact .refl _
  · rw [hheads, pairwise_append]
    refine ⟨h.chain.imp fun hextends => hextends.mono checked_append, pairwise_singleton _ _,
      fun older holder newer hnewer => ?_⟩
    rw [mem_singleton] at hnewer
    rw [hnewer]
    exact h.extends_head hfollows holder

end ProviderAuditSnapshot

/-! ## The store -/

namespace AuditStore
variable {provider : ProviderDescriptor} {logId : ProviderLogId} {s s' : AuditStore}
  {append : ProviderAuditAppend} {expectedRevision : Nat}

/-- The journal replays to its stored head and evidence, and its accepted heads extend one another;
the stored head extends all of them. -/
structure Inv (c : AuditPrimitives) (provider : ProviderDescriptor) (logId : ProviderLogId)
    (s : AuditStore) : Prop where
  origin : s.snapshot.provider = provider ∧ s.snapshot.logId = logId
  revision : s.snapshot.revision = s.snapshot.records.length
  bounded : s.snapshot.records.length ≤ MAX_PROVIDER_AUDIT_RECORDS
  replay : replayRecords c (.new s.snapshot.provider s.snapshot.logId) 0 s.snapshot.records =
    .ok ⟨s.snapshot.provider, s.snapshot.logId, s.snapshot.latestHead, s.snapshot.equivocation⟩
  head : ∀ head, s.snapshot.latestHead = some head →
    head.verify c s.snapshot.provider = .ok () ∧ head.body.logId = s.snapshot.logId
  evidence : ∀ evidence, s.snapshot.equivocation = some evidence →
    evidence.verify c s.snapshot.provider = .ok ()
  accounting : ofRecords c s.snapshot.records = .ok s.portableAccounting
  accounted : s.portableAccounting.records = s.snapshot.records.length
  heads : s.snapshot.Chain c

lemma inv_new (provider : ProviderDescriptor) (logId : ProviderLogId) :
    (new provider logId).Inv c provider logId where
  origin := ⟨rfl, rfl⟩
  revision := rfl
  bounded := Nat.zero_le _
  replay := rfl
  head _ h := by cases h
  evidence _ h := by cases h
  accounting := rfl
  accounted := rfl
  heads := ⟨fun _ => rfl, nofun, nofun, List.Pairwise.nil⟩

lemma isOk_of_eq {α : Type} {x : Except IdentityError α} {a : α} (h : x = .ok a) :
    x.isOk = true := by
  rw [h]
  rfl

lemma Inv.validate (h : s.Inv c provider logId) : s.snapshot.validate c = .ok () := by
  have hhead : ∀ head, s.snapshot.latestHead = some head →
      (head.verify c s.snapshot.provider).isOk = true ∧ head.body.logId = s.snapshot.logId :=
    fun head hlat => ⟨isOk_of_eq (h.head head hlat).1, (h.head head hlat).2⟩
  have hevidence : ∀ evidence, s.snapshot.equivocation = some evidence →
      (evidence.verify c s.snapshot.provider).isOk = true :=
    fun evidence heq => isOk_of_eq (h.evidence evidence heq)
  have htip : s.snapshot.validateTip c ⟨s.snapshot.provider, s.snapshot.logId,
      s.snapshot.latestHead, s.snapshot.equivocation⟩ = .ok () := by
    unfold ProviderAuditSnapshot.validateTip
    cases hlat : s.snapshot.latestHead with
    | none =>
      cases heq : s.snapshot.equivocation with
      | none => simp [reject, bind, Except.bind]
      | some evidence => simp [reject, bind, Except.bind, hevidence evidence heq]
    | some head =>
      obtain ⟨hok, hlog⟩ := hhead head hlat
      cases heq : s.snapshot.equivocation with
      | none => simp [reject, bind, Except.bind, hok, hlog]
      | some evidence => simp [reject, bind, Except.bind, hok, hlog, hevidence evidence heq]
  simp only [ProviderAuditSnapshot.validate, bind_ok, reject_ok, not_or, not_lt, not_not]
  exact ⟨(), ⟨h.bounded, h.revision⟩, _, h.replay, (), htip, _, h.accounting, rfl⟩

def tipAuditor (s : AuditStore) : ProviderHeadAuditor :=
  ⟨s.snapshot.provider, s.snapshot.logId, s.snapshot.latestHead, none⟩

section
variable (h : s.Inv c provider logId)
include h

lemma compareAndAppend_ok (hok : s.compareAndAppend c expectedRevision append = .ok s') :
    s.snapshot.equivocation = none ∧ s'.snapshot = applyAuditAppend s.snapshot append ∧
      s.portableAccounting.withAppendedRecord c append.record = .ok s'.portableAccounting ∧
      append.record.sequence = s.snapshot.records.length + 1 ∧
      append.record.head.body.logId = s.snapshot.logId ∧
      append.record.status.matchesOutcome
        (s.tipAuditor.observe c append.record.head append.record.consistencyProof).2 = true ∧
      (s.tipAuditor.observe c append.record.head append.record.consistencyProof).1 =
        ⟨s.snapshot.provider, s.snapshot.logId, append.latestHead, append.equivocation⟩ := by
  simp only [compareAndAppend, validateAuditSuccessor, bind_ok, reject_ok, pure_ok] at hok
  obtain ⟨_, -, _, ⟨_, hnone, sequence, hseq, _, hrec, seeded, hseed, htip⟩, accounting,
    hacc, rfl⟩ := hok
  cases seededAuditor_ok hseed
  obtain ⟨hrec, hlog⟩ := not_or.mp hrec
  obtain ⟨hstat, htip⟩ := not_or.mp htip
  obtain ⟨hlat, hequiv⟩ := not_or.mp htip
  refine ⟨by simpa using hnone, rfl, hacc, ?_, not_not.mp hlog, ?_, ?_⟩
  · rw [not_not.mp hrec, checkedAdd_ok hseq, h.revision]
  · exact Bool.eq_true_of_not_eq_false hstat
  · obtain ⟨hprov, hlogId⟩ := provider_outcome (@ProviderHeadAuditor.observe_outcome c
      s.tipAuditor append.record.head append.record.consistencyProof)
    rw [← not_not.mp hlat, ← not_not.mp hequiv]
    exact ProviderHeadAuditor.ext hprov hlogId rfl rfl

lemma Inv.replay_append (hok : s.compareAndAppend c expectedRevision append = .ok s') :
    replayRecords c (.new s.snapshot.provider s.snapshot.logId) 0
        (s.snapshot.records ++ [append.record]) =
      .ok ⟨s.snapshot.provider, s.snapshot.logId, append.latestHead, append.equivocation⟩ := by
  obtain ⟨hnone, -, -, hseq, hlog, hstat, haud⟩ := compareAndAppend_ok h hok
  have hreplay := h.replay
  rw [hnone] at hreplay
  rw [← haud]
  exact replayRecords_concat hreplay (by rw [hseq, Nat.zero_add]) hlog hstat

lemma Inv.tip_append (hok : s.compareAndAppend c expectedRevision append = .ok s') :
    (∃ disposition, append.record.status = .accepted disposition ∧
        append.latestHead = some append.record.head ∧ append.equivocation = none ∧
        append.record.head.verify c s.snapshot.provider = .ok () ∧
        ∀ previous, s.snapshot.latestHead = some previous → ProviderHeadAuditor.Follows c previous
          append.record.head append.record.consistencyProof) ∨
      ((∀ disposition, append.record.status ≠ .accepted disposition) ∧
        append.latestHead = s.snapshot.latestHead ∧
        ∀ evidence, append.equivocation = some evidence →
          evidence.verify c s.snapshot.provider = .ok ()) := by
  obtain ⟨-, -, -, -, -, hstat, haud⟩ := compareAndAppend_ok h hok
  have hout := @ProviderHeadAuditor.observe_outcome c s.tipAuditor append.record.head
    append.record.consistencyProof
  generalize hres : (s.tipAuditor.observe c append.record.head
    append.record.consistencyProof).2 = result at hout hstat
  rw [haud] at hout
  generalize hnext : ProviderHeadAuditor.mk s.snapshot.provider s.snapshot.logId append.latestHead
    append.equivocation = next at hout
  have hlat : append.latestHead = next.latest := by rw [← hnext]
  have hequiv : append.equivocation = next.equivocation := by rw [← hnext]
  have href : ∀ e, append.record.status.matchesOutcome (.error e) = true →
      ∀ disposition, append.record.status ≠ .accepted disposition := by
    intro e he disposition hcase
    rw [hcase] at he
    cases he
  cases hout with
  | accepted disposition hverify hlog hfollows =>
    refine .inl ⟨disposition, ?_, hlat, hequiv, hverify, hfollows⟩
    cases hcase : append.record.status with
    | accepted expected =>
      rw [hcase] at hstat
      rw [of_decide_eq_true hstat]
    | rollback | equivocation => rw [hcase] at hstat; cases hstat
  | equivocated evidence hverify =>
    refine .inr ⟨href _ hstat, hlat, fun other hoth => ?_⟩
    rw [hequiv] at hoth
    cases hoth
    exact hverify
  | rejected e =>
    refine .inr ⟨href _ hstat, hlat, fun other hoth => ?_⟩
    rw [hequiv] at hoth
    cases hoth

lemma Inv.compareAndAppend
    (hok : s.compareAndAppend c expectedRevision append = .ok s') : s'.Inv c provider logId := by
  obtain ⟨hnone, hsnap, hacc, hseq, hlog, -, -⟩ := compareAndAppend_ok h hok
  obtain ⟨snapshot', accounting'⟩ := s'
  cases hsnap
  obtain ⟨hcoun, hmax⟩ := withAppendedRecord_ok hacc
  have hlen : (applyAuditAppend s.snapshot append).records.length =
      s.snapshot.records.length + 1 := by simp [applyAuditAppend]
  have hrecor : accounting'.records = (applyAuditAppend s.snapshot append).records.length := by
    rw [hlen, ← h.accounted]
    exact hcoun
  refine ⟨h.origin, hseq.trans hlen.symm, hrecor ▸ hmax, h.replay_append hok, ?_, ?_,
    ofRecords_concat h.accounting hacc, hrecor, ?_⟩
  · intro head hhead
    rcases h.tip_append hok with ⟨-, -, hlat, -, hverify, -⟩ | ⟨-, hlat, -⟩
    · cases hlat.symm.trans hhead
      exact ⟨hverify, hlog⟩
    · exact h.head head (hlat.symm.trans hhead)
  · intro evidence hevidence
    rcases h.tip_append hok with ⟨-, -, -, hnoev, -⟩ | ⟨-, -, hverify⟩
    · cases hnoev.symm.trans hevidence
    · exact hverify evidence hevidence
  · rcases h.tip_append hok with ⟨_, hstat, hlat, -, -, hfollows⟩ | ⟨hstat, hlat, -⟩
    · exact h.heads.accept hstat hlat hfollows
    · exact h.heads.keep hstat hlat

end

lemma compareAndAppend_equivocation (h : s.snapshot.equivocation.isSome = true) :
    ∃ e, s.compareAndAppend c expectedRevision append = .error e := by
  cases hok : s.compareAndAppend c expectedRevision append with
  | error e => exact ⟨e, rfl⟩
  | ok s' =>
    simp only [AuditStore.compareAndAppend, validateAuditSuccessor, bind_ok, reject_ok] at hok
    obtain ⟨_, -, _, ⟨_, hnone, -⟩, -⟩ := hok
    exact absurd h hnone

end AuditStore

/-! ## Concurrent calls -/

/-- What a call has to show for an accepted disposition: the record that it is about to append, or
the record in the journal. -/
def AuditCall.Sound (records : List ProviderAuditRecord) (call : AuditCall) : Prop :=
  match call.phase with
  | .loading _ => True
  | .appending _ _ append result =>
    append.record.head = call.head ∧ append.record.consistencyProof = call.consistencyProof ∧
      ∀ disposition, result = .ok disposition → append.record.status = .accepted disposition
  | .returned result => ∀ disposition, result = .ok disposition → ∃ record ∈ records,
      record.head = call.head ∧ record.consistencyProof = call.consistencyProof ∧
        record.status = .accepted disposition

lemma AuditCall.Sound.mono {records records' : List ProviderAuditRecord} {call : AuditCall}
    (h : call.Sound records) (hsub : records ⊆ records') : call.Sound records' := by
  obtain ⟨head, consistencyProof, phase⟩ := call
  cases phase with
  | loading => trivial
  | appending => exact h
  | returned result =>
    intro disposition hres
    obtain ⟨record, hrec, hsame⟩ := h disposition hres
    exact ⟨record, hsub hrec, hsame⟩

lemma judgeCursor_ok {cursor : ProviderAuditCursor} {append : ProviderAuditAppend}
    (h : judgeCursor c cursor head consistencyProof = .ok (append, result)) :
    append.record.head = head ∧ append.record.consistencyProof = consistencyProof ∧
      ∀ disposition, result = .ok disposition → append.record.status = .accepted disposition := by
  simp only [judgeCursor, bind_ok, reject_ok, pure_ok, Prod.mk.injEq] at h
  obtain ⟨_, -, auditor, -, status, hstat, _, -, _, -, rfl, hres⟩ := h
  refine ⟨rfl, rfl, fun disposition hok => ?_⟩
  rw [hres, hok] at hstat
  exact (Except.ok.inj hstat).symm

namespace AuditSystem
variable {provider : ProviderDescriptor} {logId : ProviderLogId} {sys : AuditSystem} {i : Nat}
  {event : AuditEvent}

structure Inv (c : AuditPrimitives) (provider : ProviderDescriptor) (logId : ProviderLogId)
    (sys : AuditSystem) : Prop where
  store : sys.store.Inv c provider logId
  calls : ∀ call ∈ sys.calls, call.Sound sys.store.snapshot.records

lemma inv_new (provider : ProviderDescriptor) (logId : ProviderLogId) :
    (new provider logId).Inv c provider logId :=
  ⟨AuditStore.inv_new provider logId, fun _ h => by cases h⟩

variable {phase : AuditPhase}

lemma mem_setPhase {call : AuditCall} (h : call ∈ (sys.setPhase i phase).calls) :
    call ∈ sys.calls ∨ ∃ old, sys.calls[i]? = some old ∧ call = { old with phase := phase } := by
  obtain ⟨j, hj⟩ := mem_iff_getElem?.mp h
  simp only [setPhase, getElem?_modify, Option.map_eq_map, Option.map_eq_some_iff] at hj
  obtain ⟨old, hold, hcall⟩ := hj
  split at hcall
  · rename_i hij
    exact .inr ⟨old, hij ▸ hold, hcall.symm⟩
  · exact .inl (hcall ▸ mem_of_getElem? hold)

section
variable (h : sys.Inv c provider logId)
include h

/-- The invariant is kept when the journal grows and the phase of one call is set soundly. -/
lemma Inv.setPhase {store : AuditStore} (hstor : store.Inv c provider logId)
    (hgrow : sys.store.snapshot.records ⊆ store.snapshot.records)
    (hphase : ∀ old, sys.calls[i]? = some old →
      AuditCall.Sound store.snapshot.records { old with phase := phase }) :
    (AuditSystem.setPhase { sys with store := store } i phase).Inv c provider logId := by
  refine ⟨hstor, fun call hcall => ?_⟩
  rcases mem_setPhase hcall with hmem | ⟨old, hold, rfl⟩
  · exact (h.calls call hmem).mono hgrow
  · exact hphase old hold

lemma Inv.fail (e : IdentityError) : (sys.setPhase i (.returned (.error e))).Inv c provider logId :=
  h.setPhase h.store (fun _ hr => hr) fun _ _ _ hres => by cases hres

lemma Inv.load : (sys.load c i).Inv c provider logId := by
  fun_cases AuditSystem.load c sys i with
  | case3 head consistencyProof rounds hcall append result hjud =>
    refine h.setPhase h.store (fun _ hr => hr) fun old hold => ?_
    cases hcall.symm.trans hold
    exact judgeCursor_ok hjud
  | case4 => exact h
  | _ => exact h.fail _

lemma Inv.append : (sys.append c i).Inv c provider logId := by
  unfold AuditSystem.append
  split
  · rename_i head consistencyProof rounds expectedRevision append result hcall
    split
    · rename_i store hok
      have hsnap := (AuditStore.compareAndAppend_ok h.store hok).2.1
      refine h.setPhase (h.store.compareAndAppend hok) ?_ fun old hold => ?_
      · rw [hsnap]
        exact subset_append_left _ _
      · cases hcall.symm.trans hold
        obtain ⟨hhead, hproof, haccep⟩ := h.calls _ (mem_of_getElem? hcall)
        intro disposition hres
        refine ⟨append.record, ?_, hhead, hproof, haccep disposition hres⟩
        rw [hsnap]
        exact mem_append_right _ (mem_singleton_self _)
    · exact h.setPhase h.store (fun _ hr => hr) fun _ _ => trivial
    · exact h.fail _
  · exact h

lemma Inv.step : (sys.step c event).Inv c provider logId := by
  cases event with
  | observe head consistencyProof =>
    refine ⟨h.store, fun call hcall => ?_⟩
    rcases mem_append.mp hcall with hcall | hcall
    · exact h.calls call hcall
    · cases mem_singleton.mp hcall
      trivial
  | load i => exact h.load
  | append i => exact h.append

end

lemma inv_run (provider : ProviderDescriptor) (logId : ProviderLogId) (events : List AuditEvent) :
    (run (step c) (new provider logId) events).Inv c provider logId := by
  induction events using reverseRecOn with
  | nil => exact inv_new provider logId
  | append_singleton events event ih =>
    rw [run_append]
    exact ih.step

/-! ## After evidence -/

/-- Nothing is accepted any more: the store is the same one, and a call that has returned an
accepted disposition had done so before. -/
def Closed (sys later : AuditSystem) : Prop :=
  later.store = sys.store ∧ ∀ call ∈ later.calls, ∀ disposition,
    call.phase = .returned (.ok disposition) → call ∈ sys.calls

lemma Closed.trans {later latest : AuditSystem} (h : Closed sys later)
    (h' : Closed later latest) : Closed sys latest :=
  ⟨h'.1.trans h.1, fun call hcall disposition hphase =>
    h.2 call (h'.2 call hcall disposition hphase) disposition hphase⟩

lemma closed_setPhase (hphase : ∀ disposition, phase ≠ .returned (.ok disposition)) :
    Closed sys (sys.setPhase i phase) := by
  refine ⟨rfl, fun call hcall disposition hok => ?_⟩
  rcases mem_setPhase hcall with hmem | ⟨old, -, rfl⟩
  · exact hmem
  · exact absurd hok (hphase disposition)

lemma judgeCursor_equivocation {cursor : ProviderAuditCursor} {head : SignedProviderHead}
    {consistencyProof : Option MerkleConsistencyProof} (h : cursor.equivocation.isSome = true) :
    judgeCursor c cursor head consistencyProof = .error .providerEquivocation := by
  simp [judgeCursor, reject, h, bind, Except.bind]

lemma closed_step (h : sys.store.snapshot.equivocation.isSome = true) :
    Closed sys (sys.step c event) := by
  have hsame : Closed sys sys := ⟨rfl, fun _ hcall _ _ => hcall⟩
  cases event with
  | observe head consistencyProof =>
    refine ⟨rfl, fun call hcall disposition hphase => ?_⟩
    rcases mem_append.mp hcall with hcall | hcall
    · exact hcall
    · cases mem_singleton.mp hcall
      cases hphase
  | load i =>
    show Closed sys (sys.load c i)
    unfold AuditSystem.load
    split
    · exact closed_setPhase nofun
    · rw [judgeCursor_equivocation h]
      exact closed_setPhase nofun
    · exact hsame
  | append i =>
    show Closed sys (sys.append c i)
    unfold AuditSystem.append
    split
    · rename_i expectedRevision append result hcall
      have href : ∃ e, sys.store.compareAndAppend c expectedRevision append = .error e :=
        AuditStore.compareAndAppend_equivocation h
      obtain ⟨e, he⟩ := href
      rw [he]
      split
      · rename_i hok
        cases hok
      · exact closed_setPhase nofun
      · exact closed_setPhase nofun
    · exact hsame

lemma closed_run (h : sys.store.snapshot.equivocation.isSome = true) (events : List AuditEvent) :
    Closed sys (run (step c) sys events) := by
  induction events using reverseRecOn with
  | nil => exact ⟨rfl, fun _ hcall _ _ => hcall⟩
  | append_singleton events event ih =>
    rw [run_append]
    refine ih.trans (closed_step ?_)
    rw [ih.1]
    exact h

/-- In every interleaving of durable audits over one store, the journal passes its
validation and replays to its latest head and evidence, every accepted audit has its record, the
accepted heads never go back and commit to logs that extend one another, and evidence of
equivocation ends the journal. -/
theorem journal_sound (provider : ProviderDescriptor) (logId : ProviderLogId)
    (events : List AuditEvent) :
    let sys := run (step c) (new provider logId) events
    let journal := sys.store.snapshot
    journal.validate c = .ok () ∧
    replayRecords c (.new provider logId) 0 journal.records =
      .ok ⟨provider, logId, journal.latestHead, journal.equivocation⟩ ∧
    (∀ call ∈ sys.calls, ∀ disposition, call.phase = .returned (.ok disposition) →
      ∃ record ∈ journal.records, record.head = call.head ∧
        record.consistencyProof = call.consistencyProof ∧
        record.status = .accepted disposition) ∧
    (journal.acceptedHeads.Pairwise fun older newer =>
      older.body.treeSize ≤ newer.body.treeSize ∧ older.body.observedAt ≤ newer.body.observedAt ∧
      ∀ log log', older.Commits c log → newer.Commits c log' →
        Set.InjOn c.merkleHash
          (prefixPreimages c log' ∪ prefixPreimages c log ∪ journal.checked c) →
        log <+: log') ∧
    (journal.equivocation.isSome = true → ∀ later, sys.Closed (run (step c) sys later)) := by
  intro sys journal
  have h : sys.Inv c provider logId := inv_run provider logId events
  refine ⟨h.store.validate, ?_, ?_, ?_, fun hevidence later => closed_run hevidence later⟩
  · have hreplay := h.store.replay
    rw [h.store.origin.1, h.store.origin.2] at hreplay
    exact hreplay
  · intro call hcall disposition hphase
    have hsound := h.calls call hcall
    obtain ⟨head, consistencyProof, phase⟩ := call
    cases hphase
    exact hsound disposition rfl
  · refine h.store.heads.chain.imp fun hextends => ⟨hextends.size, hextends.time, ?_⟩
    exact fun log log' hlog hlog' hinj => hextends.isPrefix hlog' hlog hinj

end AuditSystem
end Krikos.Identity
