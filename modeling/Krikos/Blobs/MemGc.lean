import Krikos.Blobs.GcSafety
import Krikos.Lib.Run

/-!
# Blobs.MemGc

The in-memory store with garbage collection running beside other clients.

`GcPhase` is a run between two of its calls. One step of a phase makes at most one call, and
running a phase alone is running its program (`GcPhase.run_program`). In a `System` the steps of
the run interleave with the commands of other clients, with imports that finish, and with temp
tags that are dropped. `Kept` says that what an import stores during a run stays while its temp
tag is held.

The store never adds to its protected hashes, so this depends on the phase in which the import
finishes: `kept_of_spares` gives the imports that are safe.
-/

namespace Krikos.Blobs

open Lib List Calls

/-! ## Phases of a run -/

inductive GcPhase where
  | clear (live : Finset Hash)
  | tags (live : Finset Hash)
  | tempTags (live : Finset Hash) (roots : List HashAndFormat)
  | mark (live : Finset Hash) (todo : List HashAndFormat)
  | blobs (live : Finset Hash)
  | sweep (live : Finset Hash) (todo : List (Except String Hash)) (batch : List Hash)
  | sync (live : Finset Hash)
  | ended (result : Except String (Finset Hash))

namespace GcPhase

/-- What is left of `gcRunOnce`. -/
def program (order : Order) : GcPhase → Client (Finset Hash)
  | clear live => gcRunOnce order live
  | tags live => do
    let live ← gcMarkTask order live
    gcSweepTask live
    pure live
  | tempTags live roots => do
    let answer ← ask .listTempTags
    let tts ← check answer
    let live ← markRoots (order.visit (insertTempTags roots tts)) live
    gcSweepTask live
    pure live
  | mark live todo => do
    let live ← markRoots todo live
    gcSweepTask live
    pure live
  | blobs live => do
    gcSweepTask live
    pure live
  | sweep live todo batch => do
    let batch ← sweepBlobs live todo batch
    finishSweep batch
    pure live
  | sync live => do
    syncDb
    pure live
  | ended result => check result

def next {α : Type} (f : α → GcPhase) : Except String α → GcPhase
  | .ok a => f a
  | .error e => ended (.error e)

/-- One step, with at most one call. -/
def step {σ : Type} (order : Order) (handle : (req : Request) → σ → σ × req.Response) :
    GcPhase → σ → GcPhase × σ
  | clear live, s =>
    (next (fun _ => tags live) (handle .clearProtected s).2, (handle .clearProtected s).1)
  | tags live, s =>
    (next (fun items => next (tempTags live) (insertTags [] items)) (handle .listTags s).2,
      (handle .listTags s).1)
  | tempTags live roots, s =>
    (next (fun tts => mark live (order.visit (insertTempTags roots tts)))
      (handle .listTempTags s).2, (handle .listTempTags s).1)
  | mark live [], s => (blobs live, s)
  | mark live (root :: todo), s =>
    if reads live root then
      (mark (markChildren (insert root.hash live) (hashes (handle (.exportBao root.hash) s).2)) todo,
        (handle (.exportBao root.hash) s).1)
    else (mark (insert root.hash live) todo, s)
  | blobs live, s =>
    (next (fun items => sweep live items []) (handle .listBlobs s).2, (handle .listBlobs s).1)
  | sweep live [] batch, s =>
    if batch.isEmpty then (sync live, s)
    else (next (fun _ => sync live) (handle (.deleteBlobs batch false) s).2,
      (handle (.deleteBlobs batch false) s).1)
  | sweep _ (.error e :: _) _, s => (ended (.error e), s)
  | sweep live (.ok hash :: todo) batch, s =>
    if (pushDead live batch hash).length ≥ 100 then
      (next (fun _ => sweep live todo [])
        (handle (.deleteBlobs (pushDead live batch hash) false) s).2,
        (handle (.deleteBlobs (pushDead live batch hash) false) s).1)
    else (sweep live todo (pushDead live batch hash), s)
  | sync live, s => (next (fun _ => ended (.ok live)) (handle .syncDb s).2, (handle .syncDb s).1)
  | ended result, s => (ended result, s)

lemma run_program {σ : Type} (order : Order) (handle : (req : Request) → σ → σ × req.Response)
    (phase : GcPhase) (s : σ) : (phase.program order).run handle s =
      ((phase.step order handle s).1.program order).run handle (phase.step order handle s).2 := by
  cases phase with
  | clear live =>
    simp only [program, step, gcRunOnce, run_ask_bind]
    cases (handle .clearProtected s).2 <;> rfl
  | tags live =>
    simp only [program, step, gcMarkTask, bind_assoc, run_ask_bind]
    cases (handle .listTags s).2 with
    | error e => rfl
    | ok items =>
      rw [run_check_bind_ok, next]
      cases insertTags [] items <;> rfl
  | tempTags live roots =>
    simp only [program, step, run_ask_bind]
    cases (handle .listTempTags s).2 <;> rfl
  | mark live todo =>
    cases todo with
    | nil => rfl
    | cons root todo =>
      simp only [program, step, markRoots, markRoot]
      split <;> rfl
  | blobs live =>
    simp only [program, step, gcSweepTask, bind_assoc, run_ask_bind]
    cases (handle .listBlobs s).2 with
    | error e => rfl
    | ok items => simp only [run_check_bind_ok, next]
  | sweep live todo batch =>
    cases todo with
    | nil =>
      show (finishSweep batch >>= fun _ => pure live).run handle s = _
      by_cases hemp : batch.isEmpty = true
      · have hstep : step order handle (sweep live [] batch) s = _ := if_pos hemp
        rw [hstep, finishSweep, if_pos hemp]
        rfl
      · have hstep : step order handle (sweep live [] batch) s = _ := if_neg hemp
        rw [hstep, finishSweep, if_neg hemp, delete]
        simp only [bind_assoc, run_ask_bind]
        cases (handle (.deleteBlobs batch false) s).2 <;> rfl
    | cons item todo =>
      cases item with
      | error e => rfl
      | ok hash =>
        simp only [program, sweepBlobs, bind_assoc, run_check_bind_ok]
        by_cases hfull : (pushDead live batch hash).length ≥ 100
        · have hstep : step order handle (sweep live (.ok hash :: todo) batch) s = _ := if_pos hfull
          rw [hstep, if_pos hfull, delete]
          simp only [bind_assoc, run_ask_bind]
          cases (handle (.deleteBlobs (pushDead live batch hash) false) s).2 <;> rfl
        · have hstep : step order handle (sweep live (.ok hash :: todo) batch) s = _ := if_neg hfull
          rw [hstep, if_neg hfull]
  | sync live =>
    simp only [program, step, syncDb, bind_assoc, run_ask_bind]
    cases (handle .syncDb s).2 <;> rfl
  | ended result => rfl

section
variable {σ : Type} {order : Order} {handle : (req : Request) → σ → σ × req.Response} {s : σ}
  {phase : GcPhase} {live : Finset Hash}

variable (order handle) in
/-- The steps from a phase end, with the store and the result of its program. -/
def Ends (phase : GcPhase) (s : σ) : Prop :=
  ∃ n s' result, (fun x => x.1.step order handle x.2)^[n] (phase, s) = (ended result, s') ∧
    (phase.program order).run handle s = (s', result)

lemma Ends.step
    (h : Ends order handle (phase.step order handle s).1 (phase.step order handle s).2) :
    Ends order handle phase s := by
  obtain ⟨n, s', result, hsteps, hrun⟩ := h
  exact ⟨n + 1, s', result, hsteps, (run_program order handle phase s).trans hrun⟩

lemma ends_ended (result : Except String (Finset Hash)) : Ends order handle (ended result) s :=
  ⟨0, s, result, rfl, by cases result <;> rfl⟩

lemma ends_next {α : Type} {f : α → GcPhase} {answer : Except String α}
    (h : ∀ a, Ends order handle (f a) s) : Ends order handle (next f answer) s := by
  cases answer with
  | error e => exact ends_ended _
  | ok a => exact h a

lemma ends_sync : Ends order handle (sync live) s := .step (ends_next fun _ => ends_ended _)

lemma ends_sweep (todo : List (Except String Hash)) (batch : List Hash) :
    Ends order handle (sweep live todo batch) s := by
  apply Ends.step
  induction todo generalizing batch s with
  | nil =>
    rw [GcPhase.step]
    split
    · exact ends_sync
    · exact ends_next fun _ => ends_sync
  | cons item todo ih =>
    cases item with
    | error e => exact ends_ended _
    | ok hash =>
      rw [GcPhase.step]
      split
      · exact ends_next fun _ => .step (ih [])
      · exact .step (ih _)

lemma ends_mark (todo : List HashAndFormat) : Ends order handle (mark live todo) s := by
  apply Ends.step
  induction todo generalizing live s with
  | nil => exact .step (ends_next fun items => ends_sweep items [])
  | cons root todo ih =>
    rw [GcPhase.step]
    split
    · exact .step ih
    · exact .step ih

end

/-- Whatever the store answers, the steps of a run end, with the store and the result of
`gcRunOnce`. -/
theorem ends_clear {σ : Type} (order : Order) (handle : (req : Request) → σ → σ × req.Response)
    (live : Finset Hash) (s : σ) : Ends order handle (clear live) s := by
  have htempTags : ∀ s roots, Ends order handle (tempTags live roots) s := fun _ _ =>
    .step (ends_next fun _ => ends_mark _)
  have htags : ∀ s, Ends order handle (tags live) s := fun _ =>
    .step (ends_next fun _ => ends_next (htempTags _))
  exact .step (ends_next fun _ => htags _)

/-- The rest of the run does not delete the hash if its temp tags are not listed again: the hash
is live or a root to visit, or it is not among the listed blobs. -/
def Spares (hash : Hash) : GcPhase → Prop
  | clear _ => True
  | tags _ => True
  | tempTags _ _ => True
  | mark live todo => hash ∈ live ∨ ∃ root ∈ todo, root.hash = hash
  | blobs live => hash ∈ live
  | sweep live todo batch => hash ∉ batch ∧ (hash ∈ live ∨ .ok hash ∉ todo)
  | sync _ => True
  | ended _ => True

instance (hash : Hash) (phase : GcPhase) : Decidable (phase.Spares hash) := by
  cases phase <;> unfold Spares <;> infer_instance

end GcPhase

namespace Mem

/-! ## The system -/

/-- A temp tag that a client holds; `duringRun` if an import returned it during the current run. -/
structure HeldTag where
  scope : Scope
  content : HashAndFormat
  duringRun : Bool
  deriving DecidableEq

structure System (bao : Bao) where
  actor : Actor bao
  gc : GcPhase
  held : List HeldTag

inductive Event (bao : Bao) where
  | command (cmd : Command)
  /-- The actor takes the result of an import task. -/
  | finishImport (res : Except String ImportEntry)
  /-- A task of `import_bao` writes to its entry. -/
  | write (hash : Hash) (storage : BaoFileStorage bao.Partial)
  | dropTag (tag : HeldTag)
  /-- The batch of a scope ends, which releases its tags. -/
  | endScope (scope : Scope)
  | startGc (external : Finset Hash)
  | gc

namespace System
variable {bao : Bao}

def new (bao : Bao) : System bao := ⟨.new bao, .ended (.ok ∅), []⟩

variable (sys : System bao)

def running : Bool :=
  match sys.gc with
  | .ended _ => false
  | _ => true

def returned : Command → List HeldTag
  | .createTempTag scope value => [⟨scope, value, false⟩]
  | _ => []

def step (order : Order) (sys : System bao) : Event bao → System bao
  | .command cmd =>
    { sys with actor := sys.actor.handleCommand cmd, held := returned cmd ++ sys.held }
  | .finishImport (.error _) => sys
  | .finishImport (.ok entry) =>
    { sys with
      actor := sys.actor.finishImport entry
      held := ⟨entry.scope, ⟨bao.blake3 entry.data, entry.format⟩, sys.running⟩ :: sys.held }
  | .write hash storage => { sys with actor := sys.actor.modifyPartial hash storage }
  | .dropTag tag =>
    if sys.held.contains tag then
      { sys with
        actor := { sys.actor with tempTags := sys.actor.tempTags.drop tag.scope tag.content }
        held := sys.held.erase tag }
    else sys
  | .endScope scope =>
    { sys with
      actor := { sys.actor with tempTags := sys.actor.tempTags.endScope scope }
      held := sys.held.filter fun tag => tag.scope != scope }
  | .startGc external =>
    if sys.running then sys
    else { sys with
      gc := .clear external
      held := sys.held.map fun tag => { tag with duringRun := false } }
  | .gc =>
    { sys with
      actor := (sys.gc.step order Actor.handle sys.actor).2
      gc := (sys.gc.step order Actor.handle sys.actor).1 }

/-- What an import stored during the run is there while its temp tag is held. -/
def Kept : Prop :=
  ∀ tag ∈ sys.held, tag.duringRun = true → (sys.actor.get tag.content.hash).isSome = true

/-- An import finishes where the run spares its hash. -/
def Spared : Event bao → Prop
  | .finishImport (.ok entry) => sys.gc.Spares (bao.blake3 entry.data)
  | _ => True

instance (sys : System bao) (event : Event bao) : Decidable (sys.Spared event) := by
  cases event with
  | finishImport res => cases res <;> unfold Spared <;> infer_instance
  | _ => unfold Spared; infer_instance

end System

/-! ## Entries stay -/

namespace Actor
variable {bao : Bao} {a : Actor bao} {hash x : Hash}

lemma get_insert {storage : BaoFileStorage bao.Partial} (h : (a.get x).isSome = true ∨ x = hash) :
    (({ a with data := a.data.insert hash storage } : Actor bao).get x).isSome = true := by
  unfold get at h ⊢
  split
  · rfl
  · rename_i hne
    rw [if_neg hne] at h
    by_cases hx : x = hash
    · subst hx
      rw [Table.get_insert_self]
      rfl
    · rw [Table.get_insert_of_ne hx]
      exact h.resolve_right hx

lemma get_createEntry (h : (a.get x).isSome = true ∨ x = hash) :
    ((a.createEntry hash).get x).isSome = true := by
  have hself : (a.get hash).isSome = true → (a.get x).isSome = true := by
    intro hsome
    rcases h with h | rfl
    · exact h
    · exact hsome
  fun_cases createEntry a hash with
  | case1 hemp => exact hself (by simp [get, hemp])
  | case2 hemp storage hget => exact hself (by simp [get, hemp, hget])
  | case3 hemp hget => exact get_insert h

variable {storage : BaoFileStorage bao.Partial}

lemma get_modifyPartial (h : (a.get x).isSome = true) :
    ((a.modifyPartial hash storage).get x).isSome = true := by
  unfold modifyPartial
  split
  · unfold setEntry
    split
    · unfold get at h ⊢
      split
      · rfl
      · rename_i hne
        rw [if_neg hne] at h
        exact h
    · exact get_insert (.inl h)
  · exact h

lemma get_handleCommand (cmd : Command) (h : (a.get x).isSome = true) :
    ((a.handleCommand cmd).get x).isSome = true := by
  cases cmd with
  | importBao hash | observe hash => exact get_createEntry (.inl h)
  | deleteTags start stop => exact h
  | renameTag source target =>
    simp only [handleCommand]
    split <;> exact h
  | setTag tag value | createTag tag value | createTempTag scope value | batch => exact h

lemma get_finishImport {entry : ImportEntry}
    (h : (a.get x).isSome = true ∨ x = bao.blake3 entry.data) :
    ((a.finishImport entry).get x).isSome = true :=
  get_modifyPartial (get_createEntry h)

lemma get_deleteBlobs_of_not_mem {hashes : List Hash} {force : Bool} (hx : x ∉ hashes)
    (h : (a.get x).isSome = true) : ((a.deleteBlobs hashes force).get x).isSome = true := by
  unfold get at h ⊢
  split
  · rfl
  · rename_i hne
    rw [if_neg hne] at h
    rw [get_deleteBlobs, if_neg fun h => hx h.1]
    exact h

lemma tempTags_createEntry : (a.createEntry hash).tempTags = a.tempTags := by
  unfold createEntry
  split
  · rfl
  · split <;> rfl

lemma tempTags_modifyPartial : (a.modifyPartial hash storage).tempTags = a.tempTags := by
  unfold modifyPartial setEntry
  split
  · split <;> rfl
  · rfl

lemma tempTags_finishImport (entry : ImportEntry) : (a.finishImport entry).tempTags =
    a.tempTags.create entry.scope ⟨bao.blake3 entry.data, entry.format⟩ := by
  simp only [finishImport, tempTags_modifyPartial, tempTags_createEntry]

lemma tempTags_deleteBlobs {hashes : List Hash} {force : Bool} :
    (a.deleteBlobs hashes force).tempTags = a.tempTags := by
  unfold deleteBlobs
  induction hashes generalizing a with
  | nil => rfl
  | cons x hashes ih =>
    rw [foldl_cons, ih]
    split <;> rfl

end Actor

/-! ## Steps of the run -/

section
variable {bao : Bao} {a : Actor bao} {order : Order} {phase : GcPhase} {content : HashAndFormat}
  {live : Finset Hash} {hash : Hash}

lemma spares_next {α : Type} {f : α → GcPhase} {answer : Except String α}
    (h : ∀ x, answer = .ok x → (f x).Spares hash) : (GcPhase.next f answer).Spares hash := by
  cases answer with
  | ok x => exact h x rfl
  | error e => exact trivial

lemma mem_markChildren (items : List EncodedItem)
    (h : hash ∈ live) : hash ∈ markChildren live (hashes items) := by
  rw [markChildren_eq]
  exact Finset.mem_union_left _ h

lemma not_mem_pushDead {batch : List Hash} {x : Hash}
    (hx : x ∉ batch) (h : x ∈ live ∨ x ≠ hash) : x ∉ pushDead live batch hash := by
  intro hmem
  rcases mem_pushDead.mp hmem with hmem | ⟨rfl, hdead⟩
  · exact hx hmem
  · exact h.elim hdead fun hne => hne rfl

lemma spares_mark {root : HashAndFormat} {todo : List HashAndFormat}
    (h : (GcPhase.mark live (root :: todo)).Spares hash) :
    hash ∈ insert root.hash live ∨ ∃ r ∈ todo, r.hash = hash := by
  rcases h with h | ⟨r, hr, h⟩
  · exact .inl (Finset.mem_insert_of_mem h)
  · rcases mem_cons.mp hr with rfl | hr
    · exact .inl (h ▸ Finset.mem_insert_self _ _)
    · exact .inr ⟨r, hr, h⟩

lemma spares_step (htag : content ∈ a.tempTags.list) (h : phase.Spares content.hash) :
    (phase.step order Actor.handle a).1.Spares content.hash := by
  fun_cases GcPhase.step order Actor.handle phase a with
  | case1 | case13 =>
    dsimp only
    refine spares_next ?_
    exact fun _ _ => trivial
  | case2 =>
    dsimp only
    refine spares_next ?_
    intro items _
    refine spares_next ?_
    exact fun _ _ => trivial
  | case3 =>
    dsimp only
    refine spares_next ?_
    intro tts htts
    cases htts
    refine .inr ⟨content, ?_, rfl⟩
    rw [(order.perm _).mem_iff, mem_insertTempTags]
    exact .inr htag
  | case4 => exact h.resolve_right fun ⟨_, hroot, _⟩ => nomatch hroot
  | case5 live root todo => exact (spares_mark h).imp_left (mem_markChildren _)
  | case6 live root todo => exact spares_mark h
  | case7 =>
    dsimp only
    refine spares_next ?_
    exact fun items _ => ⟨not_mem_nil, .inl h⟩
  | case9 =>
    dsimp only
    refine spares_next ?_
    exact fun _ _ => trivial
  | case11 live hash todo batch =>
    dsimp only
    refine spares_next ?_
    exact fun _ _ => ⟨not_mem_nil, h.2.imp_right fun hnot hmem => hnot (mem_cons_of_mem _ hmem)⟩
  | case12 live hash todo batch =>
    refine ⟨not_mem_pushDead h.1 (h.2.imp_right fun hnot he => hnot ?_),
      h.2.imp_right fun hnot hmem => hnot (mem_cons_of_mem _ hmem)⟩
    rw [he]
    exact mem_cons_self
  | _ => exact trivial

lemma get_step (h : phase.Spares hash) (hget : (a.get hash).isSome = true) :
    ((phase.step order Actor.handle a).2.get hash).isSome = true := by
  fun_cases GcPhase.step order Actor.handle phase a with
  | case9 => exact Actor.get_deleteBlobs_of_not_mem h.1 hget
  | case11 =>
    obtain ⟨hbat, htodo⟩ := h
    refine Actor.get_deleteBlobs_of_not_mem (not_mem_pushDead hbat ?_) hget
    refine htodo.imp_right fun hnot he => hnot ?_
    rw [he]
    exact mem_cons_self
  | _ => exact hget

lemma tempTags_step : (phase.step order Actor.handle a).2.tempTags = a.tempTags := by
  fun_cases GcPhase.step order Actor.handle phase a with
  | case9 | case11 => exact Actor.tempTags_deleteBlobs
  | _ => rfl

end

/-! ## Runs of the system -/

namespace System
variable {bao : Bao} {order : Order} {sys : System bao}

/-- How many temp tags for a content clients hold in a scope. -/
def count (sys : System bao) (scope : Scope) (content : HashAndFormat) : Nat :=
  sys.held.countP fun tag => decide ((tag.scope, tag.content) = (scope, content))

structure Inv (sys : System bao) : Prop where
  counted : ∀ scope content, sys.count scope content ≤ sys.actor.tempTags.counter scope content
  kept : sys.Kept
  spared : ∀ tag ∈ sys.held, tag.duringRun = true → sys.gc.Spares tag.content.hash

lemma inv_new : (new bao).Inv where
  counted _ _ := Nat.zero_le _
  kept := nofun
  spared := nofun

section
variable (h : sys.Inv)
include h

lemma Inv.listed {tag : HeldTag} (htag : tag ∈ sys.held) :
    tag.content ∈ sys.actor.tempTags.list := by
  refine TempTags.mem_list.mpr ⟨tag.scope, ?_⟩
  refine Nat.lt_of_lt_of_le ?_ (h.counted tag.scope tag.content)
  exact countP_pos_iff.mpr ⟨tag, htag, decide_eq_true rfl⟩

lemma Inv.command (cmd : Command) : (sys.step order (.command cmd)).Inv := by
  have hheld : ∀ tag ∈ returned cmd ++ sys.held, tag.duringRun = true → tag ∈ sys.held := by
    intro tag htag hrun
    rw [mem_append] at htag
    refine htag.resolve_left fun hnew => ?_
    cases cmd <;> simp only [returned, not_mem_nil, mem_singleton] at hnew
    subst hnew
    cases hrun
  refine ⟨?_, ?_, ?_⟩
  · intro scope content
    have hcoun := h.counted scope content
    simp only [count, step, countP_append] at hcoun ⊢
    cases cmd with
    | createTempTag scope' value =>
      simp only [Actor.handleCommand, TempTags.counter_create, returned, countP_singleton,
        decide_eq_true_eq]
      omega
    | batch =>
      simp only [Actor.handleCommand, TempTags.counter_createScope, returned, countP_nil]
      omega
    | importBao hash | observe hash =>
      simp only [Actor.handleCommand, Actor.tempTags_createEntry, returned, countP_nil]
      omega
    | renameTag source target =>
      have hsame : (sys.actor.handleCommand (.renameTag source target)).tempTags =
          sys.actor.tempTags := by
        simp only [Actor.handleCommand]
        split <;> rfl
      simp only [hsame, returned, countP_nil]
      omega
    | deleteTags start stop | setTag tag value | createTag tag value =>
      simp only [Actor.handleCommand, returned, countP_nil]
      omega
  · intro tag htag hrun
    exact Actor.get_handleCommand cmd (h.kept tag (hheld tag htag hrun) hrun)
  · intro tag htag hrun
    exact h.spared tag (hheld tag htag hrun) hrun

lemma Inv.finishImport {entry : ImportEntry} (hspared : sys.gc.Spares (bao.blake3 entry.data)) :
    (sys.step order (.finishImport (.ok entry))).Inv := by
  refine ⟨?_, ?_, ?_⟩
  · intro scope content
    have hcoun := h.counted scope content
    simp only [count, step, countP_cons, Actor.tempTags_finishImport,
      TempTags.counter_create, decide_eq_true_eq] at hcoun ⊢
    omega
  · intro tag htag hrun
    refine Actor.get_finishImport ?_
    cases mem_cons.mp htag with
    | inl htag =>
      subst htag
      exact .inr rfl
    | inr htag => exact .inl (h.kept tag htag hrun)
  · intro tag htag hrun
    cases mem_cons.mp htag with
    | inl htag =>
      subst htag
      exact hspared
    | inr htag => exact h.spared tag htag hrun

lemma Inv.dropTag (tag : HeldTag) : (sys.step order (.dropTag tag)).Inv := by
  simp only [step]
  split
  · rename_i hheld
    rw [contains_iff_mem] at hheld
    refine ⟨?_, ?_, ?_⟩
    · intro scope content
      have hcoun := h.counted scope content
      simp only [count] at hcoun ⊢
      rw [countP_erase, TempTags.counter_drop]
      simp only [hheld, true_and, decide_eq_true_eq]
      omega
    · intro x hx hrun
      exact h.kept x (mem_of_mem_erase hx) hrun
    · intro x hx hrun
      exact h.spared x (mem_of_mem_erase hx) hrun
  · exact h

lemma Inv.endScope (scope : Scope) : (sys.step order (.endScope scope)).Inv := by
  refine ⟨?_, ?_, ?_⟩
  · intro scope' content
    simp only [count, step, countP_filter]
    by_cases hscop : scope' = scope
    · subst hscop
      have hzero : (sys.held.countP fun tag =>
          decide ((tag.scope, tag.content) = (scope', content)) && (tag.scope != scope')) = 0 := by
        rw [countP_eq_zero]
        intro tag _
        simp only [Prod.mk.injEq, Bool.and_eq_true, decide_eq_true_eq, bne_iff_ne]
        rintro ⟨⟨hs, _⟩, hne⟩
        exact hne hs
      rw [hzero]
      exact Nat.zero_le _
    · rw [TempTags.counter_endScope hscop]
      refine le_trans (countP_mono_left ?_) (h.counted scope' content)
      intro tag _ htag
      exact (Bool.and_eq_true_iff.mp htag).1
  · intro tag htag hrun
    exact h.kept tag (mem_filter.mp htag).1 hrun
  · intro tag htag hrun
    exact h.spared tag (mem_filter.mp htag).1 hrun

lemma Inv.startGc (external : Finset Hash) : (sys.step order (.startGc external)).Inv := by
  simp only [step]
  split
  · exact h
  · refine ⟨?_, ?_, ?_⟩
    · intro scope content
      simp only [count, countP_map]
      exact h.counted scope content
    · intro tag htag hrun
      obtain ⟨x, _, rfl⟩ := mem_map.mp htag
      cases hrun
    · intro tag htag hrun
      obtain ⟨x, _, rfl⟩ := mem_map.mp htag
      cases hrun

lemma Inv.gcStep : (sys.step order .gc).Inv where
  counted scope content := by
    simp only [step, tempTags_step]
    exact h.counted scope content
  kept tag htag hrun := get_step (h.spared tag htag hrun) (h.kept tag htag hrun)
  spared tag htag hrun := spares_step (h.listed htag) (h.spared tag htag hrun)

lemma Inv.step {event : Event bao} (hspared : sys.Spared event) : (sys.step order event).Inv := by
  cases event with
  | command cmd => exact h.command cmd
  | finishImport res =>
    cases res with
    | ok entry => exact h.finishImport hspared
    | error e => exact h
  | write hash storage =>
    refine ⟨?_, ?_, ?_⟩
    · intro scope content
      simp only [System.step, Actor.tempTags_modifyPartial]
      exact h.counted scope content
    · intro tag htag hrun
      exact Actor.get_modifyPartial (h.kept tag htag hrun)
    · exact h.spared
  | dropTag tag => exact h.dropTag tag
  | endScope scope => exact h.endScope scope
  | startGc external => exact h.startGc external
  | gc => exact h.gcStep

end

/-- If every import finishes where the run spares its hash, then what is imported
during a run stays while its temp tag is held. -/
theorem kept_of_spares (order : Order) {events : List (Event bao)}
    (h : Along (step order) Spared (new bao) events) :
    Throughout (step order) Kept (new bao) events :=
  (throughout_of_along (fun _ _ hinv hspared => hinv.step hspared) inv_new h).imp
    fun _ hinv => hinv.kept

/-- An import that finishes before the temp tags are listed, in a run that then deletes a blob
without tag. -/
def earlyImport : List (Event toyBao) :=
  [.command (.importBao (toyHash seqData)), .startGc ∅, .gc, .gc,
    .finishImport (.ok ⟨childData, 0, .raw⟩)] ++ replicate 9 .gc

theorem earlyImport_kept : Along (step plainOrder) Spared (new toyBao) earlyImport ∧
    Throughout (step plainOrder) Kept (new toyBao) earlyImport := by
  have h : Along (step plainOrder) Spared (new toyBao) earlyImport := by decide +kernel
  exact ⟨h, kept_of_spares plainOrder h⟩

def lateImport : List (Event toyBao) :=
  [.startGc ∅, .gc, .gc, .gc, .finishImport (.ok ⟨childData, 0, .raw⟩)] ++ replicate 5 .gc

/-- The sweep deletes the blob, and its temp tag is still held. -/
theorem lateImport_deleted : (run (step plainOrder) (new toyBao) lateImport).held =
      [⟨0, ⟨toyHash childData, .raw⟩, true⟩] ∧
    ((run (step plainOrder) (new toyBao) lateImport).actor.get (toyHash childData)).isSome =
      false := by
  decide +kernel

end System
end Mem
end Krikos.Blobs
