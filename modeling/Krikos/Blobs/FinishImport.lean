import Krikos.Blobs.Meta
import Krikos.Lib.Run

/-!
# Blobs.FinishImport

Finishing imports beside the transactions of the metadata actor (`finish_import_impl` in
`store/fs.rs`, `Actor::run` in `store/fs/meta.rs`).

An import protects its files from the open transaction, moves them into place, opens them and
sends the update. The actor handles the commands of its queue in a transaction, commits the
database and then deletes the marked files. If a file is marked after the import has protected it
and before its update is handled, nothing clears the mark any more, and the file is deleted
although the entry owns it. Without such a mark every owned file is present in every state.
-/

namespace Krikos.Blobs.Fs

open Lib List

/-! ## Imports -/

inductive ImportSource where
  | memory (data : Bytes)
  | external (path : PathBuf) (size : Nat)
  | tempFile (size : Nat)

/-- Where the outboard of an import is; a file is a temp file. -/
inductive MemOrFile where
  | mem (bytes : Bytes)
  | file

structure ImportEntry where
  hash : Hash
  source : ImportSource
  outboard : MemOrFile

namespace ImportEntry

def dataLocation (e : ImportEntry) : DataLocation Bytes Nat :=
  match e.source with
  | .memory data => .inline data
  | .external path size => .external [path] size
  | .tempFile size => .owned size

def outboardLocation (e : ImportEntry) : OutboardLocation Bytes :=
  match e.outboard with
  | .mem bytes => if bytes.isEmpty then .notNeeded else .inline bytes
  | .file => .owned

def state (e : ImportEntry) : EntryState Bytes := .complete e.dataLocation e.outboardLocation

end ImportEntry

/-- How far `finish_import_impl` is: before `protect`, after it, after each `rename`, after each
`File::open`, and at its end. -/
inductive Stage where
  | start
  | guarded
  | dataMoved
  | outboardMoved
  | dataOpened
  | outboardOpened
  | ended (result : Except String Unit)

/-- The file of a part that has to be moved is in place, and the update is not sent. -/
def Stage.Moved : Stage → BaoFilePart → Prop
  | .dataMoved, part => part = .data
  | .outboardMoved, _ => True
  | .dataOpened, _ => True
  | .outboardOpened, _ => True
  | _, _ => False

instance (stage : Stage) (part : BaoFilePart) : Decidable (stage.Moved part) := by
  cases stage <;> unfold Stage.Moved <;> infer_instance

structure ImportTask where
  entry : ImportEntry
  stage : Stage

/-- The task has moved the file into place and not sent its update yet. -/
def ImportTask.HasMoved (task : ImportTask) (file : BaoFile) : Prop :=
  file.1 = task.entry.hash ∧ task.entry.state.Owns file.2 ∧ task.stage.Moved file.2

instance (task : ImportTask) (file : BaoFile) : Decidable (task.HasMoved file) :=
  inferInstanceAs (Decidable (_ ∧ _ ∧ _))

/-! ## The store -/

/-- The commands that change entries or protections. -/
inductive Command where
  | update (hash : Hash) (state : EntryState Bytes)
  | deleteBlobs (hashes : List Hash) (force : Bool)
  | clearProtected

def Command.Owns : Command → BaoFile → Prop
  | .update hash state, file => file.1 = hash ∧ state.Owns file.2
  | _, _ => False

instance (cmd : Command) (file : BaoFile) : Decidable (cmd.Owns file) := by
  cases cmd <;> unfold Command.Owns <;> infer_instance

/-- A write transaction is open from its first command to the deletion of the marked files, which
follows the commit of the database. After an error the actor stops. -/
inductive TxnPhase where
  | idle
  | writing
  | dbCommitted
  | stopped
  deriving DecidableEq

structure Store where
  metadata : MetaState
  /-- The tables at the start of the transaction. -/
  committed : Tables
  phase : TxnPhase
  queue : List Command
  disk : Finset BaoFile
  tasks : List ImportTask

inductive Event where
  | startImport (entry : ImportEntry)
  /-- The next step of an import. -/
  | task (i : Nat)
  | sendDelete (hashes : List Hash) (force : Bool)
  | sendClear
  /-- The actor takes the first command of the queue. -/
  | receive
  | commitDb
  | commitFiles

namespace Store
variable (s : Store)

def withFtx (ftx : DeleteSet) : Store :=
  { s with metadata := { s.metadata with tables := { s.metadata.tables with ftx := ftx } } }

def ftx (s : Store) : DeleteSet := s.metadata.tables.ftx

def setStage (i : Nat) (entry : ImportEntry) (stage : Stage) : Store :=
  { s with tasks := s.tasks.set i ⟨entry, stage⟩ }

/-- `fs::rename` of a temp file, if the import has one for the part. -/
def move (entry : ImportEntry) (part : BaoFilePart) : Store :=
  if entry.state.Owns part then { s with disk := insert (entry.hash, part) s.disk } else s

/-- `File::open` of an owned file fails if the file is gone. -/
def openNext (entry : ImportEntry) (part : BaoFilePart) (next : Stage) : Stage :=
  if entry.state.Owns part ∧ (entry.hash, part) ∉ s.disk then .ended (.error "not found")
  else next

def send (cmd : Command) : Store := { s with queue := s.queue ++ [cmd] }

/-- One step of `finish_import_impl` -/
def stepTask (i : Nat) (entry : ImportEntry) : Stage → Store
  | .start =>
    if entry.hash = .empty then s.setStage i entry (.ended (.ok ()))
    else (s.withFtx (s.ftx.protect entry.hash [.data, .outboard])).setStage i entry .guarded
  | .guarded => (s.move entry .data).setStage i entry .dataMoved
  | .dataMoved => (s.move entry .outboard).setStage i entry .outboardMoved
  | .outboardMoved => s.setStage i entry (s.openNext entry .data .dataOpened)
  | .dataOpened => s.setStage i entry (s.openNext entry .outboard .outboardOpened)
  | .outboardOpened =>
    (s.send (.update entry.hash entry.state)).setStage i entry (.ended (.ok ()))
  | .ended _ => s

/-- The error of a handler ends the actor: the transactions are dropped. -/
def stop : Store :=
  { s with
    metadata := { s.metadata with tables := { s.committed with ftx := ∅ } }
    phase := .stopped }

/-- A command of the queue in a write transaction -/
def handle : Command → Store
  | .update hash state =>
    match s.metadata.handleUpdate hash state with
    | .ok metadata => { s with metadata := metadata }
    | .error _ => s.stop
  | .deleteBlobs hashes force => { s with metadata := s.metadata.delete hashes force }
  | .clearProtected => { s with metadata := { s.metadata with protectedHashes := ∅ } }

/-- Outside a transaction a read-only command is handled, and another one opens a transaction and
is put back. -/
def receive : Store :=
  match s.queue with
  | [] => s
  | cmd :: queue =>
    match s.phase, cmd with
    | .idle, .clearProtected => { s with queue := queue }.handle .clearProtected
    | .idle, _ => { s with phase := .writing, committed := s.metadata.tables }
    | .writing, cmd => { s with queue := queue }.handle cmd
    | .dbCommitted, _ => s
    | .stopped, _ => s

def step : Event → Store
  | .startImport entry => { s with tasks := s.tasks ++ [⟨entry, .start⟩] }
  | .task i =>
    match s.tasks[i]? with
    | some task => s.stepTask i task.entry task.stage
    | none => s
  | .sendDelete hashes force => s.send (.deleteBlobs hashes force)
  | .sendClear => s.send .clearProtected
  | .receive => s.receive
  | .commitDb => if s.phase = .writing then { s with phase := .dbCommitted } else s
  | .commitFiles =>
    if s.phase = .dbCommitted then
      { (s.withFtx ∅) with disk := s.disk \ s.ftx, phase := .idle }
    else s

def OwnedPresent : Prop := ∀ file, s.metadata.tables.Owns file → file ∈ s.disk

/-- The actor has handled all commands and committed. -/
def Settled : Prop := s.phase = .idle ∧ s.queue = []

/-- A store between transactions, without imports under way. -/
structure Quiet (s : Store) : Prop where
  settled : s.Settled
  ftx : s.ftx = ∅
  tasks : s.tasks = []
  owned : s.OwnedPresent

/-- A file that is in place for an update that is not handled yet. -/
def Awaited (file : BaoFile) : Prop :=
  (∃ task ∈ s.tasks, task.HasMoved file) ∨ ∃ cmd ∈ s.queue, cmd.Owns file

instance (s : Store) (file : BaoFile) : Decidable (s.Awaited file) :=
  inferInstanceAs (Decidable (_ ∨ _))

/-- No file is marked for deletion when it is moved into place, and none is marked while an update
for it is awaited. -/
def Unmarked : Event → Prop
  | .task i =>
    match s.tasks[i]? with
    | some ⟨entry, .guarded⟩ => entry.state.Owns .data → (entry.hash, .data) ∉ s.ftx
    | some ⟨entry, .dataMoved⟩ => entry.state.Owns .outboard → (entry.hash, .outboard) ∉ s.ftx
    | _ => True
  | .receive =>
    match s.phase, s.queue with
    | .writing, .deleteBlobs hashes force :: _ =>
      ∀ hash ∈ hashes, ∀ part, s.metadata.Marks hashes force (hash, part) →
        ¬ s.Awaited (hash, part)
    | _, _ => True
  | _ => True

instance (s : Store) (event : Event) : Decidable (s.Unmarked event) := by
  unfold Unmarked
  split
  · split <;> infer_instance
  · split <;> infer_instance
  · infer_instance

/-! ## Every owned file is present -/

structure Inv (s : Store) : Prop where
  owned : ∀ file, s.metadata.tables.Owns file → file ∈ s.disk ∧ file ∉ s.ftx
  committed : s.phase = .writing → ∀ file, s.committed.Owns file → file ∈ s.disk
  awaited : ∀ file, s.Awaited file → file ∈ s.disk ∧ file ∉ s.ftx

variable {s : Store} {file : BaoFile} {i : Nat} {task : ImportTask} {entry : ImportEntry}

lemma Quiet.inv (h : s.Quiet) : s.Inv where
  owned file howns := by
    refine ⟨h.owned file howns, ?_⟩
    rw [h.ftx]
    exact Finset.notMem_empty file
  committed hphas := by
    rw [h.settled.1] at hphas
    cases hphas
  awaited file hawait := by
    rcases hawait with ⟨task, htask, _⟩ | ⟨cmd, hcmd, _⟩
    · rw [h.tasks] at htask
      cases htask
    · rw [h.settled.2] at hcmd
      cases hcmd

variable {part : BaoFilePart} {state : EntryState Bytes}

lemma part_of_owns (h : state.Owns part) : part = .data ∨ part = .outboard :=
  (EntryState.owns_iff.mp h).imp (fun h => h.1) (fun h => h.1)

lemma part_of_awaited (h : s.Awaited file) : file.2 = .data ∨ file.2 = .outboard := by
  rcases h with ⟨task, _, _, howns, _⟩ | ⟨cmd, _, howns⟩
  · exact part_of_owns howns
  · cases cmd with
    | update hash state => exact part_of_owns howns.2
    | deleteBlobs hashes force | clearProtected => cases howns

lemma not_awaited_side (h : part = .data ∨ part = .outboard) :
    ¬ (part = .sizes ∨ part = .bitfield) := by
  rcases h with rfl | rfl <;> simp

/-- A step that touches neither entries, files nor marks keeps the invariant if nothing new is
awaited. -/
lemma Inv.frame (h : s.Inv) {s' : Store} (hmeta : s'.metadata.tables = s.metadata.tables)
    (hcom : s'.committed = s.committed) (hphas : s'.phase = s.phase)
    (hdisk : s'.disk = s.disk) (hawait : ∀ file, s'.Awaited file → s.Awaited file) : s'.Inv where
  owned file howns := by
    rw [hmeta] at howns
    rw [hdisk, ftx, hmeta]
    exact h.owned file howns
  committed hwrit file howns := by
    rw [hdisk]
    rw [hphas] at hwrit
    rw [hcom] at howns
    exact h.committed hwrit file howns
  awaited file hfile := by
    rw [hdisk, ftx, hmeta]
    exact h.awaited file (hawait file hfile)

variable {stage : Stage}

lemma awaited_setStage (h : (s.setStage i entry stage).Awaited file) :
    s.Awaited file ∨ (⟨entry, stage⟩ : ImportTask).HasMoved file := by
  rcases h with ⟨x, hx, hmov⟩ | h
  · cases mem_or_eq_of_mem_set hx with
    | inl hx => exact .inl (.inl ⟨x, hx, hmov⟩)
    | inr hx =>
      subst hx
      exact .inr hmov
  · exact .inl (.inr h)

lemma Inv.setStage (h : s.Inv)
    (hmov : ∀ file, (⟨entry, stage⟩ : ImportTask).HasMoved file → s.Awaited file) :
    (s.setStage i entry stage).Inv :=
  h.frame rfl rfl rfl rfl fun file hfile =>
    (awaited_setStage hfile).elim id (hmov file)

lemma Inv.moved (h : s.Inv) (hmark : entry.state.Owns part → (entry.hash, part) ∉ s.ftx)
    (hstag : ∀ file, (⟨entry, stage⟩ : ImportTask).HasMoved file →
      s.Awaited file ∨ (file = (entry.hash, part) ∧ entry.state.Owns part)) :
    ((s.move entry part).setStage i entry stage).Inv := by
  have hdisk : s.disk ⊆ (s.move entry part).disk := by
    unfold move
    split
    · exact Finset.subset_insert _ _
    · exact fun _ h => h
  obtain ⟨hmeta, htas, hqueue, hrest⟩ : (s.move entry part).metadata = s.metadata ∧
      (s.move entry part).tasks = s.tasks ∧ (s.move entry part).queue = s.queue ∧
      (s.move entry part).committed = s.committed ∧ (s.move entry part).phase = s.phase := by
    unfold move
    split <;> exact ⟨rfl, rfl, rfl, rfl, rfl⟩
  refine ⟨?_, ?_, ?_⟩
  · intro file howns
    have hsame : s.metadata.tables.Owns file := by
      rw [← hmeta]
      exact howns
    obtain ⟨hmem, hnot⟩ := h.owned file hsame
    refine ⟨hdisk hmem, ?_⟩
    show file ∉ (s.move entry part).metadata.tables.ftx
    rw [hmeta]
    exact hnot
  · intro hwrit file howns
    refine hdisk (h.committed (hrest.2.symm.trans hwrit) file ?_)
    rw [← hrest.1]
    exact howns
  · intro file hfile
    have hold : s.Awaited file ∨ (file = (entry.hash, part) ∧ entry.state.Owns part) := by
      cases awaited_setStage hfile with
      | inl hold =>
        refine .inl ?_
        unfold Awaited at hold ⊢
        rw [htas, hqueue] at hold
        exact hold
      | inr hnew => exact hstag file hnew
    show file ∈ (s.move entry part).disk ∧ file ∉ (s.move entry part).metadata.tables.ftx
    rw [hmeta]
    rcases hold with hold | ⟨rfl, hmoves⟩
    · obtain ⟨hmem, hnot⟩ := h.awaited file hold
      exact ⟨hdisk hmem, hnot⟩
    · refine ⟨?_, hmark hmoves⟩
      unfold move
      rw [if_pos hmoves]
      exact Finset.mem_insert_self _ _

lemma Inv.guard (h : s.Inv) (hash : Hash) (parts : List BaoFilePart) :
    (s.withFtx (s.ftx.protect hash parts)).Inv where
  owned file howns := by
    obtain ⟨hmem, hnot⟩ := h.owned file howns
    exact ⟨hmem, fun hin => hnot (Finset.mem_sdiff.mp hin).1⟩
  committed := h.committed
  awaited file hfile := by
    obtain ⟨hmem, hnot⟩ := h.awaited file hfile
    exact ⟨hmem, fun hin => hnot (Finset.mem_sdiff.mp hin).1⟩

lemma Inv.stepTask (h : s.Inv) (htask : s.tasks[i]? = some task)
    (hunmarked : s.Unmarked (.task i)) : (s.stepTask i task.entry task.stage).Inv := by
  have hmem : task ∈ s.tasks := mem_of_getElem? htask
  simp only [Unmarked, htask] at hunmarked
  obtain ⟨entry, stage⟩ := task
  cases stage with
  | start =>
    simp only [Store.stepTask]
    split
    · refine h.setStage ?_
      exact fun _ hmov => hmov.2.2.elim
    · refine (h.guard _ _).setStage ?_
      exact fun _ hmov => hmov.2.2.elim
  | guarded =>
    refine h.moved hunmarked ?_
    rintro ⟨hash, part⟩ ⟨hhash, howns, hpart⟩
    cases hhash
    cases hpart
    exact .inr ⟨rfl, howns⟩
  | dataMoved =>
    refine h.moved hunmarked ?_
    rintro ⟨hash, part⟩ ⟨hhash, howns, _⟩
    cases hhash
    cases part_of_owns howns with
    | inl hpart => exact .inl (.inl ⟨_, hmem, rfl, howns, hpart⟩)
    | inr hpart =>
      cases hpart
      exact .inr ⟨rfl, howns⟩
  | outboardMoved | dataOpened =>
    refine h.setStage ?_
    rintro file ⟨hhash, howns, _⟩
    exact .inl ⟨_, hmem, hhash, howns, trivial⟩
  | outboardOpened =>
    refine h.frame rfl rfl rfl rfl ?_
    rintro file (⟨x, hx, hmov⟩ | ⟨cmd, hcmd, howns⟩)
    · cases mem_or_eq_of_mem_set hx with
      | inl hx => exact .inl ⟨x, hx, hmov⟩
      | inr hx =>
        subst hx
        exact hmov.2.2.elim
    · cases mem_append.mp hcmd with
      | inl hcmd => exact .inr ⟨cmd, hcmd, howns⟩
      | inr hcmd =>
        cases mem_singleton.mp hcmd
        exact .inl ⟨_, hmem, howns.1, howns.2, trivial⟩
  | ended result => exact h

variable {queue : List Command}

lemma awaited_of_tail {cmd : Command} {s' : Store}
    (h : s'.Awaited file) (hqueue : s.queue = cmd :: queue) (hqueue' : s'.queue = queue)
    (htas : s'.tasks = s.tasks) : s.Awaited file := by
  unfold Awaited at h ⊢
  rw [htas, hqueue'] at h
  refine h.imp_right fun ⟨cmd', hcmd, howns⟩ => ⟨cmd', ?_, howns⟩
  rw [hqueue]
  exact mem_cons_of_mem _ hcmd

lemma Inv.handleUpdate (h : s.Inv) {hash : Hash} (hphas : s.phase = .writing)
    (hqueue : s.queue = .update hash state :: queue) :
    ({ s with queue := queue }.handle (.update hash state)).Inv := by
  simp only [handle]
  split
  · rename_i metadata hupd
    obtain ⟨hown, hmar⟩ := MetaState.owns_of_handleUpdate hupd
    have hkeep : ∀ file, (file.2 = .data ∨ file.2 = .outboard) → file ∉ s.ftx →
        file ∉ metadata.tables.ftx := by
      intro file hpart hnot hmem
      rcases hmar file hmem with hmem | hside
      · exact hnot hmem
      · exact not_awaited_side hpart hside
    refine ⟨?_, ?_, ?_⟩
    · intro file howns
      have hsafe : file ∈ s.disk ∧ file ∉ s.ftx := by
        rcases hown file howns with hold | ⟨hhash, hnew⟩
        · exact h.owned file hold
        · refine h.awaited file (.inr ⟨.update hash state, ?_, hhash, hnew⟩)
          rw [hqueue]
          exact mem_cons_self
      exact ⟨hsafe.1, hkeep file (Tables.part_of_owns howns) hsafe.2⟩
    · exact h.committed
    · intro file hfile
      have hold : s.Awaited file := awaited_of_tail hfile hqueue rfl rfl
      obtain ⟨hmem, hnot⟩ := h.awaited file hold
      exact ⟨hmem, hkeep file (part_of_awaited hold) hnot⟩
  · refine ⟨?_, ?_, ?_⟩
    · intro file howns
      exact ⟨h.committed hphas file howns, Finset.notMem_empty _⟩
    · intro hwrit
      cases hwrit
    · intro file hfile
      have hold : s.Awaited file := awaited_of_tail hfile hqueue rfl rfl
      exact ⟨(h.awaited file hold).1, Finset.notMem_empty _⟩

lemma Inv.handleDelete (h : s.Inv) {hashes : List Hash} {force : Bool} (hphas : s.phase = .writing)
    (hqueue : s.queue = .deleteBlobs hashes force :: queue) (hunmarked : s.Unmarked .receive) :
    ({ s with queue := queue }.handle (.deleteBlobs hashes force)).Inv := by
  refine ⟨?_, ?_, ?_⟩
  · intro file howns
    obtain ⟨hown, hmark⟩ := MetaState.owns_delete howns
    obtain ⟨hmem, hnot⟩ := h.owned file hown
    exact ⟨hmem, fun hin => hnot (hmark hin)⟩
  · exact h.committed
  · intro file hfile
    have hold : s.Awaited file := awaited_of_tail hfile hqueue rfl rfl
    obtain ⟨hmem, hnot⟩ := h.awaited file hold
    refine ⟨hmem, fun hin => ?_⟩
    cases MetaState.mem_ftx_delete hin with
    | inl hin => exact hnot hin
    | inr hmar =>
      simp only [Unmarked, hphas, hqueue] at hunmarked
      exact hunmarked file.1 hmar.1 file.2 hmar hold

lemma Inv.receive (h : s.Inv) (hunmarked : s.Unmarked .receive) : s.receive.Inv := by
  cases hqueue : s.queue with
  | nil =>
    simp only [Store.receive, hqueue]
    exact h
  | cons cmd queue =>
    have hclear : ∀ s' : Store, s' = { s with queue := queue }.handle .clearProtected → s'.Inv := by
      rintro s' rfl
      refine h.frame rfl rfl rfl rfl fun file hfile => ?_
      exact awaited_of_tail hfile hqueue rfl rfl
    have hopen : ({ s with phase := .writing, committed := s.metadata.tables } : Store).Inv :=
      ⟨h.owned, fun _ file howns => (h.owned file howns).1, h.awaited⟩
    cases hphas : s.phase with
    | idle =>
      cases cmd with
      | clearProtected =>
        simp only [Store.receive, hqueue, hphas]
        exact hclear _ (by rw [← hphas])
      | update hash state | deleteBlobs hashes force =>
        simp only [Store.receive, hqueue, hphas]
        rw [hqueue] at hopen
        exact hopen
    | writing =>
      have hrec : s.receive = { s with queue := queue }.handle cmd := by
        simp only [Store.receive, hqueue, hphas]
      rw [hrec]
      cases cmd with
      | clearProtected => exact hclear _ rfl
      | update hash state => exact h.handleUpdate hphas hqueue
      | deleteBlobs hashes force => exact h.handleDelete hphas hqueue hunmarked
    | dbCommitted | stopped =>
      simp only [Store.receive, hqueue, hphas]
      exact h

lemma Inv.send (h : s.Inv) {cmd : Command} (hcmd : ∀ file, ¬ cmd.Owns file) : (s.send cmd).Inv := by
  refine h.frame rfl rfl rfl rfl ?_
  rintro file (htask | ⟨x, hx, howns⟩)
  · exact .inl htask
  · cases mem_append.mp hx with
    | inl hx => exact .inr ⟨x, hx, howns⟩
    | inr hx =>
      cases mem_singleton.mp hx
      exact absurd howns (hcmd file)

lemma Inv.step {event : Event} (h : s.Inv) (hunmarked : s.Unmarked event) : (s.step event).Inv := by
  cases event with
  | startImport entry =>
    refine h.frame rfl rfl rfl rfl ?_
    rintro file (⟨x, hx, hmov⟩ | hcmd)
    · cases mem_append.mp hx with
      | inl hx => exact .inl ⟨x, hx, hmov⟩
      | inr hx =>
        cases mem_singleton.mp hx
        exact hmov.2.2.elim
    · exact .inr hcmd
  | task i =>
    simp only [Store.step]
    split
    · rename_i task htask
      exact h.stepTask htask hunmarked
    · exact h
  | sendDelete hashes force => exact h.send fun _ howns => howns
  | sendClear => exact h.send fun _ howns => howns
  | receive => exact h.receive hunmarked
  | commitDb =>
    simp only [Store.step]
    split
    · exact ⟨h.owned, nofun, h.awaited⟩
    · exact h
  | commitFiles =>
    simp only [Store.step]
    split
    · refine ⟨?_, nofun, ?_⟩
      · intro file howns
        obtain ⟨hmem, hnot⟩ := h.owned file howns
        exact ⟨Finset.mem_sdiff.mpr ⟨hmem, hnot⟩, Finset.notMem_empty _⟩
      · intro file hfile
        obtain ⟨hmem, hnot⟩ := h.awaited file hfile
        exact ⟨Finset.mem_sdiff.mpr ⟨hmem, hnot⟩, Finset.notMem_empty _⟩
    · exact h

/-- In a run from a quiet store in which no file is marked while an import needs
it, every state where all commands are handled has every owned file. -/
theorem owned_present {s : Store} {events : List Event} (hquiet : s.Quiet)
    (h : Along step Unmarked s events) :
    Throughout step (fun s => s.Settled → s.OwnedPresent) s events :=
  (throughout_of_along (fun _ _ hinv hunmarked => hinv.step hunmarked) hquiet.inv h).imp
    fun _ hinv _ file howns => (hinv.owned file howns).1

/-! ## A file that is deleted although its entry owns it -/

def blobHash : Hash := .zero 32

def blobEntry : EntryState Unit := .complete (.owned 20000) .notNeeded

def oneBlob : Store where
  metadata := ⟨⟨Table.empty.insert blobHash blobEntry, .empty, .empty, ∅⟩, ∅⟩
  committed := .empty
  phase := .idle
  queue := []
  disk := {(blobHash, .data)}
  tasks := []

lemma oneBlob_quiet : oneBlob.Quiet := by
  refine ⟨⟨rfl, rfl⟩, rfl, rfl, ?_⟩
  rintro ⟨hash, part⟩ ⟨entry, hget, howns⟩
  have hrow := Table.get_eq_some.mp hget
  obtain ⟨rfl, rfl⟩ : hash = blobHash ∧ entry = blobEntry := by
    rcases Table.mem_insert.mp hrow with h | h
    · exact h
    · exact absurd h.2 not_mem_nil
  rcases EntryState.owns_iff.mp howns with ⟨rfl, _⟩ | ⟨_, _, h⟩
  · exact Finset.mem_singleton_self _
  · cases h

def importAgain : ImportEntry := ⟨blobHash, .tempFile 20000, .mem []⟩

/-- The delete is handled before the import protects its file. -/
def deleteFirst : List Event :=
  [.sendDelete [blobHash] false, .receive, .receive, .startImport importAgain, .task 0, .task 0,
    .task 0, .commitDb, .commitFiles, .task 0, .task 0, .task 0, .receive, .receive, .commitDb,
    .commitFiles]

theorem deleteFirst_present : Along step Unmarked oneBlob deleteFirst ∧
    Throughout step (fun s => s.Settled → s.OwnedPresent) oneBlob deleteFirst := by
  have h : Along step Unmarked oneBlob deleteFirst := by decide +kernel
  exact ⟨h, owned_present oneBlob_quiet h⟩

/-- The delete is handled after the import has protected its file. -/
def protectFirst : List Event :=
  [.startImport importAgain, .task 0, .sendDelete [blobHash] false, .receive, .receive, .task 0,
    .task 0, .task 0, .task 0, .task 0, .receive, .commitDb, .commitFiles]

/-- All commands are handled, the entry owns its data, and the file is gone. -/
theorem marked_after_protect : oneBlob.Quiet ∧ (run step oneBlob protectFirst).Settled ∧
    (run step oneBlob protectFirst).metadata.tables.Owns (blobHash, .data) ∧
    (blobHash, .data) ∉ (run step oneBlob protectFirst).disk := by
  refine ⟨oneBlob_quiet, ⟨rfl, rfl⟩, ?_, ?_⟩
  · decide +kernel
  · decide +kernel

end Store
end Krikos.Blobs.Fs
