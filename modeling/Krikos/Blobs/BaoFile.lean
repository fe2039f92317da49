import Krikos.Blobs.FinishImport
import Krikos.Blobs.HashSeq

/-!
# Blobs.BaoFile

The storage of one blob in the file store (`store/fs/bao_file.rs`, `api/proto/bitfield.rs`) and
the operations on it, one after the other, each with its metadata transaction: batches of a
download, finished imports, and the shutdown of the blob's handle.

A delete removes the files and rows that the entry's locations name. A partial blob has a data, an
outboard and a sizes file. Completing it can leave files that the complete entry does not name. If
a blob with partial files only becomes complete with both files owned, a delete leaves nothing.
-/

namespace Krikos.Blobs.Fs

open Lib EntryState DataLocation List

/-! ## Bitfields -/

/-- A set of chunks: some chunks, and all from an open end on. -/
structure ChunkRanges where
  chunks : Finset Nat
  openEnd : Option Nat
  deriving DecidableEq

namespace ChunkRanges

def empty : ChunkRanges := ⟨∅, none⟩

def all : ChunkRanges := ⟨∅, some 0⟩

def below (stop : Nat) : ChunkRanges := ⟨Finset.range stop, none⟩

def above (start : Nat) : ChunkRanges := ⟨∅, some start⟩

variable (r : ChunkRanges)

def contains (chunk : Nat) : Bool :=
  decide (chunk ∈ r.chunks) || r.openEnd.any fun start => decide (start ≤ chunk)

def containsBelow (stop : Nat) : Bool :=
  (range stop).all r.contains

def isAll : Bool := r.openEnd.any r.containsBelow

def union (a b : ChunkRanges) : ChunkRanges where
  chunks := a.chunks ∪ b.chunks
  openEnd :=
    match a.openEnd, b.openEnd with
    | some x, some y => some (min x y)
    | some x, none => some x
    | none, y => y

def upperBound : Option Nat :=
  match r.openEnd with
  | some _ => none
  | none => some (r.chunks.sup fun chunk => chunk + 1)

end ChunkRanges

def chunksOf (size : Nat) : Nat := (size + 1023) / 1024

structure Bitfield where
  size : Nat
  ranges : ChunkRanges
  deriving DecidableEq

namespace Bitfield

def empty : Bitfield := ⟨0, .empty⟩

def new (ranges : ChunkRanges) (size : Nat) : Bitfield :=
  if size = 0 then ⟨size, ranges⟩
  else if ranges.containsBelow (chunksOf size) then ⟨size, .all⟩
  else if ranges.contains (chunksOf size - 1) then ⟨size, ranges.union (.above (chunksOf size))⟩
  else ⟨size, ranges⟩

def isValidated (b : Bitfield) : Bool :=
  if b.size = 0 then b.ranges.isAll else b.ranges.contains (chunksOf b.size - 1)

def isComplete (b : Bitfield) : Bool :=
  if b.size = 0 then b.ranges.isAll else b.ranges.containsBelow (chunksOf b.size)

def validatedSize (b : Bitfield) : Option Nat := if b.isValidated then some b.size else none

def chooseSize (a b : Bitfield) : Nat :=
  match a.ranges.upperBound, b.ranges.upperBound with
  | some ac, some bc =>
    if ac < bc then b.size else if bc < ac then a.size else max a.size b.size
  | some _, none => b.size
  | none, some _ => a.size
  | none, none => max a.size b.size

def combine (a b : Bitfield) : Bitfield := new (a.ranges.union b.ranges) (chooseSize a b)

lemma validated_of_complete {b : Bitfield} (h : b.isComplete = true) : b.isValidated = true := by
  unfold isComplete at h
  unfold isValidated
  split
  · rename_i hzero
    rw [if_pos hzero] at h
    exact h
  · rename_i hpos
    rw [if_neg hpos] at h
    unfold ChunkRanges.containsBelow at h
    rw [all_eq_true] at h
    refine h _ (mem_range.mpr ?_)
    unfold chunksOf
    omega

end Bitfield

/-! ## Storage -/

structure InlineOptions where
  maxDataInlined : Nat
  maxOutboardInlined : Nat

def InlineOptions.isInlinedData (o : InlineOptions) (size : Nat) : Bool :=
  decide (size ≤ o.maxDataInlined)

def InlineOptions.isInlinedOutboard (o : InlineOptions) (size : Nat) : Bool :=
  decide (size ≤ o.maxOutboardInlined)

/-- A blob, with the outboard that `bao-tree` computes for it. -/
structure Blob (rawOutboardSize : Nat → Nat) where
  hash : Hash
  data : Bytes
  outboard : Bytes
  outboard_length : outboard.length = rawOutboardSize data.length

/-- `BaoFileStorage`, without the bytes it holds. `Loading` is left at once. -/
inductive BaoFileStorage where
  | initial
  | nonExisting
  | partialMem (bitfield : Bitfield)
  | partialFile (bitfield : Bitfield)
  | complete
  | poisoned
  deriving DecidableEq

inductive BaoContentItem where
  | parent
  | leaf (leaf : Leaf)

def maxOffset (batch : List BaoContentItem) : Nat :=
  batch.foldl (fun offset item =>
    match item with
    | .leaf leaf => max offset (leaf.offset + leaf.data.length)
    | .parent => offset) 0

/-- What exists of a blob: the state of its handle, its files with the contents of the bitfield
file, and the metadata. -/
structure BlobStore where
  storage : BaoFileStorage
  disk : Finset BaoFile
  savedBitfield : Option Bitfield
  metadata : MetaState

inductive Operation where
  /-- A batch of a download; `scanned` is the bitfield that reading the files again would give. -/
  | writeBatch (batch : List BaoContentItem) (bitfield scanned : Bitfield)
  /-- An import of the blob, from a file that stays where it is or by copy. -/
  | finishImport (reference : Option PathBuf) (scanned : Bitfield)
  /-- The handle is persisted and given back. -/
  | shutdown
  | clearProtected

section
variable {rawOutboardSize : Nat → Nat} (options : InlineOptions) (blob : Blob rawOutboardSize)

def completeData (size : Nat) : DataLocation Bytes Nat :=
  if options.isInlinedData size then .inline blob.data else .owned size

def completeOutboard (size : Nat) : OutboardLocation Bytes :=
  if options.isInlinedOutboard (rawOutboardSize size) then
    if rawOutboardSize size = 0 then .notNeeded else .inline blob.outboard
  else .owned

/-- The entry of both `into_complete`; the stored bytes are those of the blob then. -/
def completeState (size : Nat) : EntryState Bytes :=
  .complete (completeData options blob size) (completeOutboard options blob size)

/-- The result of an import task (`store/fs/import.rs`): small data and outboards stay in memory,
large ones are in temp files, except for data that is referenced. -/
def importEntry (reference : Option PathBuf) : ImportEntry where
  hash := blob.hash
  source :=
    if options.isInlinedData blob.data.length then .memory blob.data
    else match reference with
      | some path => .external path blob.data.length
      | none => .tempFile blob.data.length
  outboard :=
    if rawOutboardSize blob.data.length > options.maxOutboardInlined then .file
    else .mem blob.outboard

namespace BlobStore

def new : BlobStore := ⟨.initial, ∅, none, ⟨.empty, ∅⟩⟩

variable (s : BlobStore)

def create (parts : List BaoFilePart) : BlobStore :=
  { s with disk := s.disk ∪ filesOf blob.hash parts }

def commit : BlobStore :=
  { s with
    disk := s.disk \ s.metadata.tables.ftx
    metadata := { s.metadata with tables := { s.metadata.tables with ftx := ∅ } } }

/-- A transaction with one update; an error stops the actor. -/
def update (state : EntryState Bytes) : BlobStore :=
  match s.metadata.handleUpdate blob.hash state with
  | .ok metadata => { s with metadata := metadata }.commit
  | .error _ => s

def protect (s : BlobStore) (parts : List BaoFilePart) : BlobStore :=
  let tables := s.metadata.tables
  { s with metadata := { s.metadata with
    tables := { tables with ftx := tables.ftx.protect blob.hash parts } } }

def persistMem : BlobStore :=
  (s.protect blob [.data, .outboard, .sizes, .bitfield]).create blob [.data, .outboard, .sizes]

/-- The files that `PartialMemStorage::into_complete` writes. -/
def completeMem (size : Nat) : BlobStore :=
  let s := if options.isInlinedData size then s else s.create blob [.data]
  if options.isInlinedOutboard (rawOutboardSize size) then s else s.create blob [.outboard]

/-- The handle becomes complete, and the entry with it. -/
def finish (size : Nat) : BlobStore :=
  { s with storage := .complete }.update blob (completeState options blob size)

/-- `BaoFileStorage::write_batch` for storage in memory -/
def writeMem (batch : List BaoContentItem) (old update : Bitfield) : BlobStore :=
  let new := old.combine update
  if maxOffset batch ≤ options.maxDataInlined then
    if new.isComplete then (s.completeMem options blob new.size).finish options blob new.size
    else { s.persistMem blob with storage := .partialFile new }.update blob
      (.incomplete new.validatedSize)
  else
    if new.isComplete then (s.persistMem blob).finish options blob new.size
    else { s.persistMem blob with storage := .partialFile new }.update blob
      (.incomplete new.validatedSize)

/-- `BaoFileStorage::write_batch` for storage in files -/
def writeFile (old update : Bitfield) : BlobStore :=
  let new := old.combine update
  if new.isComplete then s.finish options blob new.size
  else
    let s := { s with storage := .partialFile new }
    if old.validatedSize.isNone && new.validatedSize.isSome then
      s.update blob (.incomplete new.validatedSize)
    else s

def writeBatch (batch : List BaoContentItem) (update : Bitfield) : BlobStore :=
  match s.storage with
  | .nonExisting => s.writeMem options blob batch .empty update
  | .partialMem old => s.writeMem options blob batch old update
  | .partialFile old => s.writeFile options blob old update
  | _ => s

/-- `PartialFileStorage::load` and `new_partial_file` -/
def loadPartial (scanned : Bitfield) : BlobStore :=
  let bitfield := s.savedBitfield.getD scanned
  let s := { s.create blob [.data, .outboard, .sizes] with savedBitfield := none }
  if bitfield.isComplete then
    { s with
      storage := .complete
      metadata := s.metadata.handleSet blob.hash (completeState options blob bitfield.size)
      : BlobStore }.commit
  else { s with storage := .partialFile bitfield }

def load (scanned : Bitfield) : BlobStore :=
  if s.storage = .initial then
    if blob.hash = .empty then { s with storage := .complete }
    else match s.metadata.tables.blobs.get blob.hash with
      | none => { s with storage := .nonExisting }
      | some (.complete _ _) => { s with storage := .complete }
      | some (.incomplete _) => s.loadPartial options blob scanned
  else s

def completeHandle : BlobStore :=
  match s.storage with
  | .nonExisting => { s with storage := .complete }
  | .partialMem _ => { s with storage := .complete }
  | .partialFile _ => { s with storage := .complete }
  | _ => s

def moveFiles (entry : ImportEntry) : BlobStore :=
  let s := if entry.state.Owns .data then s.create blob [.data] else s
  if entry.state.Owns .outboard then s.create blob [.outboard] else s

variable (reference : Option PathBuf)

/-- `finish_import_impl`, with nothing beside it -/
def finishImport : BlobStore :=
  if blob.hash = .empty then s
  else
    let entry := importEntry options blob reference
    let s := (s.protect blob [.data, .outboard]).moveFiles blob entry
    s.completeHandle.update blob entry.state

/-- `persist`, and the reset of the handle -/
def shutdown : BlobStore :=
  match s.storage with
  | .partialFile bitfield =>
    { s.create blob [.bitfield] with storage := .initial, savedBitfield := some bitfield }
  | _ => { s with storage := .initial }

def step : Operation → BlobStore
  | .writeBatch batch update scanned =>
    (s.load options blob scanned).writeBatch options blob batch update
  | .finishImport reference scanned =>
    (s.load options blob scanned).finishImport options blob reference
  | .shutdown => s.shutdown blob
  | .clearProtected => { s with metadata := { s.metadata with protectedHashes := ∅ } }

def delete (s : BlobStore) (force : Bool) : BlobStore :=
  { s with metadata := s.metadata.delete [blob.hash] force }.commit

/-- The actor carries out a delete: there is an entry, and it is not protected. -/
def CarriesOut (force : Bool) : Prop :=
  (force = true ∨ blob.hash ∉ s.metadata.protectedHashes) ∧
    (s.metadata.tables.blobs.get blob.hash).isSome = true

/-- No file and no row of the blob is left. -/
def Gone : Prop :=
  (∀ part, (blob.hash, part) ∉ s.disk) ∧ s.metadata.tables.inlineData.get blob.hash = none ∧
    s.metadata.tables.inlineOutboard.get blob.hash = none

/-! ## Conditions on an operation -/

/-- The bitfield after a batch, for storage that takes writes. -/
def merged (update : Bitfield) : Option Bitfield :=
  match s.storage with
  | .nonExisting => some (Bitfield.empty.combine update)
  | .partialMem old => some (old.combine update)
  | .partialFile old => some (old.combine update)
  | _ => none

/-- A size that `bao-tree` has validated is the size of the blob. -/
def Verified : Operation → Prop
  | .writeBatch _ update scanned =>
    ∀ new ∈ (s.load options blob scanned).merged update, new.isValidated = true →
      new.size = blob.data.length
  | _ => True

def bothOwned (state : EntryState Bytes) : Bool :=
  decide (state.Owns .data) && decide (state.Owns .outboard)

/-- The storage leaves no file behind that the complete entry does not own. -/
def leavesNone (storage : BaoFileStorage) (batch : List BaoContentItem) (size : Nat) : Bool :=
  match storage with
  | .partialFile _ => bothOwned (completeState options blob size)
  | _ => decide (maxOffset batch ≤ options.maxDataInlined)

/-- A blob that has partial files becomes complete only as an entry that owns its data and its
outboard file, and from a partial entry. -/
def Tidy : Operation → Prop
  | .writeBatch batch update scanned =>
    ∀ new ∈ (s.load options blob scanned).merged update, new.isComplete = true →
      leavesNone options blob (s.load options blob scanned).storage batch new.size = true
  | .finishImport reference _ =>
    ∀ size, s.metadata.tables.blobs.get blob.hash = some (.incomplete size) →
      bothOwned (importEntry options blob reference).state = true
  | _ => True

instance (s : BlobStore) (op : Operation) : Decidable (s.Verified options blob op) := by
  cases op <;> unfold Verified <;> infer_instance

instance (s : BlobStore) (op : Operation) : Decidable (s.Tidy options blob op) := by
  cases op with
  | writeBatch batch update scanned =>
    unfold Tidy
    infer_instance
  | finishImport reference scanned =>
    match hget : s.metadata.tables.blobs.get blob.hash with
    | some (.incomplete size) =>
      exact decidable_of_iff (bothOwned (importEntry options blob reference).state = true)
        ⟨fun h _ _ => h, fun h => h size hget⟩
    | some (.complete _ _) => exact .isTrue fun size h => by simp [hget] at h
    | none => exact .isTrue fun size h => by simp [hget] at h
  | shutdown => exact .isTrue trivial
  | clearProtected => exact .isTrue trivial

/-! ## The files and rows of an entry -/

/-- There is nothing of the blob. -/
structure Absent (s : BlobStore) : Prop where
  entry : s.metadata.tables.blobs.get blob.hash = none
  disk : ∀ part, (blob.hash, part) ∉ s.disk
  data : s.metadata.tables.inlineData.get blob.hash = none
  outboard : s.metadata.tables.inlineOutboard.get blob.hash = none

/-- A partial entry has no rows. -/
structure Incomplete (s : BlobStore) : Prop where
  entry : ∃ size, s.metadata.tables.blobs.get blob.hash = some (.incomplete size) ∧
    ∀ n, size = some n → n = blob.data.length
  data : s.metadata.tables.inlineData.get blob.hash = none
  outboard : s.metadata.tables.inlineOutboard.get blob.hash = none

/-- The locations that an entry of the blob has under the options. -/
structure Located (data : DataLocation Unit Nat) (outboard : OutboardLocation Unit) : Prop where
  inlined : options.isInlinedData blob.data.length = true ↔ data = .inline ()
  external : ∀ paths size, data = .external paths size → size = blob.data.length
  outboard : outboard = (completeOutboard options blob blob.data.length).splitInlineData.1

/-- A complete entry names all files and rows that there are. -/
structure Complete (s : BlobStore) (data : DataLocation Unit Nat)
    (outboard : OutboardLocation Unit) : Prop where
  entry : s.metadata.tables.blobs.get blob.hash = some (.complete data outboard)
  located : Located options blob data outboard
  disk : ∀ part, (blob.hash, part) ∈ s.disk → (complete data outboard).Owns part
  data : s.metadata.tables.inlineData.get blob.hash ≠ none → data = .inline ()
  outboard : s.metadata.tables.inlineOutboard.get blob.hash ≠ none → outboard = .inline ()

inductive Inv (s : BlobStore) : Prop where
  | absent (hftx : s.metadata.tables.ftx = ∅) (h : s.Absent blob)
      (hstorage : s.storage = .initial ∨ (s.storage = .nonExisting ∧ blob.hash ≠ .empty) ∨
        (s.storage = .complete ∧ blob.hash = .empty))
  | incomplete (hftx : s.metadata.tables.ftx = ∅) (h : s.Incomplete blob)
      (hne : blob.hash ≠ .empty) (bitfield : Bitfield) (hbitfield : bitfield.isComplete = false)
      (hstorage : s.storage = .partialFile bitfield ∨
        (s.storage = .initial ∧ s.savedBitfield = some bitfield))
  | complete (hftx : s.metadata.tables.ftx = ∅) (data : DataLocation Unit Nat)
      (outboard : OutboardLocation Unit) (h : s.Complete options blob data outboard)
      (hne : blob.hash ≠ .empty) (hstorage : s.storage = .initial ∨ s.storage = .complete)

variable {options blob} {s : BlobStore} {state : EntryState Bytes} {part : BaoFilePart}

lemma Inv.ftx (h : s.Inv options blob) : s.metadata.tables.ftx = ∅ := by
  cases h with
  | absent hftx | incomplete hftx | complete hftx => exact hftx

lemma Inv.not_poisoned (h : s.Inv options blob) : s.storage ≠ .poisoned := by
  intro hs
  cases h with
  | absent _ _ hstorage | incomplete _ _ _ _ _ hstorage | complete _ _ _ _ _ hstorage =>
    simp [hs] at hstorage

lemma inv_new : (new : BlobStore).Inv options blob :=
  .absent rfl ⟨rfl, fun _ => Finset.notMem_empty _, rfl, rfl⟩ (.inl rfl)

/-! ## Updates -/

lemma commit_of_ftx (h : s.metadata.tables.ftx = ∅) : s.commit = s := by
  obtain ⟨storage, disk, saved, ⟨blobs, inlineData, inlineOutboard, ftx⟩, hashes⟩ := s
  cases h
  simp [commit]

lemma update_none (hget : s.metadata.tables.blobs.get blob.hash = none)
    (hftx : s.metadata.tables.ftx = ∅) :
    s.update blob state = { s with metadata := ⟨s.metadata.tables.store blob.hash state.split.1
      state.split.2.1 state.split.2.2, insert blob.hash s.metadata.protectedHashes⟩ } := by
  simp only [update, MetaState.handleUpdate, hget]
  exact commit_of_ftx hftx

/-- An update of an entry stores the merged state, and deletes the sizes and bitfield files of an
entry that becomes complete. -/
lemma update_some {old res : EntryState Unit}
    (hget : s.metadata.tables.blobs.get blob.hash = some old)
    (hres : old.union state.split.1 = .ok res) (hftx : s.metadata.tables.ftx = ∅) :
    s.update blob state = { s with
        disk := if old.isPartial && state.split.1.isComplete
          then s.disk \ filesOf blob.hash [.sizes, .bitfield] else s.disk
        metadata := ⟨s.metadata.tables.store blob.hash res state.split.2.1 state.split.2.2,
          insert blob.hash s.metadata.protectedHashes⟩ } := by
  simp only [update, MetaState.handleUpdate, hget, hres, bind, Except.bind, pure, Except.pure]
  split <;> simp [commit, Tables.store, Tables.delete, DeleteSet.delete, hftx]

/-! ## Complete entries -/

lemma row_of_insertSome {t : Table Hash Bytes} {hash : Hash} {bytes : Option Bytes}
    (h : (insertSome t hash bytes).get hash ≠ none) : bytes.isSome = true ∨ t.get hash ≠ none := by
  cases bytes with
  | some bytes => exact .inl rfl
  | none => exact .inr h

lemma inline_of_split {d : DataLocation Bytes Nat} (h : d.splitInlineData.2.isSome = true) :
    d.splitInlineData.1 = .inline () := by
  cases d with
  | inline data => rfl
  | owned size | external paths size => cases h

lemma inline_of_split_outboard {o : OutboardLocation Bytes}
    (h : o.splitInlineData.2.isSome = true) : o.splitInlineData.1 = .inline () := by
  cases o with
  | inline data => rfl
  | owned | notNeeded => cases h

lemma located_completeState :
    Located options blob (completeData options blob blob.data.length).splitInlineData.1
      (completeOutboard options blob blob.data.length).splitInlineData.1 := by
  refine ⟨?_, ?_, rfl⟩
  · unfold completeData
    split
    · rename_i h
      exact ⟨fun _ => rfl, fun _ => h⟩
    · rename_i h
      refine ⟨fun hin => absurd hin h, fun he => ?_⟩
      cases he
  · intro paths size h
    unfold completeData at h
    split at h <;> cases h

lemma outboardLocation_importEntry : (importEntry options blob reference).outboardLocation =
      completeOutboard options blob blob.data.length := by
  have hlen := blob.outboard_length
  unfold ImportEntry.outboardLocation completeOutboard importEntry InlineOptions.isInlinedOutboard
  by_cases hbig : rawOutboardSize blob.data.length > options.maxOutboardInlined
  · have hnot : ¬ rawOutboardSize blob.data.length ≤ options.maxOutboardInlined := by omega
    simp [hbig, hnot]
  · have hle : rawOutboardSize blob.data.length ≤ options.maxOutboardInlined := by omega
    simp only [hbig, if_false, hle, decide_true, if_true, List.isEmpty_iff,
      ← List.length_eq_zero_iff, hlen]

lemma located_importEntry :
    Located options blob (importEntry options blob reference).dataLocation.splitInlineData.1
      (importEntry options blob reference).outboardLocation.splitInlineData.1 := by
  refine ⟨?_, ?_, ?_⟩
  · unfold ImportEntry.dataLocation importEntry
    by_cases h : options.isInlinedData blob.data.length = true
    · simp [h, splitInlineData]
    · cases reference <;> simp [h, splitInlineData]
  · intro paths size he
    unfold ImportEntry.dataLocation importEntry at he
    by_cases h : options.isInlinedData blob.data.length = true
    · simp [h, splitInlineData] at he
    · cases reference with
      | none => simp [h, splitInlineData] at he
      | some path =>
        simp only [h, splitInlineData] at he
        cases he
        rfl
  · rw [outboardLocation_importEntry]

lemma located_union {d₀ d₁ : DataLocation Unit Nat} {o₀ o₁ : OutboardLocation Unit}
    (h₀ : Located options blob d₀ o₀) (h₁ : Located options blob d₁ o₁) :
    ∃ d₂, d₀.union d₁ = .ok d₂ ∧ Located options blob d₂ o₀ ∧
      ∀ part, (complete d₀ o₀).Owns part ∨ (complete d₁ o₁).Owns part →
        (complete d₂ o₀).Owns part := by
  have hinl : d₀ = .inline () ↔ d₁ = .inline () := h₀.inlined.symm.trans h₁.inlined
  obtain rfl : o₁ = o₀ := h₁.outboard.trans h₀.outboard.symm
  have howns : ∀ d₂, ((complete d₀ o₁).Owns .data ∨ (complete d₁ o₁).Owns .data →
      (complete d₂ o₁).Owns .data) → ∀ part, (complete d₀ o₁).Owns part ∨
        (complete d₁ o₁).Owns part → (complete d₂ o₁).Owns part := by
    intro d₂ hdata part
    cases part with
    | data => exact hdata
    | outboard | sizes | bitfield => cases o₁ <;> simp [EntryState.Owns]
  cases d₁ with
  | inline u =>
    obtain rfl : d₀ = .inline () := hinl.mpr rfl
    exact ⟨_, rfl, h₀, howns _ (by simp [EntryState.Owns])⟩
  | owned n =>
    refine ⟨.owned n, ?_, h₁, howns _ fun _ => trivial⟩
    cases d₀ <;> rfl
  | external paths n =>
    have hn := h₁.external paths n rfl
    cases d₀ with
    | inline u =>
      have h := hinl.mp rfl
      cases h
    | owned m => exact ⟨.owned m, rfl, h₀, howns _ fun _ => trivial⟩
    | external paths' m =>
      have hm := h₀.external paths' m rfl
      refine ⟨.external ((paths' ++ paths).mergeSort (fun a b => decide (a ≤ b))).dedup m, ?_,
        ⟨?_, ?_, h₀.outboard⟩, howns _ (by simp [EntryState.Owns])⟩
      · simp [DataLocation.union, hn, hm]
      · simpa using h₀.inlined
      · intro paths size h
        cases h
        exact hm

lemma owns_split_iff {data : DataLocation Bytes Nat} {outboard : OutboardLocation Bytes} :
    (complete data outboard).Owns part ↔
      (complete data.splitInlineData.1 outboard.splitInlineData.1).Owns part := by
  cases data <;> cases outboard <;> cases part <;> exact Iff.rfl

variable {data : DataLocation Bytes Nat} {outboard : OutboardLocation Bytes}

section
variable (hftx : s.metadata.tables.ftx = ∅)
include hftx

lemma complete_of_none (hget : s.metadata.tables.blobs.get blob.hash = none)
    (hdata : s.metadata.tables.inlineData.get blob.hash = none)
    (hout : s.metadata.tables.inlineOutboard.get blob.hash = none)
    (hdisk : ∀ part, (blob.hash, part) ∈ s.disk → (complete data outboard).Owns part)
    (hloc : Located options blob data.splitInlineData.1 outboard.splitInlineData.1) :
    (s.update blob (.complete data outboard)).Complete options blob data.splitInlineData.1
      outboard.splitInlineData.1 := by
  rw [update_none hget hftx]
  refine ⟨Table.get_insert_self, hloc, ?_, ?_, ?_⟩
  · intro part hpart
    exact owns_split_iff.mp (hdisk part hpart)
  · intro hrow
    exact inline_of_split ((row_of_insertSome hrow).resolve_right (absurd hdata))
  · intro hrow
    exact inline_of_split_outboard ((row_of_insertSome hrow).resolve_right (absurd hout))

/-- A partial entry becomes complete; its sizes and bitfield files go. -/
lemma complete_of_incomplete (h : s.Incomplete blob)
    (hown : bothOwned (.complete data outboard) = true)
    (hloc : Located options blob data.splitInlineData.1 outboard.splitInlineData.1) :
    (s.update blob (.complete data outboard)).Complete options blob data.splitInlineData.1
      outboard.splitInlineData.1 := by
  obtain ⟨size, hget, _⟩ := h.entry
  have hspl : (complete data outboard).split.1 =
      .complete data.splitInlineData.1 outboard.splitInlineData.1 := rfl
  have hres : union (.incomplete size) (complete data outboard).split.1 =
      .ok (.complete data.splitInlineData.1 outboard.splitInlineData.1) := rfl
  simp only [bothOwned, Bool.and_eq_true, decide_eq_true_eq] at hown
  rw [update_some hget hres hftx, hspl]
  refine ⟨Table.get_insert_self, hloc, ?_, ?_, ?_⟩
  · intro part hpart
    simp only [isPartial, isComplete, Bool.and_self, if_true,
      Finset.mem_sdiff, mem_filesOf] at hpart
    cases part with
    | data => exact owns_split_iff.mp hown.1
    | outboard => exact owns_split_iff.mp hown.2
    | sizes | bitfield => exact absurd ⟨trivial, by simp⟩ hpart.2
  · intro hrow
    exact inline_of_split ((row_of_insertSome hrow).resolve_right (absurd h.data))
  · intro hrow
    exact inline_of_split_outboard ((row_of_insertSome hrow).resolve_right (absurd h.outboard))

/-- A complete entry is updated with a complete state, whose files are in place. -/
lemma complete_of_complete {d : DataLocation Unit Nat} {o : OutboardLocation Unit}
    (hget : s.metadata.tables.blobs.get blob.hash = some (.complete d o))
    (hold : Located options blob d o)
    (hnew : Located options blob data.splitInlineData.1 outboard.splitInlineData.1)
    (hdisk : ∀ part, (blob.hash, part) ∈ s.disk →
      (complete d o).Owns part ∨ (complete data outboard).Owns part)
    (hdata : s.metadata.tables.inlineData.get blob.hash ≠ none → d = .inline ())
    (hout : s.metadata.tables.inlineOutboard.get blob.hash ≠ none → o = .inline ()) :
    ∃ d', (s.update blob (.complete data outboard)).Complete options blob d' o := by
  obtain ⟨d', hunion, hloc, hown⟩ := located_union hold hnew
  have hres : union (.complete d o) (complete data outboard).split.1 =
      .ok (.complete d' o) := by
    show (do
      let x ← d.union data.splitInlineData.1
      return .complete x o : Except String (EntryState Unit)) = _
    rw [hunion]
    rfl
  have ho : o = outboard.splitInlineData.1 := hold.outboard.trans hnew.outboard.symm
  refine ⟨d', ?_⟩
  rw [update_some hget hres hftx]
  refine ⟨Table.get_insert_self, hloc, ?_, ?_, ?_⟩
  · intro part hpart
    exact hown part ((hdisk part hpart).imp_right owns_split_iff.mp)
  · intro hrow
    refine hloc.inlined.mp ?_
    rcases row_of_insertSome hrow with hrow | hrow
    · exact hnew.inlined.mpr (inline_of_split hrow)
    · exact hold.inlined.mpr (hdata hrow)
  · intro hrow
    rcases row_of_insertSome hrow with hrow | hrow
    · rw [ho]
      exact inline_of_split_outboard hrow
    · exact hout hrow

end

/-! ## Partial entries -/

variable {size : Option Nat} {batch : List BaoContentItem} {update old : Bitfield}

lemma size_of_validatedSize {b : Bitfield} {n : Nat} (h : b.isValidated = true → b.size = n) :
    ∀ m, b.validatedSize = some m → m = n := by
  intro m hm
  unfold Bitfield.validatedSize at hm
  split at hm
  · rename_i hval
    cases hm
    exact h hval
  · cases hm

lemma ftx_update (h : s.metadata.tables.ftx = ∅) :
    (s.update blob state).metadata.tables.ftx = ∅ := by
  unfold update
  split
  · rfl
  · exact h

lemma storage_update : (s.update blob state).storage = s.storage := by
  unfold update
  split <;> rfl

lemma incomplete_of_none (hftx : s.metadata.tables.ftx = ∅)
    (hget : s.metadata.tables.blobs.get blob.hash = none)
    (hdata : s.metadata.tables.inlineData.get blob.hash = none)
    (hout : s.metadata.tables.inlineOutboard.get blob.hash = none)
    (hsize : ∀ n, size = some n → n = blob.data.length) :
    (s.update blob (.incomplete size)).Incomplete blob := by
  rw [update_none hget hftx]
  exact ⟨⟨size, Table.get_insert_self, hsize⟩, hdata, hout⟩

lemma unionSize_ok {a b : Option Nat} {n : Nat} (ha : ∀ m, a = some m → m = n)
    (hb : ∀ m, b = some m → m = n) : ∃ c, unionSize a b = .ok c ∧ ∀ m, c = some m → m = n := by
  cases a with
  | none => cases b with
    | none => exact ⟨none, rfl, ha⟩
    | some y => exact ⟨some y, rfl, hb⟩
  | some x => cases b with
    | none => exact ⟨some x, rfl, ha⟩
    | some y =>
      refine ⟨some x, ?_, ha⟩
      simp [unionSize, ha x rfl, hb y rfl]

lemma incomplete_of_incomplete (hftx : s.metadata.tables.ftx = ∅) (h : s.Incomplete blob)
    (hsize : ∀ n, size = some n → n = blob.data.length) :
    (s.update blob (.incomplete size)).Incomplete blob := by
  obtain ⟨old, hget, hold⟩ := h.entry
  obtain ⟨res, hunion, hres⟩ := unionSize_ok hold hsize
  have hstat : union (.incomplete old) (incomplete size).split.1 =
      .ok (.incomplete res) := by
    show (do
      let x ← unionSize old size
      return .incomplete x : Except String (EntryState Unit)) = _
    rw [hunion]
    rfl
  rw [update_some hget hstat hftx]
  exact ⟨⟨res, Table.get_insert_self, hres⟩, h.data, h.outboard⟩

/-! ## Operations keep the invariant -/

lemma Inv.load (h : s.Inv options blob) (scanned : Bitfield) :
    (s.load options blob scanned).Inv options blob ∧
      (s.load options blob scanned).storage ≠ .initial ∧
      (s.load options blob scanned).metadata = s.metadata := by
  by_cases hinit : s.storage = .initial
  · rw [BlobStore.load, if_pos hinit]
    by_cases hemp : blob.hash = .empty
    · rw [if_pos hemp]
      cases h with
      | absent hftx h hstorage =>
        exact ⟨.absent hftx ⟨h.entry, h.disk, h.data, h.outboard⟩ (.inr (.inr ⟨rfl, hemp⟩)),
          by simp, rfl⟩
      | incomplete hftx h hne | complete hftx data outboard h hne => exact absurd hemp hne
    · rw [if_neg hemp]
      cases h with
      | absent hftx h hstorage =>
        simp only [h.entry]
        exact ⟨.absent hftx ⟨h.entry, h.disk, h.data, h.outboard⟩ (.inr (.inl ⟨rfl, hemp⟩)),
          by simp, trivial⟩
      | incomplete hftx h hne bitfield hbitfield hstorage =>
        obtain ⟨size, hget, hsize⟩ := h.entry
        have hsav : s.savedBitfield = some bitfield := by
          rcases hstorage with hs | ⟨_, hs⟩
          · rw [hinit] at hs
            cases hs
          · exact hs
        simp only [hget, loadPartial, hsav, Option.getD_some, hbitfield]
        exact ⟨.incomplete hftx ⟨⟨size, hget, hsize⟩, h.data, h.outboard⟩ hne bitfield hbitfield
          (.inl rfl), by simp, rfl⟩
      | complete hftx data outboard h hne hstorage =>
        simp only [h.entry]
        exact ⟨.complete hftx data outboard ⟨h.entry, h.located, h.disk, h.data, h.outboard⟩ hne
          (.inr rfl), by simp, trivial⟩
  · rw [BlobStore.load, if_neg hinit]
    exact ⟨h, hinit, rfl⟩

lemma owns_of_completeMem (h : s.Absent blob)
    (hpart : (blob.hash, part) ∈ (s.completeMem options blob blob.data.length).disk) :
    (completeState options blob blob.data.length).Owns part := by
  have hnot := h.disk part
  unfold completeMem at hpart
  unfold completeState completeData completeOutboard
  by_cases hdata : options.isInlinedData blob.data.length = true <;>
    by_cases hout :
      options.isInlinedOutboard (rawOutboardSize blob.data.length) = true <;>
    cases part <;>
    simp [hdata, hout, create, mem_filesOf, hnot, EntryState.Owns] at hpart ⊢

lemma inv_writeMem (hftx : s.metadata.tables.ftx = ∅) (h : s.Absent blob) (hne : blob.hash ≠ .empty)
    (hverified : (old.combine update).isValidated = true →
      (old.combine update).size = blob.data.length)
    (htidy : (old.combine update).isComplete = true → maxOffset batch ≤ options.maxDataInlined) :
    (s.writeMem options blob batch old update).Inv options blob := by
  have hinc : (old.combine update).isComplete = false →
      ({ s.persistMem blob with storage := .partialFile (old.combine update) }.update blob
        (.incomplete (old.combine update).validatedSize)).Inv options blob := by
    intro hcom
    have hftx' : ({ s.persistMem blob with
        storage := .partialFile (old.combine update) } : BlobStore).metadata.tables.ftx = ∅ := by
      simp [persistMem, protect, create, DeleteSet.protect, hftx]
    refine .incomplete (ftx_update hftx') ?_ hne _ hcom (.inl storage_update)
    exact incomplete_of_none hftx' h.entry h.data h.outboard (size_of_validatedSize hverified)
  unfold writeMem
  by_cases hcom : (old.combine update).isComplete = true
  · have hsize := hverified (Bitfield.validated_of_complete hcom)
    simp only [htidy hcom, if_true, hcom, hsize]
    have htab : (s.completeMem options blob blob.data.length).metadata = s.metadata := by
      unfold completeMem
      split <;> split <;> rfl
    refine .complete (ftx_update ?_) _ _ (complete_of_none ?_ ?_ ?_ ?_ (fun part hpart => ?_)
      located_completeState) hne (.inr storage_update)
    · exact htab ▸ hftx
    · exact htab ▸ hftx
    · exact htab ▸ h.entry
    · exact htab ▸ h.data
    · exact htab ▸ h.outboard
    · exact owns_of_completeMem h hpart
  · have hfal : (old.combine update).isComplete = false := by simpa using hcom
    simp only [hfal, Bool.false_eq_true, if_false, ite_self]
    exact hinc hfal

lemma inv_writeFile (hftx : s.metadata.tables.ftx = ∅)
    (h : s.Incomplete blob) (hne : blob.hash ≠ .empty)
    (hverified : (old.combine update).isValidated = true →
      (old.combine update).size = blob.data.length)
    (htidy : (old.combine update).isComplete = true →
      bothOwned (completeState options blob (old.combine update).size) = true) :
    (s.writeFile options blob old update).Inv options blob := by
  unfold writeFile
  by_cases hcom : (old.combine update).isComplete = true
  · have hsize := hverified (Bitfield.validated_of_complete hcom)
    have hown := htidy hcom
    rw [hsize] at hown
    simp only [hcom, if_true, hsize]
    refine .complete (ftx_update hftx) _ _ (complete_of_incomplete hftx ?_ hown
      located_completeState) hne (.inr storage_update)
    exact ⟨h.entry, h.data, h.outboard⟩
  · have hfal : (old.combine update).isComplete = false := by simpa using hcom
    simp only [hfal, Bool.false_eq_true, if_false]
    split
    · refine .incomplete (ftx_update hftx) ?_ hne _ hfal (.inl storage_update)
      refine incomplete_of_incomplete hftx ?_ (size_of_validatedSize hverified)
      exact ⟨h.entry, h.data, h.outboard⟩
    · exact .incomplete hftx ⟨h.entry, h.data, h.outboard⟩ hne _ hfal (.inl rfl)

lemma Inv.writeBatch (h : s.Inv options blob) (hinit : s.storage ≠ .initial)
    (hverified : ∀ new ∈ s.merged update, new.isValidated = true → new.size = blob.data.length)
    (htidy : ∀ new ∈ s.merged update, new.isComplete = true →
      leavesNone options blob s.storage batch new.size = true) :
    (s.writeBatch options blob batch update).Inv options blob := by
  have hinv := h
  cases h with
  | absent hftx h hstorage =>
    rcases hstorage with hs | ⟨hs, hne⟩ | ⟨hs, hemp⟩
    · exact absurd hs hinit
    · simp only [merged, hs, leavesNone, Option.mem_def, Option.some.injEq, forall_eq',
        decide_eq_true_eq] at hverified htidy
      simp only [BlobStore.writeBatch, hs]
      exact inv_writeMem hftx h hne hverified htidy
    · simp only [BlobStore.writeBatch, hs]
      exact hinv
  | incomplete hftx h hne bitfield hbitfield hstorage =>
    rcases hstorage with hs | ⟨hs, _⟩
    · simp only [merged, hs, leavesNone, Option.mem_def, Option.some.injEq,
        forall_eq'] at hverified htidy
      simp only [BlobStore.writeBatch, hs]
      exact inv_writeFile hftx h hne hverified htidy
    · exact absurd hs hinit
  | complete hftx data outboard h hne hstorage =>
    rcases hstorage with hs | hs
    · exact absurd hs hinit
    · simp only [BlobStore.writeBatch, hs]
      exact hinv

lemma mem_moveFiles {entry : ImportEntry} (h : (blob.hash, part) ∈ (s.moveFiles blob entry).disk) :
    (blob.hash, part) ∈ s.disk ∨ entry.state.Owns part := by
  unfold moveFiles at h
  by_cases hdata : entry.state.Owns .data <;> by_cases hout : entry.state.Owns .outboard <;>
    simp only [hdata, hout, if_true, if_false, create, Finset.mem_union, mem_filesOf,
      mem_singleton, true_and] at h
  · rcases h with (h | rfl) | rfl
    · exact .inl h
    · exact .inr hdata
    · exact .inr hout
  · rcases h with h | rfl
    · exact .inl h
    · exact .inr hdata
  · rcases h with h | rfl
    · exact .inl h
    · exact .inr hout
  · exact .inl h

lemma metadata_moveFiles {entry : ImportEntry} :
    (s.moveFiles blob entry).metadata = s.metadata := by
  unfold moveFiles
  split <;> split <;> rfl

/-- What an import does before its update: it moves its files, and the handle is complete. -/
lemma prepared (entry : ImportEntry) (hftx : s.metadata.tables.ftx = ∅)
    (hinit : s.storage ≠ .initial) (hpois : s.storage ≠ .poisoned) :
    let s' := ((s.protect blob [.data, .outboard]).moveFiles blob entry).completeHandle
    s'.metadata = s.metadata ∧ s'.storage = .complete ∧
      ∀ part, (blob.hash, part) ∈ s'.disk → (blob.hash, part) ∈ s.disk ∨ entry.state.Owns part := by
  have hprot : s.protect blob [.data, .outboard] = s := by
    obtain ⟨storage, disk, saved, ⟨blobs, inlineData, inlineOutboard, ftx⟩, hashes⟩ := s
    cases hftx
    simp [protect, DeleteSet.protect]
  have hstorage : (s.moveFiles blob entry).storage = s.storage := by
    unfold moveFiles
    split <;> split <;> rfl
  have hhan : (s.moveFiles blob entry).completeHandle =
      { s.moveFiles blob entry with storage := .complete } := by
    unfold completeHandle
    rw [hstorage]
    cases hs : s.storage with
    | initial => exact absurd hs hinit
    | nonExisting | partialMem bitfield | partialFile bitfield => rfl
    | complete =>
      have hsame : (s.moveFiles blob entry).storage = .complete := hstorage.trans hs
      show s.moveFiles blob entry = { s.moveFiles blob entry with storage := .complete }
      rw [← hsame]
    | poisoned => exact absurd hs hpois
  rw [hprot, hhan]
  exact ⟨metadata_moveFiles, rfl, fun part => mem_moveFiles⟩

section
variable (h : s.Inv options blob)
include h

lemma Inv.finishImport (hinit : s.storage ≠ .initial) (reference : Option PathBuf)
    (htidy : ∀ size, s.metadata.tables.blobs.get blob.hash = some (.incomplete size) →
      bothOwned (importEntry options blob reference).state = true) :
    (s.finishImport options blob reference).Inv options blob := by
  unfold BlobStore.finishImport
  by_cases hemp : blob.hash = .empty
  · rw [if_pos hemp]
    exact h
  rw [if_neg hemp]
  dsimp only
  have hpois : s.storage ≠ .poisoned := h.not_poisoned
  have hftx := h.ftx
  obtain ⟨hmeta, hstorage, hdisk⟩ :=
    prepared (importEntry options blob reference) hftx hinit hpois
  generalize ((s.protect blob [.data, .outboard]).moveFiles blob
    (importEntry options blob reference)).completeHandle = s' at hmeta hstorage hdisk ⊢
  have hftx' : s'.metadata.tables.ftx = ∅ := hmeta ▸ hftx
  have hloc := @located_importEntry _ options blob reference
  have hstorage' : (s'.update blob (importEntry options blob reference).state).storage =
      .complete := storage_update.trans hstorage
  cases h with
  | absent _ h _ =>
    refine .complete (ftx_update hftx') _ _ (complete_of_none hftx' ?_ ?_ ?_ ?_ hloc) hemp
      (.inr hstorage')
    · exact hmeta ▸ h.entry
    · exact hmeta ▸ h.data
    · exact hmeta ▸ h.outboard
    · intro part hpart
      exact (hdisk part hpart).resolve_left (h.disk part)
  | incomplete _ h _ _ _ _ =>
    obtain ⟨size, hget, hsize⟩ := h.entry
    refine .complete (ftx_update hftx') _ _ (complete_of_incomplete hftx' ?_ (htidy size hget)
      hloc) hemp (.inr hstorage')
    exact ⟨⟨size, hmeta ▸ hget, hsize⟩, hmeta ▸ h.data, hmeta ▸ h.outboard⟩
  | complete _ data outboard h _ _ =>
    obtain ⟨data', hdone⟩ := complete_of_complete hftx' (hmeta ▸ h.entry) h.located hloc
      (fun part hpart => (hdisk part hpart).imp_left (h.disk part)) (hmeta ▸ h.data)
      (hmeta ▸ h.outboard)
    exact .complete (ftx_update hftx') _ _ hdone hemp (.inr hstorage')

lemma Inv.shutdown : (s.shutdown blob).Inv options blob := by
  unfold BlobStore.shutdown
  cases h with
  | absent hftx h hstorage =>
    have hnot : ∀ bitfield, s.storage ≠ .partialFile bitfield := by
      intro bitfield hs
      rcases hstorage with h | ⟨h, _⟩ | ⟨h, _⟩ <;> simp [hs] at h
    split
    · rename_i hs
      exact absurd hs (hnot _)
    · exact .absent hftx ⟨h.entry, h.disk, h.data, h.outboard⟩ (.inl rfl)
  | incomplete hftx h hne bitfield hbitfield hstorage =>
    have hkept : ∀ b, (s.storage = .partialFile b → b = bitfield) := by
      intro b hs
      rcases hstorage with h | ⟨h, _⟩
      · rw [hs] at h
        cases h
        rfl
      · simp [hs] at h
    split
    · rename_i b hs
      rw [hkept b hs]
      exact .incomplete hftx ⟨h.entry, h.data, h.outboard⟩ hne bitfield hbitfield
        (.inr ⟨rfl, rfl⟩)
    · rename_i hs
      have hsav := hstorage.resolve_left (hs bitfield)
      exact .incomplete hftx ⟨h.entry, h.data, h.outboard⟩ hne bitfield hbitfield
        (.inr ⟨rfl, hsav.2⟩)
  | complete hftx data outboard h hne hstorage =>
    have hnot : ∀ bitfield, s.storage ≠ .partialFile bitfield := by
      intro bitfield hs
      rcases hstorage with h | h <;> simp [hs] at h
    split
    · rename_i hs
      exact absurd hs (hnot _)
    · exact .complete hftx data outboard ⟨h.entry, h.located, h.disk, h.data, h.outboard⟩ hne
        (.inl rfl)

lemma Inv.clearProtected :
    ({ s with metadata := { s.metadata with protectedHashes := ∅ } } : BlobStore).Inv options
      blob := by
  cases h with
  | absent hftx h hstorage =>
    exact .absent hftx ⟨h.entry, h.disk, h.data, h.outboard⟩ hstorage
  | incomplete hftx h hne bitfield hbitfield hstorage =>
    exact .incomplete hftx ⟨h.entry, h.data, h.outboard⟩ hne bitfield hbitfield hstorage
  | complete hftx data outboard h hne hstorage =>
    exact .complete hftx data outboard ⟨h.entry, h.located, h.disk, h.data, h.outboard⟩ hne
      hstorage

lemma Inv.step {op : Operation} (hverified : s.Verified options blob op)
    (htidy : s.Tidy options blob op) : (s.step options blob op).Inv options blob := by
  cases op with
  | writeBatch batch update scanned =>
    obtain ⟨hload, hinit, _⟩ := h.load scanned
    exact hload.writeBatch hinit hverified htidy
  | finishImport reference scanned =>
    obtain ⟨hload, hinit, hmeta⟩ := h.load scanned
    exact hload.finishImport hinit reference (hmeta ▸ htidy)
  | shutdown => exact h.shutdown
  | clearProtected => exact h.clearProtected

end

/-! ## Deletes -/

lemma delete_of_carriesOut {force : Bool} (h : s.CarriesOut blob force) :
    s.delete blob force = { s with metadata := { s.metadata with
      tables := s.metadata.tables.deleteHash blob.hash } }.commit := by
  have hgo : (!force && decide (blob.hash ∈ s.metadata.protectedHashes)) = false := by
    rcases h.1 with h | h <;> simp [h]
  simp only [delete, MetaState.delete, foldl_cons, foldl_nil, MetaState.deleteOne, hgo,
    Bool.false_eq_true, if_false]

/-- A delete of an entry that covers all files and names all rows leaves nothing. -/
lemma Inv.gone_delete (h : s.Inv options blob) {force : Bool}
    (hgo : s.CarriesOut blob force) : (s.delete blob force).Gone blob := by
  rw [delete_of_carriesOut hgo]
  cases h with
  | absent hftx h _ =>
    have hsome := hgo.2
    rw [h.entry] at hsome
    cases hsome
  | incomplete hftx h _ _ _ _ =>
    obtain ⟨size, hget, _⟩ := h.entry
    refine ⟨fun part hpart => ?_, ?_, ?_⟩
    · refine (Finset.mem_sdiff.mp hpart).2 (Tables.mem_ftx_deleteHash.mpr (.inr ⟨rfl, ?_⟩))
      exact ⟨_, hget, .inl rfl⟩
    · simpa [commit, Tables.deleteHash, hget, Tables.deleteEntry, Tables.delete] using h.data
    · simpa [commit, Tables.deleteHash, hget, Tables.deleteEntry, Tables.delete] using h.outboard
  | complete hftx data outboard h _ _ =>
    refine ⟨fun part hpart => ?_, ?_, ?_⟩
    · obtain ⟨hmem, hnot⟩ := Finset.mem_sdiff.mp hpart
      exact hnot (Tables.mem_ftx_deleteHash.mpr (.inr ⟨rfl, _, h.entry, .inr (h.disk part hmem)⟩))
    · simp only [commit, Tables.deleteHash, h.entry, Tables.deleteEntry]
      by_cases hrow : s.metadata.tables.inlineData.get blob.hash = none
      · cases data <;> cases outboard <;>
          simp [Tables.deleteData, Tables.deleteOutboard, Tables.delete, hrow, Table.get_remove_self]
      · cases h.data hrow
        cases outboard <;>
          simp [Tables.deleteData, Tables.deleteOutboard, Tables.delete, Table.get_remove_self]
    · simp only [commit, Tables.deleteHash, h.entry, Tables.deleteEntry]
      by_cases hrow : s.metadata.tables.inlineOutboard.get blob.hash = none
      · cases data <;> cases outboard <;>
          simp [Tables.deleteData, Tables.deleteOutboard, Tables.delete, hrow, Table.get_remove_self]
      · cases h.outboard hrow
        cases data <;>
          simp [Tables.deleteData, Tables.deleteOutboard, Tables.delete, Table.get_remove_self]

/-- After every history in which a blob with partial files becomes complete only
with both files owned, a delete that is carried out leaves nothing of the blob. -/
theorem delete_leaves_nothing {ops : List Operation}
    (hverified : Along (step options blob) (Verified options blob) new ops)
    (htidy : Along (step options blob) (Tidy options blob) new ops) {force : Bool}
    (hgo : (run (step options blob) new ops).CarriesOut blob force) :
    ((run (step options blob) new ops).delete blob force).Gone blob := by
  have hinv : Throughout (step options blob) (Inv options blob) new ops :=
    throughout_of_along (fun _ _ hinv h => hinv.step h.1 h.2) inv_new (hverified.and htidy)
  exact hinv.last.gone_delete hgo

end BlobStore
end

namespace BlobStore

/-! ## Files that are left behind -/

/-- `raw_outboard_size`: a pair of hashes for each block of 16 KiB but the first one. -/
def rawOutboardSize (size : Nat) : Nat := 64 * ((size + 16383) / 16384 - 1)

lemma rawOutboardSize_twoBlocks :
    (replicate 64 (0 : Byte)).length = rawOutboardSize (replicate 16385 (0 : Byte)).length := by
  rw [length_replicate, length_replicate]
  rfl

def twoBlocks : Blob rawOutboardSize where
  hash := .zero 32
  data := replicate 16385 0
  outboard := replicate 64 0
  outboard_length := rawOutboardSize_twoBlocks

def nothingInlined : InlineOptions := ⟨0, 0⟩

def firstBlock : Operation :=
  .writeBatch [.leaf ⟨0, replicate 16384 0⟩] ⟨16385, .below 16⟩ .empty

def lastBlock : Operation :=
  .writeBatch [.leaf ⟨16384, [0]⟩] ⟨16385, ⟨{16}, none⟩⟩ .empty

/-- A download in two batches, with the handle given back in between, and an import. -/
def downloaded : List Operation :=
  [firstBlock, .shutdown, lastBlock, .finishImport none .empty, .clearProtected]

theorem downloaded_gone :
    (run (step nothingInlined twoBlocks) new downloaded).CarriesOut twoBlocks false ∧
    ((run (step nothingInlined twoBlocks) new downloaded).delete twoBlocks false).Gone
      twoBlocks := by
  refine ⟨?out, delete_leaves_nothing (by decide +kernel) (by decide +kernel) ?out⟩
  unfold CarriesOut
  decide +kernel

def outboardInlined : InlineOptions := ⟨0, 64⟩

/-- The download completes with an inlined outboard, and nothing ever deletes its outboard file. -/
theorem outboard_file_left :
    Along (step outboardInlined twoBlocks) (Verified outboardInlined twoBlocks) new downloaded ∧
    (run (step outboardInlined twoBlocks) new downloaded).CarriesOut twoBlocks false ∧
    (twoBlocks.hash, .outboard) ∈
      ((run (step outboardInlined twoBlocks) new downloaded).delete twoBlocks false).disk := by
  refine ⟨by decide +kernel, ?_, by decide +kernel⟩
  unfold CarriesOut
  decide +kernel

end BlobStore
end Krikos.Blobs.Fs
