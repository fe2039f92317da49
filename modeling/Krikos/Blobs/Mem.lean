import Krikos.Blobs.Gc

/-!
# Blobs.Mem

The actor of the in-memory store (`krikos-blobs/src/store/mem.rs`): its state, the commands that
change it, and how imports finish. `Bao` stands for the `bao-tree` crate, with what it documents
about a validated traversal of complete data.

The actor is a backend for garbage collection (`Actor.backend`).
-/

namespace Krikos.Blobs.Mem

open Lib

/-- `BaoFileStorage`: `Partial`, with storage of a type `P`, and `Complete`. -/
inductive BaoFileStorage (P : Type) where
  | incomplete (storage : P)
  | complete (data outboard : Bytes)

/-- The store's use of `bao-tree`: the root hash and the outboard of some data, and the items that
a traversal of all ranges sends for an entry. -/
structure Bao where
  Partial : Type
  newPartial : Partial
  blake3 : Bytes → Hash
  outboard : Bytes → Bytes
  traverse : Hash → BaoFileStorage Partial → List EncodedItem
  traverse_complete : ∀ data,
    (traverse (blake3 data) (.complete data (outboard data))).filterMap EncodedItem.leaf? =
      leavesFrom 0 data

structure Actor (bao : Bao) where
  data : Table Hash (BaoFileStorage bao.Partial)
  tags : Table Tag HashAndFormat
  emptyHash : BaoFileStorage bao.Partial
  tempTags : TempTags
  protectedHashes : Finset Hash

structure ListTagsRequest where
  start : Option Tag
  stop : Option Tag
  raw : Bool
  hashSeq : Bool

def ListTagsRequest.all : ListTagsRequest := ⟨none, none, true, true⟩

def ListTagsRequest.selects (req : ListTagsRequest) (row : Tag × HashAndFormat) : Bool :=
  req.start.all (fun start => decide (start ≤ row.1)) &&
    req.stop.all (fun stop => decide (row.1 < stop)) &&
    (req.raw && row.2.format.isRaw || req.hashSeq && row.2.format.isHashSeq)

/-- The result of an import task: the data, whose outboard and root the task has computed. -/
structure ImportEntry where
  data : Bytes
  scope : Scope
  format : BlobFormat

/-- The commands of a client that change the actor's state. A delete of blobs is not among them:
only garbage collection sends it. -/
inductive Command where
  | importBao (hash : Hash)
  | observe (hash : Hash)
  | deleteTags (start stop : Option Tag)
  | renameTag (source target : Tag)
  | setTag (tag : Tag) (value : HashAndFormat)
  | createTag (tag : Tag) (value : HashAndFormat)
  | createTempTag (scope : Scope) (value : HashAndFormat)
  | batch

namespace Actor
variable {bao : Bao}

def new (bao : Bao) : Actor bao :=
  ⟨.empty, .empty, .incomplete bao.newPartial, .default, ∅⟩

def get (a : Actor bao) (hash : Hash) : Option (BaoFileStorage bao.Partial) :=
  if hash = .empty then some a.emptyHash else a.data.get hash

variable (a : Actor bao)

/-- `get_or_create_entry`, which leaves the empty blob alone. -/
def createEntry (hash : Hash) : Actor bao :=
  if hash = .empty then a
  else match a.data.get hash with
    | some _ => a
    | none => { a with data := a.data.insert hash (.incomplete bao.newPartial) }

def setEntry (hash : Hash) (storage : BaoFileStorage bao.Partial) : Actor bao :=
  if hash = .empty then { a with emptyHash := storage }
  else { a with data := a.data.insert hash storage }

/-- `send_if_modified` with a change for incomplete entries only. -/
def modifyPartial (hash : Hash) (storage : BaoFileStorage bao.Partial) : Actor bao :=
  match a.get hash with
  | some (.incomplete _) => a.setEntry hash storage
  | _ => a

def listTags (req : ListTagsRequest) : List TagInfo :=
  (a.tags.rows.filter req.selects).map fun row => ⟨row.1, row.2.hash, row.2.format⟩

def deleteBlobs (hashes : List Hash) (force : Bool) : Actor bao :=
  hashes.foldl (fun a hash =>
    if !force && decide (hash ∈ a.protectedHashes) then a
    else { a with data := a.data.remove hash }) a

def exportBao (hash : Hash) : Option (BaoFileStorage bao.Partial) → List EncodedItem
  | none => [.error "hash not found"]
  | some entry => bao.traverse hash entry

/-- `handle_command` for the requests of garbage collection -/
def handle : (req : Request) → Actor bao → Actor bao × req.Response
  | .clearProtected, a => ({ a with protectedHashes := ∅ }, .ok ())
  | .listTags, a => (a, .ok ((a.listTags .all).map .ok))
  | .listTempTags, a => (a, .ok a.tempTags.list)
  | .exportBao hash, a => (a, exportBao hash (a.get hash))
  | .listBlobs, a => (a, .ok (a.data.rows.map fun row => .ok row.1))
  | .deleteBlobs hashes force, a => (a.deleteBlobs hashes force, .ok ())
  | .syncDb, a => (a, .ok ())

/-- `handle_command` for the other commands that change the state -/
def handleCommand : Command → Actor bao
  | .importBao hash => a.createEntry hash
  | .observe hash => a.createEntry hash
  | .deleteTags start stop =>
    { a with tags := a.tags.removeIf fun row =>
        start.all (fun start => decide (start ≤ row.1)) &&
          stop.all fun stop => decide (row.1 < stop) }
  | .renameTag source target =>
    match a.tags.get source with
    | none => a
    | some value => { a with tags := (a.tags.remove source).insert target value }
  | .setTag tag value => { a with tags := a.tags.insert tag value }
  | .createTag tag value => { a with tags := a.tags.insert tag value }
  | .createTempTag scope value => { a with tempTags := a.tempTags.create scope value }
  | .batch => { a with tempTags := a.tempTags.createScope.1 }

/-- The temp tag goes to the importing client. -/
def finishImport (entry : ImportEntry) : Actor bao :=
  let hash := bao.blake3 entry.data
  let a := a.createEntry hash
  let a := a.modifyPartial hash (.complete entry.data (bao.outboard entry.data))
  { a with tempTags := a.tempTags.create entry.scope ⟨hash, entry.format⟩ }

/-! ## A backend -/

/-- The data of a complete entry that matches its hash and its outboard. -/
def content (hash : Hash) : Option Bytes :=
  match a.get hash with
  | some (.complete data outboard) =>
    if hash = bao.blake3 data ∧ outboard = bao.outboard data then some data else none
  | _ => none

variable {a : Actor bao} {hash : Hash} {hashes : List Hash} {force : Bool}

lemma protectedHashes_deleteBlobs :
    (a.deleteBlobs hashes force).protectedHashes = a.protectedHashes := by
  unfold deleteBlobs
  induction hashes generalizing a with
  | nil => rfl
  | cons x hashes ih =>
    rw [List.foldl_cons, ih]
    split <;> rfl

lemma get_deleteBlobs : (a.deleteBlobs hashes force).data.get hash =
    if hash ∈ hashes ∧ ¬ (force = false ∧ hash ∈ a.protectedHashes) then none
    else a.data.get hash := by
  unfold deleteBlobs
  induction hashes generalizing a with
  | nil => simp
  | cons x hashes ih =>
    rw [List.foldl_cons]
    split
    · rename_i hskip
      have hprot : force = false ∧ x ∈ a.protectedHashes := by simpa using hskip
      rw [ih]
      by_cases hx : hash = x
      · subst hx
        simp [hprot.1, hprot.2]
      · simp [hx]
    · rename_i hkeep
      have hprot : ¬ (force = false ∧ x ∈ a.protectedHashes) := by simpa using hkeep
      rw [ih]
      by_cases hx : hash = x
      · subst hx
        rw [Table.get_remove_self, ite_self, if_pos ⟨List.mem_cons_self, hprot⟩]
      · simp only [Table.get_remove_of_ne hx, List.mem_cons, hx, false_or]

def view (bao : Bao) : View (Actor bao) where
  Has a hash := (a.data.get hash).isSome = true
  content := content
  tags a := a.listTags .all
  tempTags a := a.tempTags.list
  exported a hash := exportBao hash (a.get hash)
  Unprotected a := a.protectedHashes = ∅

lemma handle_answers (req : Request) (a : Actor bao) : (view bao).Answers req a (handle req a) := by
  cases req with
  | clearProtected => exact ⟨⟨fun _ => Iff.rfl, rfl, rfl, rfl⟩, fun _ => rfl⟩
  | listTags =>
    refine ⟨rfl, ?_⟩
    intro items roots h _
    cases h
    rfl
  | listTempTags =>
    refine ⟨rfl, ?_⟩
    intro tts h
    cases h
    rfl
  | exportBao hash => exact ⟨rfl, rfl⟩
  | listBlobs =>
    refine ⟨rfl, ?_⟩
    intro items h _ hash
    cases h
    show (a.data.get hash).isSome = true ↔ _
    rw [Option.isSome_iff_exists, List.mem_map]
    constructor
    · rintro ⟨storage, hget⟩
      exact ⟨_, Table.get_eq_some.mp hget, rfl⟩
    · rintro ⟨⟨key, storage⟩, hrow, hkey⟩
      cases hkey
      exact ⟨storage, Table.get_eq_some.mpr hrow⟩
  | deleteBlobs hashes force =>
    refine ⟨?_, ?_, ?_⟩
    · intro hash hhas hnot
      show ((a.deleteBlobs hashes force).data.get hash).isSome = true
      rw [get_deleteBlobs, if_neg fun h => hnot h.1]
      exact hhas
    · intro hash (hhas : ((a.deleteBlobs hashes force).data.get hash).isSome = true)
      rw [get_deleteBlobs] at hhas
      split at hhas
      · cases hhas
      · exact hhas
    · intro (hunp : a.protectedHashes = ∅)
      refine ⟨protectedHashes_deleteBlobs.trans hunp, ?_⟩
      intro _ hash hmem (hhas : ((a.deleteBlobs hashes force).data.get hash).isSome = true)
      have hgone : hash ∈ hashes ∧ ¬ (force = false ∧ hash ∈ a.protectedHashes) := by
        refine ⟨hmem, ?_⟩
        rw [hunp]
        simp
      rw [get_deleteBlobs, if_pos hgone] at hhas
      cases hhas
  | syncDb => rfl

lemma leaves_exported (a : Actor bao) (hash : Hash) (data : Bytes)
    (h : a.content hash = some data) :
    (exportBao hash (a.get hash)).filterMap EncodedItem.leaf? = leavesFrom 0 data := by
  unfold content at h
  split at h
  · rename_i stored outboard hget
    split at h
    · rename_i hval
      cases h
      obtain ⟨rfl, rfl⟩ := hval
      rw [hget]
      exact bao.traverse_complete data
    · cases h
  · cases h

def backend (bao : Bao) : Backend (Actor bao) where
  toView := view bao
  handle := handle
  answers := handle_answers
  leaves := leaves_exported

end Actor
end Krikos.Blobs.Mem
