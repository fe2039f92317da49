import Krikos.Blobs.TempTag
import Krikos.Lib.Check

/-!
# Blobs.Meta

The metadata of the file store: entry states (`store/fs/entry_state.rs`), the set of files to
delete with a transaction (`store/fs/delete_set.rs`), and the handlers of the metadata actor that
change entries (`store/fs/meta.rs`).

An entry owns at most the files that its locations name (`EntryState.Owns`). An update makes an
entry own what it owned before or what the update names (`owns_of_handleUpdate`), and a delete
marks what the removed entry owned (`handleDelete`).
-/

namespace Krikos.Blobs.Fs

open Lib

/-! ## Entry states -/

abbrev PathBuf := String

inductive DataLocation (I E : Type) where
  | inline (data : I)
  | owned (size : E)
  | external (paths : List PathBuf) (size : E)

namespace DataLocation
variable {I E X : Type}

/-- `union`; owned data wins, then inline data, and the paths of external data are merged. -/
def union : DataLocation X Nat → DataLocation X Nat → Except String (DataLocation X Nat)
  | .external paths aSize, .external bPaths bSize =>
    if aSize ≠ bSize then .error s!"complete size mismatch {aSize} {bSize}"
    else .ok (.external ((paths ++ bPaths).mergeSort (fun a b => decide (a ≤ b))).dedup aSize)
  | _, .owned size => .ok (.owned size)
  | .owned size, _ => .ok (.owned size)
  | _, .inline data => .ok (.inline data)
  | .inline data, _ => .ok (.inline data)

def splitInlineData : DataLocation I E → DataLocation Unit E × Option I
  | .inline data => (.inline (), some data)
  | .owned size => (.owned size, none)
  | .external paths size => (.external paths size, none)

end DataLocation

inductive OutboardLocation (I : Type) where
  | inline (data : I)
  | owned
  | notNeeded

def OutboardLocation.splitInlineData {I : Type} :
    OutboardLocation I → OutboardLocation Unit × Option I
  | .inline data => (.inline (), some data)
  | .owned => (.owned, none)
  | .notNeeded => (.notNeeded, none)

/-- `EntryState`: `Complete` and `Partial` -/
inductive EntryState (I : Type) where
  | complete (dataLocation : DataLocation I Nat) (outboardLocation : OutboardLocation I)
  | incomplete (size : Option Nat)

namespace EntryState
variable {I : Type}

def isComplete : EntryState I → Bool
  | .complete _ _ => true
  | .incomplete _ => false

def isPartial : EntryState I → Bool
  | .complete _ _ => false
  | .incomplete _ => true

def unionSize : Option Nat → Option Nat → Except String (Option Nat)
  | some aSize, some bSize =>
    if aSize ≠ bSize then .error s!"validated size mismatch {aSize} {bSize}" else .ok (some aSize)
  | some aSize, none => .ok (some aSize)
  | none, some bSize => .ok (some bSize)
  | none, none => .ok none

/-- Complete wins over partial; of two complete entries the outboard of the old one stays. -/
def union : EntryState Unit → EntryState Unit → Except String (EntryState Unit)
  | .complete data outboard, .complete bData _ => do
    let data ← data.union bData
    return .complete data outboard
  | .complete data outboard, .incomplete _ => .ok (.complete data outboard)
  | .incomplete _, .complete data outboard => .ok (.complete data outboard)
  | .incomplete aSize, .incomplete bSize => do
    let size ← unionSize aSize bSize
    return .incomplete size

def split : EntryState Bytes → EntryState Unit × Option Bytes × Option Bytes
  | .complete data outboard =>
    (.complete data.splitInlineData.1 outboard.splitInlineData.1,
      data.splitInlineData.2, outboard.splitInlineData.2)
  | .incomplete size => (.incomplete size, none, none)

end EntryState

/-! ## Files to delete -/

inductive BaoFilePart where
  | outboard
  | data
  | sizes
  | bitfield
  deriving DecidableEq

lemma mem_allParts (part : BaoFilePart) :
    part ∈ ({.outboard, .data, .sizes, .bitfield} : Finset BaoFilePart) := by
  cases part <;> decide

instance : Fintype BaoFilePart := ⟨_, mem_allParts⟩

abbrev BaoFile := Hash × BaoFilePart

def filesOf (hash : Hash) (parts : List BaoFilePart) : Finset BaoFile :=
  (parts.map fun part => (hash, part)).toFinset

lemma mem_filesOf {hash : Hash} {parts : List BaoFilePart} {file : BaoFile} :
    file ∈ filesOf hash parts ↔ file.1 = hash ∧ file.2 ∈ parts := by
  obtain ⟨h, part⟩ := file
  simp [filesOf, and_comm, eq_comm]

abbrev DeleteSet := Finset BaoFile

def DeleteSet.delete (ds : DeleteSet) (hash : Hash) (parts : List BaoFilePart) : DeleteSet :=
  ds ∪ filesOf hash parts

def DeleteSet.protect (ds : DeleteSet) (hash : Hash) (parts : List BaoFilePart) : DeleteSet :=
  ds \ filesOf hash parts

/-! ## Handlers -/

/-- The tables of a write transaction with its file transaction. -/
structure Tables where
  blobs : Table Hash (EntryState Unit)
  inlineData : Table Hash Bytes
  inlineOutboard : Table Hash Bytes
  ftx : DeleteSet

/-- What the actor keeps: the tables and the hashes protected from deletion. -/
structure MetaState where
  tables : Tables
  protectedHashes : Finset Hash

def insertSome (t : Table Hash Bytes) (hash : Hash) : Option Bytes → Table Hash Bytes
  | some bytes => t.insert hash bytes
  | none => t

namespace Tables

def empty : Tables := ⟨.empty, .empty, .empty, ∅⟩

/-- The rows of an entry and of its inlined bytes. -/
def store (t : Tables) (hash : Hash) (state : EntryState Unit) (data outboard : Option Bytes) :
    Tables :=
  { t with
    blobs := t.blobs.insert hash state
    inlineData := insertSome t.inlineData hash data
    inlineOutboard := insertSome t.inlineOutboard hash outboard }

def delete (t : Tables) (hash : Hash) (parts : List BaoFilePart) : Tables :=
  { t with ftx := t.ftx.delete hash parts }

end Tables

namespace MetaState

def handleUpdate (m : MetaState) (hash : Hash) (state : EntryState Bytes) :
    Except String MetaState := do
  let protectedHashes := insert hash m.protectedHashes
  let (state, data, outboard) := state.split
  match m.tables.blobs.get hash with
  | some old =>
    let partialToComplete := old.isPartial && state.isComplete
    let res ← old.union state
    let tables := if partialToComplete then m.tables.delete hash [.sizes, .bitfield] else m.tables
    return ⟨tables.store hash res data outboard, protectedHashes⟩
  | none => return ⟨m.tables.store hash state data outboard, protectedHashes⟩

def handleSet (m : MetaState) (hash : Hash) (state : EntryState Bytes) : MetaState :=
  let (state, data, outboard) := state.split
  ⟨m.tables.store hash state data outboard, insert hash m.protectedHashes⟩

end MetaState

namespace Tables

def deleteData (t : Tables) (hash : Hash) : DataLocation Unit Nat → Tables
  | .inline _ => { t with inlineData := t.inlineData.remove hash }
  | .owned _ => t.delete hash [.data]
  | .external _ _ => t

def deleteOutboard (t : Tables) (hash : Hash) : OutboardLocation Unit → Tables
  | .inline _ => { t with inlineOutboard := t.inlineOutboard.remove hash }
  | .owned => t.delete hash [.outboard]
  | .notNeeded => t

def deleteEntry (t : Tables) (hash : Hash) : EntryState Unit → Tables
  | .complete data outboard => (t.deleteData hash data).deleteOutboard hash outboard
  | .incomplete _ => t.delete hash [.outboard, .data, .sizes, .bitfield]

def deleteHash (t : Tables) (hash : Hash) : Tables :=
  match t.blobs.get hash with
  | none => t
  | some entry => { t with blobs := t.blobs.remove hash }.deleteEntry hash entry

end Tables

/-- `Actor::delete` for one hash -/
def MetaState.deleteOne (m : MetaState) (force : Bool) (hash : Hash) : MetaState :=
  if !force && decide (hash ∈ m.protectedHashes) then m
  else { m with tables := m.tables.deleteHash hash }

def MetaState.delete (m : MetaState) (hashes : List Hash) (force : Bool) : MetaState :=
  hashes.foldl (fun m hash => m.deleteOne force hash) m

/-! ## Owned files -/

namespace EntryState
variable {I : Type} {part : BaoFilePart}

def Owns : EntryState I → BaoFilePart → Prop
  | .complete (.owned _) _, .data => True
  | .complete _ .owned, .outboard => True
  | _, _ => False

lemma owns_iff {state : EntryState I} : state.Owns part ↔
    (part = .data ∧ ∃ size outboard, state = .complete (.owned size) outboard) ∨
      (part = .outboard ∧ ∃ data, state = .complete data .owned) := by
  rcases state with ⟨data | data | data, outboard | outboard | outboard⟩ | size <;>
    cases part <;> simp [Owns]

instance (state : EntryState I) (part : BaoFilePart) : Decidable (state.Owns part) := by
  unfold Owns
  split <;> infer_instance

def Covers (entry : EntryState I) (part : BaoFilePart) : Prop :=
  entry.isPartial = true ∨ entry.Owns part

instance (entry : EntryState I) (part : BaoFilePart) : Decidable (entry.Covers part) :=
  inferInstanceAs (Decidable (_ ∨ _))

lemma owns_split {state : EntryState Bytes} (h : state.split.1.Owns part) : state.Owns part := by
  rcases state with ⟨data | data | data, outboard | outboard | outboard⟩ | size <;>
    cases part <;> exact h

lemma owns_union {a b c : EntryState Unit} (hc : a.union b = .ok c) (h : c.Owns part) :
    a.Owns part ∨ b.Owns part := by
  rcases a with ⟨data, outboard⟩ | aSize
  · rcases b with ⟨bData, bOutboard⟩ | bSize
    · obtain ⟨merged, hmer, hret⟩ := bind_ok.mp hc
      cases hret
      rcases owns_iff.mp h with ⟨rfl, size, _, he⟩ | ⟨rfl, _, he⟩
      · cases he
        cases data <;> cases bData <;> simp [Owns, DataLocation.union] at hmer ⊢
        split at hmer <;> cases hmer
      · cases he
        exact .inl (by cases data <;> exact trivial)
    · cases hc
      exact .inl h
  · rcases b with ⟨bData, bOutboard⟩ | bSize
    · cases hc
      exact .inr h
    · obtain ⟨size, _, hret⟩ := bind_ok.mp hc
      cases hret
      cases part <;> exact h.elim

end EntryState

namespace Tables

def Owns (t : Tables) (file : BaoFile) : Prop :=
  ∃ entry ∈ t.blobs.get file.1, entry.Owns file.2

instance (t : Tables) (file : BaoFile) : Decidable (t.Owns file) :=
  inferInstanceAs (Decidable (∃ entry ∈ t.blobs.get file.1, entry.Owns file.2))

variable {t : Tables} {hash : Hash} {file : BaoFile}

lemma part_of_owns (h : t.Owns file) : file.2 = .data ∨ file.2 = .outboard := by
  obtain ⟨entry, _, howns⟩ := h
  exact (EntryState.owns_iff.mp howns).imp (fun h => h.1) (fun h => h.1)

variable {state : EntryState Unit} {data outboard : Option Bytes}

lemma ftx_store : (t.store hash state data outboard).ftx = t.ftx := rfl

lemma owns_store (h : (t.store hash state data outboard).Owns file) :
    t.Owns file ∨ (file.1 = hash ∧ state.Owns file.2) := by
  obtain ⟨entry, hget, howns⟩ := h
  by_cases hf : file.1 = hash
  · have hself : (t.blobs.insert hash state).get file.1 = some entry := hget
    rw [hf, Table.get_insert_self] at hself
    cases hself
    exact .inr ⟨hf, howns⟩
  · have hoth : (t.blobs.insert hash state).get file.1 = some entry := hget
    rw [Table.get_insert_of_ne hf] at hoth
    exact .inl ⟨entry, hoth, howns⟩

variable {entry : EntryState Unit}

lemma mem_ftx_deleteEntry : file ∈ (t.deleteEntry hash entry).ftx ↔
      file ∈ t.ftx ∨ (file.1 = hash ∧ entry.Covers file.2) := by
  obtain ⟨h, part⟩ := file
  rcases entry with ⟨data | data | data, outboard | outboard | outboard⟩ | size <;> cases part <;>
    simp [deleteEntry, deleteData, deleteOutboard, delete, DeleteSet.delete, mem_filesOf,
      EntryState.Covers, EntryState.Owns, EntryState.isPartial]

lemma blobs_deleteEntry : (t.deleteEntry hash entry).blobs = t.blobs := by
  rcases entry with ⟨data | data | data, outboard | outboard | outboard⟩ | size <;> rfl

lemma get_deleteHash_self : (t.deleteHash hash).blobs.get hash = none := by
  unfold deleteHash
  split
  · assumption
  · rw [blobs_deleteEntry]
    exact Table.get_remove_self

lemma get_deleteHash_of_ne {x : Hash} (h : x ≠ hash) :
    (t.deleteHash hash).blobs.get x = t.blobs.get x := by
  unfold deleteHash
  split
  · rfl
  · rw [blobs_deleteEntry]
    exact Table.get_remove_of_ne h

lemma mem_ftx_deleteHash : file ∈ (t.deleteHash hash).ftx ↔
    file ∈ t.ftx ∨ (file.1 = hash ∧ ∃ entry, t.blobs.get hash = some entry ∧
      entry.Covers file.2) := by
  unfold deleteHash
  split
  · rename_i hget
    simp [hget]
  · rename_i entry hget
    rw [mem_ftx_deleteEntry]
    simp [hget]

end Tables

namespace MetaState
variable {m m' : MetaState} {hash : Hash} {file : BaoFile}

def Marks (m : MetaState) (hashes : List Hash) (force : Bool) (file : BaoFile) : Prop :=
  file.1 ∈ hashes ∧ (force = true ∨ file.1 ∉ m.protectedHashes) ∧
    ∃ entry ∈ m.tables.blobs.get file.1, entry.Covers file.2

instance (hashes : List Hash) (force : Bool) (file : BaoFile) :
    Decidable (m.Marks hashes force file) :=
  inferInstanceAs (Decidable (_ ∧ _ ∧ _))

lemma owns_of_handleUpdate {state : EntryState Bytes} (h : m.handleUpdate hash state = .ok m') :
    (∀ file, m'.tables.Owns file → m.tables.Owns file ∨ (file.1 = hash ∧ state.Owns file.2)) ∧
      ∀ file ∈ m'.tables.ftx, file ∈ m.tables.ftx ∨ file.2 = .sizes ∨ file.2 = .bitfield := by
  unfold handleUpdate at h
  dsimp only at h
  cases hget : m.tables.blobs.get hash with
  | none =>
    rw [hget] at h
    cases h
    refine ⟨?_, fun _ h => .inl h⟩
    intro file howns
    exact (Tables.owns_store howns).imp_right fun h => ⟨h.1, EntryState.owns_split h.2⟩
  | some old =>
    rw [hget] at h
    obtain ⟨res, hres, hret⟩ := bind_ok.mp h
    cases hret
    constructor
    · intro file howns
      cases Tables.owns_store howns with
      | inl howns =>
        refine .inl ?_
        split at howns <;> exact howns
      | inr howns =>
        obtain ⟨hf, howns⟩ := howns
        cases EntryState.owns_union hres howns with
        | inl hold =>
          refine .inl ⟨old, ?_, hold⟩
          rw [hf]
          exact hget
        | inr hnew => exact .inr ⟨hf, EntryState.owns_split hnew⟩
    · intro file hmem
      rw [Tables.ftx_store] at hmem
      split at hmem
      · rw [Tables.delete, DeleteSet.delete, Finset.mem_union, mem_filesOf] at hmem
        refine hmem.imp_right fun h => ?_
        simpa using h.2
      · exact .inl hmem

lemma owns_delete {hashes : List Hash} {force : Bool}
    (h : (m.delete hashes force).tables.Owns file) :
    m.tables.Owns file ∧ (file ∈ (m.delete hashes force).tables.ftx → file ∈ m.tables.ftx) := by
  unfold delete at h ⊢
  induction hashes generalizing m with
  | nil => exact ⟨h, id⟩
  | cons hash hashes ih =>
    rw [List.foldl_cons] at h ⊢
    obtain ⟨howns, hftx⟩ := ih h
    unfold deleteOne at howns hftx
    split at howns
    · rename_i hskip
      rw [if_pos hskip] at hftx
      refine ⟨howns, ?_⟩
      unfold deleteOne
      rw [if_pos hskip]
      exact hftx
    · rename_i hgo
      rw [if_neg hgo] at hftx
      obtain ⟨entry, hget, hent⟩ := howns
      have hne : file.1 ≠ hash := by
        intro he
        rw [he] at hget
        rw [Tables.get_deleteHash_self] at hget
        cases hget
      rw [Tables.get_deleteHash_of_ne hne] at hget
      refine ⟨⟨entry, hget, hent⟩, ?_⟩
      unfold deleteOne
      rw [if_neg hgo]
      intro hmem
      exact (Tables.mem_ftx_deleteHash.mp (hftx hmem)).resolve_right fun h => hne h.1

lemma mem_ftx_delete {hashes : List Hash} {force : Bool}
    (h : file ∈ (m.delete hashes force).tables.ftx) :
    file ∈ m.tables.ftx ∨ m.Marks hashes force file := by
  unfold delete at h
  induction hashes generalizing m with
  | nil => exact .inl h
  | cons hash hashes ih =>
    rw [List.foldl_cons] at h
    have hmark := ih h
    unfold deleteOne at hmark
    split at hmark
    · exact hmark.imp_right fun ⟨hmem, h⟩ => ⟨List.mem_cons_of_mem _ hmem, h⟩
    · rename_i hgo
      rcases hmark with hmem | ⟨hmem, hprot, entry, hget, hcov⟩
      · rcases Tables.mem_ftx_deleteHash.mp hmem with hmem | ⟨hf, entry, hget, hcov⟩
        · exact .inl hmem
        · refine .inr ⟨by rw [hf]; exact List.mem_cons_self, ?_, entry, by rw [hf]; exact hget,
            hcov⟩
          rw [hf]
          by_cases hfor : force = true
          · exact .inl hfor
          · exact .inr (by simpa [hfor] using hgo)
      · have hne : file.1 ≠ hash := by
          intro he
          have hgone : (m.tables.deleteHash hash).blobs.get file.1 = some entry := hget
          rw [he, Tables.get_deleteHash_self] at hgone
          cases hgone
        have hkept : (m.tables.deleteHash hash).blobs.get file.1 = some entry := hget
        rw [Tables.get_deleteHash_of_ne hne] at hkept
        exact .inr ⟨List.mem_cons_of_mem _ hmem, hprot, entry, hkept, hcov⟩

end MetaState
end Krikos.Blobs.Fs
