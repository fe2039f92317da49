import Krikos.Docs.Replica

/-!
# Engine.State

The sync state of each document and peer (`engine/state.rs`).

A peer of a syncing document is idle or runs one sync. A dial is allowed only while it is idle; an
incoming request is also allowed while a dial runs, if the order of the two node ids says so.
`NamespaceStates.syncState` is the state that these operations change; `startConnect_spec`,
`acceptRequest_spec` and `syncState_finish` say how.
-/

namespace Krikos.Engine

open Lib Docs

abbrev EndpointId := Bytes32

abbrev SystemTime := Nat

def maxPeersPerDocument : Nat := 256

/-- Why we started a sync request. -/
inductive SyncReason where
  | directJoin
  | newNeighbor
  | syncReport
  | resync
  deriving DecidableEq

/-- Why we performed a sync exchange. -/
inductive Origin where
  | connect (reason : SyncReason)
  | accept
  deriving DecidableEq

/-- The state we're in for a node and a namespace. -/
inductive SyncState where
  | idle
  | running (start : SystemTime) (origin : Origin)
  deriving DecidableEq

def SyncState.isRunning : SyncState → Bool
  | .idle => false
  | .running _ _ => true

inductive AcceptOutcome where
  | allow
  | reject (reason : Net.AbortReason)

inductive SyncDirection where
  | accept
  | connect

def expectedSyncDirection (selfNodeId otherNodeId : EndpointId) : SyncDirection :=
  if otherNodeId < selfNodeId then .accept else .connect

/-! ## Peers -/

/-- State of a node with regard to a namespace. -/
structure PeerState where
  state : SyncState
  resyncRequested : Bool

namespace PeerState

def default : PeerState := ⟨.idle, false⟩

def setSyncRunning (origin : Origin) (now : SystemTime) : PeerState := ⟨.running now origin, false⟩

/-- The start of the sync, and whether another one was asked for. -/
def finish (p : PeerState) : PeerState × Option (SystemTime × Bool) :=
  match p.state with
  | .running start _ => ({ p with state := .idle }, some (start, p.resyncRequested))
  | .idle => (p, none)

def startConnect (p : PeerState) (reason : SyncReason) (now : SystemTime) : PeerState × Bool :=
  match p.state with
  -- never run two syncs at the same time
  | .running _ _ =>
    if reason = .syncReport then ({ p with resyncRequested := true }, false) else (p, false)
  | .idle => (setSyncRunning (.connect reason) now, true)

def acceptRequest (p : PeerState) (me node : EndpointId) (now : SystemTime) :
    PeerState × AcceptOutcome :=
  let outcome : AcceptOutcome :=
    match p.state with
    | .idle => .allow
    | .running _ .accept => .reject .alreadySyncing
    | .running _ (.connect _) =>
      match expectedSyncDirection me node with
      | .accept => .allow
      | .connect => .reject .alreadySyncing
  match outcome with
  | .allow => (setSyncRunning .accept now, .allow)
  | .reject reason => (p, .reject reason)

lemma acceptRequest_cases (p : PeerState) (me node : EndpointId) (now : SystemTime) :
    (p.acceptRequest me node now = (setSyncRunning .accept now, .allow) ∧
      ∀ start, p.state ≠ .running start .accept) ∨
    p.acceptRequest me node now = (p, .reject .alreadySyncing) := by
  unfold acceptRequest
  cases hp : p.state with
  | idle => exact .inl ⟨rfl, fun _ => SyncState.noConfusion⟩
  | running start origin =>
    cases origin with
    | accept => exact .inr rfl
    | connect reason =>
      cases expectedSyncDirection me node with
      | accept => exact .inl ⟨rfl, by simp⟩
      | connect => exact .inr rfl

end PeerState

/-! ## Namespaces -/

structure NamespaceState where
  nodes : Table EndpointId PeerState
  mayEmitReady : Bool

/-- The syncing namespaces. -/
structure NamespaceStates where
  namespaces : Table NamespaceId NamespaceState

namespace NamespaceStates

def empty : NamespaceStates := ⟨.empty⟩

def len (s : NamespaceStates) : Nat := s.namespaces.rows.length

variable (s : NamespaceStates) (ns : NamespaceId)

def isSyncing : Bool := (s.namespaces.get ns).isSome

def insert (s : NamespaceStates) (ns : NamespaceId) : NamespaceStates :=
  match s.namespaces.get ns with
  | some _ => s
  | none => ⟨s.namespaces.insert ns ⟨.empty, false⟩⟩

def remove (s : NamespaceStates) (ns : NamespaceId) : NamespaceStates :=
  ⟨s.namespaces.remove ns⟩

/-- The state of a node. Unknown nodes of a syncing namespace are new, unless there are too many. -/
def entry (node : EndpointId) : Option PeerState :=
  match s.namespaces.get ns with
  | none => none
  | some st =>
    match st.nodes.get node with
    | some p => some p
    | none => if st.nodes.rows.length ≥ maxPeersPerDocument then none else some .default

def setEntry (node : EndpointId) (p : PeerState) : NamespaceStates :=
  match s.namespaces.get ns with
  | none => s
  | some st => ⟨s.namespaces.insert ns { st with nodes := st.nodes.insert node p }⟩

def startConnect (s : NamespaceStates) (ns : NamespaceId) (node : EndpointId) (reason : SyncReason)
    (now : SystemTime) : NamespaceStates × Bool :=
  match s.entry ns node with
  | none => (s, false)
  | some p => (s.setEntry ns node (p.startConnect reason now).1, (p.startConnect reason now).2)

def acceptRequest (s : NamespaceStates) (me : EndpointId) (ns : NamespaceId) (node : EndpointId)
    (now : SystemTime) : NamespaceStates × AcceptOutcome :=
  match s.entry ns node with
  | none => (s, .reject .notFound)
  | some p =>
    (s.setEntry ns node (p.acceptRequest me node now).1, (p.acceptRequest me node now).2)

def finish (s : NamespaceStates) (ns : NamespaceId) (node : EndpointId) :
    NamespaceStates × Option (SystemTime × Bool) :=
  match s.entry ns node with
  | none => (s, none)
  | some p => (s.setEntry ns node p.finish.1, p.finish.2)

/-- Sets whether `PendingContentReady` may be emitted once no content is pending. -/
def setMayEmitReady (value : Bool) : NamespaceStates :=
  match s.namespaces.get ns with
  | none => s
  | some st => ⟨s.namespaces.insert ns { st with mayEmitReady := value }⟩

/-! ## The state of a pair -/

def syncState (node : EndpointId) : SyncState :=
  match s.namespaces.get ns with
  | none => .idle
  | some st =>
    match st.nodes.get node with
    | none => .idle
    | some p => p.state

variable {s : NamespaceStates} {ns n : NamespaceId} {node m : EndpointId} {p q : PeerState}

lemma syncState_eq (s : NamespaceStates) (ns : NamespaceId) (node : EndpointId) :
    s.syncState ns node = ((s.entry ns node).map PeerState.state).getD .idle := by
  unfold syncState entry
  cases s.namespaces.get ns with
  | none => rfl
  | some st =>
    cases hnode : st.nodes.get node with
    | some q => simp only [hnode, Option.map_some, Option.getD_some]
    | none =>
      simp only [hnode]
      split
      · rfl
      · rfl

lemma syncState_of_entry (h : s.entry ns node = some p) : s.syncState ns node = p.state := by
  rw [syncState_eq, h]
  rfl

lemma syncState_of_entry_none (h : s.entry ns node = none) : s.syncState ns node = .idle := by
  rw [syncState_eq, h]
  rfl

section
variable (h : s.entry ns node = some p)
include h

lemma exists_of_entry : ∃ st, s.namespaces.get ns = some st := by
  unfold entry at h
  split at h
  · cases h
  · rename_i st hst
    exact ⟨st, hst⟩

lemma syncState_setEntry : (s.setEntry ns node q).syncState n m =
      if n = ns ∧ m = node then q.state else s.syncState n m := by
  obtain ⟨st, hst⟩ := exists_of_entry h
  simp only [setEntry, hst, syncState]
  by_cases hn : n = ns
  · subst hn
    rw [Table.get_insert_self]
    by_cases hm : m = node
    · subst hm
      simp [Table.get_insert_self]
    · simp [Table.get_insert_of_ne hm, hst, hm]
  · simp [Table.get_insert_of_ne hn, hn]

lemma syncState_setEntry_same (hq : q.state = p.state) :
    (s.setEntry ns node q).syncState n m = s.syncState n m := by
  rw [syncState_setEntry h]
  split
  · rename_i heq
    obtain ⟨rfl, rfl⟩ := heq
    rw [hq, syncState_of_entry h]
  · rfl

end

variable (s)

lemma startConnect_spec (ns : NamespaceId) (node : EndpointId) (reason : SyncReason)
    (now : SystemTime) : let after := s.startConnect ns node reason now
    (after.2 = true ∧ s.syncState ns node = .idle ∧ ∀ n m, after.1.syncState n m =
        if n = ns ∧ m = node then .running now (.connect reason) else s.syncState n m) ∨
    (after.2 = false ∧ ∀ n m, after.1.syncState n m = s.syncState n m) := by
  simp only [startConnect]
  cases hent : s.entry ns node with
  | none => exact .inr ⟨rfl, fun _ _ => rfl⟩
  | some p =>
    simp only
    cases hp : p.state with
    | idle =>
      have hstar : p.startConnect reason now =
          (PeerState.setSyncRunning (.connect reason) now, true) := by
        simp only [PeerState.startConnect, hp]
      rw [hstar]
      exact .inl ⟨rfl, (syncState_of_entry hent).trans hp, fun n m => syncState_setEntry hent⟩
    | running start origin =>
      have hstar : (p.startConnect reason now).2 = false ∧
          (p.startConnect reason now).1.state = p.state := by
        simp only [PeerState.startConnect, hp]
        split
        · exact ⟨rfl, rfl⟩
        · exact ⟨rfl, hp⟩
      exact .inr ⟨hstar.1, fun n m => syncState_setEntry_same hent hstar.2⟩

/-- A request is allowed if the node is idle, or if the ids let it supersede a dial. -/
lemma acceptRequest_spec (me : EndpointId) (ns : NamespaceId)
    (node : EndpointId) (now : SystemTime) :
    let after := s.acceptRequest me ns node now
    (after.2 = .allow ∧ (∀ start, s.syncState ns node ≠ .running start .accept) ∧
      ∀ n m, after.1.syncState n m =
        if n = ns ∧ m = node then .running now .accept else s.syncState n m) ∨
    ((∃ reason, after.2 = .reject reason) ∧
      ∀ n m, after.1.syncState n m = s.syncState n m) := by
  simp only [acceptRequest]
  cases hent : s.entry ns node with
  | none => exact .inr ⟨⟨_, rfl⟩, fun _ _ => rfl⟩
  | some p =>
    simp only
    obtain ⟨hacc, hnot⟩ | hacc := p.acceptRequest_cases me node now
    · rw [hacc, syncState_of_entry hent]
      exact .inl ⟨rfl, hnot, fun n m => syncState_setEntry hent⟩
    · rw [hacc]
      exact .inr ⟨⟨_, rfl⟩, fun n m => syncState_setEntry_same hent rfl⟩

lemma syncState_finish (ns n : NamespaceId) (node m : EndpointId) :
    (s.finish ns node).1.syncState n m = if n = ns ∧ m = node then .idle else s.syncState n m := by
  unfold finish
  cases hent : s.entry ns node with
  | none =>
    simp only
    split
    · rename_i heq
      obtain ⟨rfl, rfl⟩ := heq
      exact syncState_of_entry_none hent
    · rfl
  | some p =>
    have hidle : p.finish.1.state = .idle := by
      unfold PeerState.finish
      split
      · rfl
      · assumption
    rw [syncState_setEntry hent, hidle]

variable {s}

lemma syncState_insert : (s.insert ns).syncState n m = s.syncState n m := by
  unfold insert
  split
  · rfl
  · rename_i hnone
    unfold syncState
    by_cases hn : n = ns
    · subst hn
      have hemp : (Table.empty : Table EndpointId PeerState).get m = none := rfl
      simp [Table.get_insert_self, hnone, hemp]
    · simp [Table.get_insert_of_ne hn]

lemma syncState_remove :
    (s.remove ns).syncState n m = if n = ns then .idle else s.syncState n m := by
  unfold remove syncState
  by_cases hn : n = ns
  · subst hn
    have hnone : (s.namespaces.remove n).get n = none := by
      rw [Table.get_eq_none]
      intro v
      simp [Table.remove]
    simp [hnone]
  · have hsame : (s.namespaces.remove ns).get n = s.namespaces.get n :=
      ((Table.Agree.refl (p := fun k => k = n) _).remove (Ne.symm hn)).get_eq rfl
    rw [if_neg hn, hsame]

lemma syncState_setMayEmitReady {value : Bool} :
    (s.setMayEmitReady ns value).syncState n m = s.syncState n m := by
  unfold setMayEmitReady
  split
  · rfl
  · rename_i st hst
    unfold syncState
    by_cases hn : n = ns
    · subst hn
      rw [Table.get_insert_self, hst]
    · rw [Table.get_insert_of_ne hn]

end NamespaceStates
end Krikos.Engine
