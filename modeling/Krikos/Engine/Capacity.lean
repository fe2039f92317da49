import Krikos.Engine.Live

/-!
# Engine.Capacity

The table of the peers of a document (`engine/state.rs`). It holds a bounded number of peers, and a
peer stays in it when its session has ended (`peers_run`). After as many peers as the table holds,
every other one is refused (`refused_when_idle`). While few peers come to a document, none is refused
for lack of a place in its table, whatever the live actor does for other documents
(`has_capacity`).
-/

namespace Krikos.Engine

open Lib Docs List

namespace NamespaceStates
variable (me : EndpointId) (ns : NamespaceId) (s : NamespaceStates)

/-- A session that a peer asks for and that ends. -/
def visit (node : EndpointId) : NamespaceStates :=
  ((s.acceptRequest me ns node 0).1.finish ns node).1

/-- The document is syncing, and there is no place for the peer. -/
def LacksCapacity (node : EndpointId) : Prop := s.isSyncing ns = true ∧ s.entry ns node = none

/-- The document is syncing, and its table has these peers. -/
def Peers (nodes : Finset EndpointId) : Prop :=
  ∃ st, s.namespaces.get ns = some st ∧ (st.nodes.rows.map Prod.fst).toFinset = nodes

variable {me ns s} {nodes : Finset EndpointId} {node : EndpointId}

lemma peers_insert (h : s.isSyncing ns = false) : (s.insert ns).Peers ns ∅ := by
  have hnone : s.namespaces.get ns = none := by simpa [isSyncing] using h
  refine ⟨⟨.empty, false⟩, ?_, rfl⟩
  rw [insert, hnone]
  exact Table.get_insert_self

lemma Peers.entry_eq_none (h : s.Peers ns nodes) :
    s.entry ns node = none ↔ node ∉ nodes ∧ maxPeersPerDocument ≤ nodes.card := by
  obtain ⟨st, hst, rfl⟩ := h
  rw [toFinset_card_of_nodup st.nodes.keys_nodup, length_map, entry, hst]
  cases hnode : st.nodes.get node with
  | some p =>
    have hmem := mem_map_of_mem (f := Prod.fst) (Table.get_eq_some.mp hnode)
    simpa [hnode] using fun h => absurd hmem (by simpa using h)
  | none =>
    have hnot := Table.get_eq_none.mp hnode
    simpa [hnode] using fun _ => hnot

lemma Peers.setEntry (h : s.Peers ns nodes) (node : EndpointId) (q : PeerState) :
    (s.setEntry ns node q).Peers ns (Insert.insert node nodes) := by
  obtain ⟨st, hst, rfl⟩ := h
  rw [NamespaceStates.setEntry, hst]
  refine ⟨_, Table.get_insert_self, ?_⟩
  ext k
  simp [Table.mem_insert]
  grind

lemma Peers.visit (h : s.Peers ns nodes) (hplace : s.entry ns node ≠ none) :
    (s.visit me ns node).Peers ns (Insert.insert node nodes) := by
  obtain ⟨p, hp⟩ := Option.ne_none_iff_exists'.mp hplace
  have haccept : (s.acceptRequest me ns node 0).1.Peers ns (Insert.insert node nodes) := by
    rw [acceptRequest, hp]
    exact h.setEntry node _
  cases hq : (s.acceptRequest me ns node 0).1.entry ns node with
  | none => exact absurd (Finset.mem_insert_self ..) (haccept.entry_eq_none.mp hq).1
  | some q =>
    rw [NamespaceStates.visit, finish, hq, ← Finset.insert_idem]
    exact haccept.setEntry node _

lemma peers_run (me : EndpointId) (visits : List EndpointId) (h : s.Peers ns nodes)
    (hfew : (nodes ∪ visits.toFinset).card ≤ maxPeersPerDocument) :
    (run (visit me ns) s visits).Peers ns (nodes ∪ visits.toFinset) := by
  induction visits generalizing s nodes with
  | nil => simpa [run] using h
  | cons node visits ih =>
    have hunion : nodes ∪ (node :: visits).toFinset =
        Insert.insert node nodes ∪ visits.toFinset := by simp
    rw [hunion] at hfew ⊢
    refine ih (h.visit fun hnone => ?_) hfew
    obtain ⟨hnew, hfull⟩ := h.entry_eq_none.mp hnone
    have hlt := (Finset.card_insert_of_notMem hnew).symm.trans_le
      ((Finset.card_le_card Finset.subset_union_left).trans hfew)
    omega

lemma idle_visits {l : List EndpointId} (h : ∀ k, s.syncState ns k = .idle) :
    ∀ k, (run (visit me ns) s l).syncState ns k = .idle := by
  induction l generalizing s with
  | nil => exact h
  | cons node l ih =>
    refine ih fun k => (syncState_finish _ _ _ _ _).trans ?_
    split
    · rfl
    · rename_i hk
      rcases acceptRequest_spec s me ns node 0 with ⟨-, -, hs⟩ | ⟨-, hs⟩
      · exact (hs ns k).trans ((if_neg hk).trans (h k))
      · exact (hs ns k).trans (h k)

def guest (b : Byte) : EndpointId := ⟨b :: replicate 31 0, rfl⟩

/-- After sessions with as many peers as the table holds, all of them ended, another peer is refused
and told that the document is not there. -/
theorem refused_when_idle :
    let s := run (visit (.zero 32) (.zero 32)) (empty.insert (.zero 32))
      ((finRange 256).map guest)
    s.LacksCapacity (.zero 32) (.max 32) ∧ (∀ k, s.syncState (.zero 32) k = .idle) ∧
      (s.acceptRequest (.zero 32) (.zero 32) (.max 32) 0).2 = .reject .notFound := by
  intro s
  have hnodup : ((finRange 256).map guest).Nodup :=
    (nodup_finRange 256).map fun _ _ heq => (cons.inj (congrArg Subtype.val heq)).1
  have hcard : ((finRange 256).map guest).toFinset.card = maxPeersPerDocument := by
    rw [toFinset_card_of_nodup hnodup, length_map, length_finRange]
    rfl
  have hpeers : s.Peers (.zero 32) ((finRange 256).map guest).toFinset := by
    have hrun := peers_run (.zero 32) ((finRange 256).map guest)
      (@peers_insert (.zero 32) empty rfl)
    rw [Finset.empty_union] at hrun
    exact hrun hcard.le
  have hnone : s.entry (.zero 32) (.max 32) = none :=
    hpeers.entry_eq_none.mpr ⟨by simp [guest, FixedBytes.max], hcard.ge⟩
  refine ⟨⟨?_, hnone⟩, idle_visits fun k => rfl, ?_⟩
  · obtain ⟨st, hst, -⟩ := hpeers
    simp [isSyncing, hst]
  · rw [acceptRequest, hnone]

/-! ## The live actor -/

/-- The table of the document, if it is syncing, has only these peers. -/
def Within (s : NamespaceStates) (ns : NamespaceId) (nodes : Finset EndpointId) : Prop :=
  ∀ st, s.namespaces.get ns = some st → ∀ row ∈ st.nodes.rows, row.1 ∈ nodes

lemma Within.entry_ne_none (h : s.Within ns nodes) (hsync : s.isSyncing ns = true)
    (hfew : (Insert.insert node nodes).card ≤ maxPeersPerDocument) : s.entry ns node ≠ none := by
  obtain ⟨st, hst⟩ := Option.isSome_iff_exists.mp hsync
  have hpeers : s.Peers ns (st.nodes.rows.map Prod.fst).toFinset := ⟨st, hst, rfl⟩
  intro hnone
  obtain ⟨hnot, hfull⟩ := hpeers.entry_eq_none.mp hnone
  have hsub : (st.nodes.rows.map Prod.fst).toFinset ⊆ nodes := by
    intro k hk
    obtain ⟨row, hrow, rfl⟩ := mem_map.mp (mem_toFinset.mp hk)
    exact h st hst row hrow
  have hcard := Finset.card_le_card (Finset.insert_subset_insert node hsub)
  rw [Finset.card_insert_of_notMem hnot] at hcard
  omega

variable {n : NamespaceId}

section
variable (h : s.Within ns nodes)
include h

lemma Within.set {st : NamespaceState} (hst : n = ns → ∀ row ∈ st.nodes.rows, row.1 ∈ nodes) :
    Within ⟨s.namespaces.insert n st⟩ ns nodes := by
  intro st' hst'
  by_cases hn : ns = n
  · subst hn
    rw [Table.get_insert_self] at hst'
    cases hst'
    exact hst rfl
  · rw [Table.get_insert_of_ne hn] at hst'
    exact h st' hst'

lemma Within.setEntry {q : PeerState} (hnode : n = ns → node ∈ nodes) :
    (s.setEntry n node q).Within ns nodes := by
  unfold NamespaceStates.setEntry
  cases hst : s.namespaces.get n with
  | none => exact h
  | some st =>
    refine h.set fun hn ⟨k, v⟩ hrow => ?_
    rcases Table.mem_insert.mp hrow with ⟨rfl, -⟩ | ⟨-, hrow⟩
    · exact hnode hn
    · exact h st (hn ▸ hst) _ hrow

lemma Within.startConnect {reason : SyncReason} {now : SystemTime} (hnode : n = ns → node ∈ nodes) :
    (s.startConnect n node reason now).1.Within ns nodes := by
  unfold NamespaceStates.startConnect
  split
  · exact h
  · exact h.setEntry hnode

lemma Within.acceptRequest {now : SystemTime} (hnode : n = ns → node ∈ nodes) :
    (s.acceptRequest me n node now).1.Within ns nodes := by
  unfold NamespaceStates.acceptRequest
  split
  · exact h
  · exact h.setEntry hnode

lemma Within.finish (hnode : n = ns → node ∈ nodes) : (s.finish n node).1.Within ns nodes := by
  unfold NamespaceStates.finish
  split
  · exact h
  · exact h.setEntry hnode

lemma Within.setMayEmitReady {value : Bool} : (s.setMayEmitReady n value).Within ns nodes := by
  unfold NamespaceStates.setMayEmitReady
  split
  · exact h
  · rename_i st hst
    exact h.set fun hn row hrow => h st (hn ▸ hst) row hrow

lemma Within.insert : (s.insert n).Within ns nodes := by
  unfold NamespaceStates.insert
  split
  · exact h
  · exact h.set fun _ row hrow => nomatch hrow

lemma Within.remove : (s.remove n).Within ns nodes := by
  intro st hst
  by_cases hn : ns = n
  · subst hn
    simp [NamespaceStates.remove, Table.get_remove_self] at hst
  · rw [NamespaceStates.remove, Table.get_remove_of_ne hn] at hst
    exact h st hst

end

end NamespaceStates

/-- The peers that an event brings up for a document: those of its requests and of the sessions that
end. -/
def LiveEvent.peers (ns : NamespaceId) : LiveEvent → List EndpointId
  | .startSync n _ peers _ => if n = ns then peers else []
  | .neighborUp n peer => if n = ns then [peer] else []
  | .syncReport n peer _ => if n = ns then [peer] else []
  | .acceptSyncRequest t n => if n = ns then [t.peer] else []
  | .connectFinished d _ _ => if d.ns = ns then [d.peer] else []
  | .acceptFinished _ (.ok finished) _ => if finished.ns = ns then [finished.peer] else []
  | .acceptFinished _ (.error e) _ => if e.ns = some ns then e.peer.toList else []
  | .leave _ => []
  | .handleConnection _ => []

namespace LiveActor
variable {a : LiveActor} {ns n : NamespaceId} {peer : EndpointId} {nodes : Finset EndpointId}
  {now : SystemTime}

lemma within_syncWithPeer {reason : SyncReason} (h : a.state.Within ns nodes)
    (hpeer : n = ns → peer ∈ nodes) : (a.syncWithPeer n peer reason now).state.Within ns nodes := by
  have hstart : (a.state.startConnect n peer reason now).1.Within ns nodes := h.startConnect hpeer
  unfold syncWithPeer
  split
  · exact h
  · split
    all_goals
      rename_i heq
      rw [heq] at hstart
      exact hstart

lemma within_onSyncFinished {pending : Bool} (h : a.state.Within ns nodes)
    (hpeer : n = ns → peer ∈ nodes) :
    (a.onSyncFinished n peer pending now).state.Within ns nodes := by
  have hfinish := h.finish hpeer
  unfold onSyncFinished
  split
  · rename_i heq
    rw [heq] at hfinish
    exact hfinish
  · rename_i heq
    rw [heq] at hfinish
    dsimp only
    split
    · exact within_syncWithPeer hfinish.setMayEmitReady hpeer
    · exact hfinish.setMayEmitReady

lemma within_startSync {opened joined : Bool} {peers : List EndpointId}
    (h : a.state.Within ns nodes) (hpeers : n = ns → ∀ peer ∈ peers, peer ∈ nodes) :
    (a.startSync n opened peers joined now).state.Within ns nodes := by
  unfold startSync
  split_ifs
  · exact h
  · exact h
  · exact h.insert
  · refine foldlRecOn (motive := fun b : LiveActor => b.state.Within ns nodes) peers _ h.insert
      fun b hb peer hpeer => ?_
    exact within_syncWithPeer hb fun hn => hpeers hn peer hpeer
  · exact h.insert

lemma within_step {e : LiveEvent} (h : a.state.Within ns nodes)
    (hpeers : ∀ peer ∈ e.peers ns, peer ∈ nodes) : (a.step now e).state.Within ns nodes := by
  unfold LiveEvent.peers at hpeers
  cases e with
  | startSync n opened peers joined =>
    exact within_startSync h fun hn => by simpa [hn] using hpeers
  | leave n => exact h.remove
  | neighborUp n peer => exact within_syncWithPeer h fun hn => hpeers peer (by simp [hn])
  | syncReport n peer news =>
    simp only [step, onSyncReport]
    split
    · exact within_syncWithPeer h fun hn => hpeers peer (by simp [hn])
    · exact h
  | handleConnection peer =>
    simp only [step, handleConnection]
    split <;> exact h
  | acceptSyncRequest t n => exact h.acceptRequest fun hn => hpeers t.peer (by simp [hn])
  | connectFinished d result pending =>
    simp only [step, onSyncViaConnectFinished]
    split
    · exact h
    · exact within_onSyncFinished h fun hn => hpeers d.peer (by simp [hn])
  | acceptFinished t result pending =>
    simp only [step]
    fun_cases onSyncViaAcceptFinished (a.endIncoming t) result pending now with
    | case1 finished => exact within_onSyncFinished h fun hn => hpeers finished.peer (by simp [hn])
    | case2 => exact h
    | case3 e _ peer n hpeer hn =>
      exact within_onSyncFinished h fun heq => hpeers peer (by simp [hn, hpeer, heq])
    | case4 => exact h

/-- Whatever happens since a document was not syncing, while few enough peers
have come to it, a request of a peer is not refused for lack of capacity: a peer that is idle is
dialed and a connection is taken, unless too many dials or connections are running, and a request is
not answered with not found. -/
theorem has_capacity (a : LiveActor) (ns : NamespaceId) (peer : EndpointId)
    (hnew : a.state.isSyncing ns = false) (events : List (SystemTime × LiveEvent))
    (hfew : (peer :: events.flatMap fun e => e.2.peers ns).toFinset.card ≤ maxPeersPerDocument) :
    let b := run (fun a e => a.step e.1 e.2) a events
    b.state.isSyncing ns = true →
      (b.runningSyncConnect.length < maxLiveSyncSessions → b.state.syncState ns peer = .idle →
        ∀ reason now, (b.syncWithPeer ns peer reason now).runningSyncConnect =
          ⟨b.nextTask, ns, peer, reason⟩ :: b.runningSyncConnect) ∧
      (b.runningSyncAccept.length < maxLiveSyncSessions →
        (b.handleConnection peer).runningSyncAccept =
          ⟨b.nextTask, peer, .waiting⟩ :: b.runningSyncAccept) ∧
      ∀ now, (b.state.acceptRequest b.me ns peer now).2 ≠ .reject .notFound := by
  intro b hsync
  have hwithin : b.state.Within ns (events.flatMap fun e => e.2.peers ns).toFinset := by
    have hstart : a.state.Within ns (events.flatMap fun e => e.2.peers ns).toFinset := by
      intro st hst
      simp [NamespaceStates.isSyncing, hst] at hnew
    refine foldlRecOn (motive := fun b : LiveActor => b.state.Within ns _) events _ hstart
      fun b hb e he => within_step hb fun peer hpeer => ?_
    exact mem_toFinset.mpr (mem_flatMap.mpr ⟨e, he, hpeer⟩)
  rw [toFinset_cons] at hfew
  obtain ⟨p, hp⟩ := Option.ne_none_iff_exists'.mp (hwithin.entry_ne_none hsync hfew)
  refine ⟨fun hfree hidle reason now => ?_, fun hfree => ?_, fun now => ?_⟩
  · rw [NamespaceStates.syncState_of_entry hp] at hidle
    rw [syncWithPeer, if_neg (by omega), NamespaceStates.startConnect, hp]
    simp only [PeerState.startConnect, hidle]
  · rw [handleConnection, if_neg (by omega)]
  · rw [NamespaceStates.acceptRequest, hp]
    unfold PeerState.acceptRequest
    grind

def firstPeer : EndpointId := NamespaceStates.guest 1

def secondPeer : EndpointId := NamespaceStates.guest 2

/-- Two peers are dialed, and the session with the first one ends. -/
def firstEnded : List (SystemTime × LiveEvent) :=
  [(0, .startSync (.zero 32) true [firstPeer, secondPeer] true),
    (1, .connectFinished ⟨0, .zero 32, firstPeer, .directJoin⟩ (.error .close) false)]

theorem has_capacity_firstEnded :
    let b := run (fun a e => a.step e.1 e.2) (LiveActor.new (.zero 32)) firstEnded
    (b.syncWithPeer (.zero 32) (.max 32) .newNeighbor 2).runningSyncConnect.map Dial.peer =
      [.max 32, secondPeer] := by
  intro b
  have hcapacity := has_capacity (.new (.zero 32)) (.zero 32) (.max 32) rfl firstEnded (by decide)
    (by decide +kernel)
  rw [hcapacity.1 (by decide +kernel) (by decide +kernel)]
  decide +kernel

end LiveActor
end Krikos.Engine
