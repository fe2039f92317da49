import Krikos.Gossip.Layers

/-!
# Gossip.PeerData

The address data that the membership protocol stores is meant for the peers that it deals with: the
active ones, the passive ones, and those that were asked to be neighbors.

Data is stored for whatever a message names, and removed only when the connection to a peer closes
that was in neither view for a reason. Peers leave the views and the requests on other paths, too:
they are evicted for others, denied, or do not answer. `peerData_bounded` leaves out the events in
which a peer with data leaves on such a path, and those that add requests without a limit.
-/

namespace Krikos.Gossip.HyParView

open Lib Finset State Node

variable {PI R : Type} [LinearOrder PI]

/-! ## Peers with data -/

namespace State
variable (s : State PI R)

/-- The peer is in a view, or it was asked to be a neighbor. -/
def Knows (p : PI) : Prop :=
  p ∈ s.activeView.items ∨ p ∈ s.passiveView.items ∨ p ∈ s.pendingNeighborRequests

/-- The peers outside of the active view that were asked to be neighbors. -/
def outside : Finset PI :=
  s.pendingNeighborRequests.filter fun p => s.activeView.contains p = false

/-- Data is stored for known peers only, with at most one request outside of the active view for
each of its slots. -/
structure Bounded (s : State PI R) : Prop where
  known : ∀ row ∈ s.peerData.rows, s.Knows row.1
  len : s.peerData.rows.length ≤
    2 * s.config.activeViewCapacity + s.config.passiveViewCapacity

/-- Data is stored for known peers, and for the given ones. -/
def KnownBut (except : PI → Prop) : Prop :=
  ∀ p, s.peerData.get p ≠ none → s.Knows p ∨ except p

/-! ## Events that keep the data in bounds -/

/-- Whichever passive peer makes room has no data that stays behind, apart from the given ones. -/
def SparesBut (s : State PI R) (except : PI → Prop) : Prop :=
  s.passiveIsFull = true → ∀ q ∈ s.passiveView.items, ¬ except q →
    q ∈ s.pendingNeighborRequests ∨ s.peerData.get q = none

/-- Whichever passive peer makes room for another one, no data of it stays behind. -/
def Spares (peer : PI) : Prop :=
  s.passiveIsFull = true → ∀ q ∈ s.passiveView.items, q ≠ peer →
    q ∈ s.pendingNeighborRequests ∨ s.peerData.get q = none

/-- No data of an active peer stays behind when it is removed. -/
def SparesRemoved (peer : PI) (keepAsPassive : Bool) : Prop :=
  if keepAsPassive then s.Spares peer else s.peerData.get peer = none

/-- The passive peers that the nodes of a message would add if there is room for all of them. -/
def newcomers (nodes : List (PeerInfo PI)) : Finset PI :=
  (nodes.map PeerInfo.id).toFinset.filter fun p =>
    s.activeView.contains p = false ∧ s.passiveView.contains p = false ∧ p ≠ s.me

/-- A node that comes after other ones leaves no data behind: the local peer comes without data, and
if there may be no room for the node, then whatever has come before has no data either. -/
def SparesNode (before : List (PeerInfo PI)) (node : PeerInfo PI) : Prop :=
  (node.id = s.me → s.me ∈ s.pendingNeighborRequests ∨ node.data = none) ∧
  (node.id ∉ s.activeView.items → node.id ≠ s.me →
    s.config.passiveViewCapacity < s.passiveView.len + (s.newcomers (before ++ [node])).card →
    ∀ q ∈ s.passiveView.items ++ before.map PeerInfo.id, q ≠ node.id → q ∉ s.activeView.items →
      q ∈ s.pendingNeighborRequests ∨
        s.peerData.get q = none ∧ ∀ other ∈ before, other.id = q → other.data = none)

def SparesNodes (s : State PI R) (before : List (PeerInfo PI)) : List (PeerInfo PI) → Prop
  | [] => True
  | node :: nodes => s.SparesNode before node ∧ s.SparesNodes (before ++ [node]) nodes

/-- No data of a new neighbor or of another peer stays behind. -/
def SparesNeighbor (sender : PI) (data : Option PeerData) : Priority → Prop
  | .high => s.makesRoomFor sender = true → s.Spares sender
  | .low => s.makesRoomFor sender = true →
      sender ∈ s.passiveView.items ∨ data = none ∧ s.peerData.get sender = none

def SparesMessage (sender : PI) : Message PI → Prop
  | .join data => s.SparesNeighbor sender data .high
  | .forwardJoin message =>
      message.peer.id ∉ s.activeView.items → ¬ (message.ttl.expired = true ∨ s.activeView.len ≤ 1) →
        message.ttl = s.config.passiveRandomWalkLength → s.SparesNode [] message.peer
  | .shuffle shuffle => shuffle.ttl.expired = true ∨ s.activeView.len ≤ 1 →
      s.SparesNodes [] (shuffle.nodes.take maxShufflePeers)
  | .shuffleReply message => s.SparesNodes [] (message.nodes.take maxShufflePeers)
  | .neighbor details => (sender = s.me → s.peerData.get s.me = none) ∧
      s.SparesNeighbor sender details.data details.priority
  | .disconnect details =>
      (sender ∈ s.activeView.items → s.SparesRemoved sender details.alive) ∧
      (sender ∉ s.activeView.items → sender ∈ s.passiveView.items ∨ s.peerData.get sender = none)

/-- No data stays behind of a peer that leaves. -/
def SparesEvent : InEvent PI → Prop
  | .recvMessage sender message => s.SparesMessage sender message
  | .timerExpired (.pendingNeighborRequest peer) => peer ∈ s.pendingNeighborRequests →
      peer ∈ s.activeView.items ∨ s.peerData.get peer = none
  | .peerDisconnected peer =>
      (peer ∈ s.activeView.items → s.SparesRemoved peer (decide (peer ∈ s.aliveDisconnectPeers))) ∧
      (peer ∉ s.activeView.items → peer ∈ s.aliveDisconnectPeers →
        peer ∈ s.passiveView.items ∨ s.peerData.get peer = none)
  | .quit => ∀ p ∈ s.activeView.items,
      p ∈ s.pendingNeighborRequests ∨ s.peerData.get p = none
  | _ => True

/-- A request that is left without an active peer finds a slot. -/
def LimitsNeighbor (sender : PI) : Prop :=
  s.makesRoomFor sender = true → (∃ p ∈ s.activeView.items, p ∈ s.pendingNeighborRequests) →
    (s.outside.erase sender).card < s.config.activeViewCapacity

/-- The requests outside of the active view stay within its capacity. -/
def LimitsRequests : InEvent PI → Prop
  | .recvMessage sender (.join _) => s.LimitsNeighbor sender
  | .recvMessage sender (.neighbor ⟨.high, _⟩) => s.LimitsNeighbor sender
  | .recvMessage _ (.forwardJoin message) => message.peer.id ∉ s.activeView.items →
      message.ttl.expired = true ∨ s.activeView.len ≤ 1 →
        message.peer.id ∉ s.pendingNeighborRequests → s.outside.card < s.config.activeViewCapacity
  | .quit => s.pendingNeighborRequests.card ≤ s.config.activeViewCapacity
  | _ => True

/-- The event leaves neither data nor too many requests behind. -/
def Thrifty (event : InEvent PI) : Prop :=
  s.SparesEvent event ∧ s.LimitsRequests event

section

instance (peer : PI) : Decidable (s.Spares peer) :=
  inferInstanceAs (Decidable (_ → ∀ q ∈ _, _ → _ ∨ _))

instance (peer : PI) (keepAsPassive : Bool) : Decidable (s.SparesRemoved peer keepAsPassive) :=
  inferInstanceAs (Decidable (ite _ _ _))

instance (before : List (PeerInfo PI)) (node : PeerInfo PI) : Decidable (s.SparesNode before node) :=
  inferInstanceAs (Decidable ((_ → _ ∨ _) ∧ (_ → _ → _ → ∀ q ∈ _, _ → _ → _ ∨ _ ∧ ∀ _ ∈ _, _)))

instance decidableSparesNodes (before nodes : List (PeerInfo PI)) :
    Decidable (s.SparesNodes before nodes) :=
  match nodes with
  | [] => inferInstanceAs (Decidable True)
  | node :: nodes =>
    have := decidableSparesNodes (before ++ [node]) nodes
    inferInstanceAs (Decidable (s.SparesNode before node ∧ s.SparesNodes (before ++ [node]) nodes))

instance (sender : PI) (data : Option PeerData) :
    (priority : Priority) → Decidable (s.SparesNeighbor sender data priority)
  | .high => inferInstanceAs (Decidable (_ → s.Spares sender))
  | .low => inferInstanceAs (Decidable (_ → _ ∨ _ ∧ _))

instance (sender : PI) : (message : Message PI) → Decidable (s.SparesMessage sender message)
  | .join data => inferInstanceAs (Decidable (s.SparesNeighbor sender data .high))
  | .forwardJoin message => inferInstanceAs (Decidable (_ → _ → _ → s.SparesNode [] message.peer))
  | .shuffle _ => inferInstanceAs (Decidable (_ → s.SparesNodes [] _))
  | .shuffleReply _ => inferInstanceAs (Decidable (s.SparesNodes [] _))
  | .neighbor _ => inferInstanceAs (Decidable (_ ∧ s.SparesNeighbor sender _ _))
  | .disconnect _ => inferInstanceAs (Decidable ((_ → s.SparesRemoved sender _) ∧ (_ → _ ∨ _)))

instance : (event : InEvent PI) → Decidable (s.SparesEvent event)
  | .recvMessage sender message => inferInstanceAs (Decidable (s.SparesMessage sender message))
  | .timerExpired (.pendingNeighborRequest _) => inferInstanceAs (Decidable (_ → _ ∨ _))
  | .peerDisconnected peer =>
    inferInstanceAs (Decidable ((_ → s.SparesRemoved peer _) ∧ (_ → _ → _ ∨ _)))
  | .quit => inferInstanceAs (Decidable (∀ p ∈ _, _ ∨ _))
  | .timerExpired .doShuffle | .requestJoin _ | .updatePeerData _ => inferInstanceAs (Decidable True)

instance (sender : PI) : Decidable (s.LimitsNeighbor sender) :=
  inferInstanceAs (Decidable (_ → (∃ p ∈ _, _) → _))

instance : (event : InEvent PI) → Decidable (s.LimitsRequests event)
  | .recvMessage sender (.join _) | .recvMessage sender (.neighbor ⟨.high, _⟩) =>
    inferInstanceAs (Decidable (s.LimitsNeighbor sender))
  | .recvMessage _ (.forwardJoin _) => inferInstanceAs (Decidable (_ → _ → _ → _))
  | .quit => inferInstanceAs (Decidable (_ ≤ _))
  | .recvMessage _ (.neighbor ⟨.low, _⟩) | .recvMessage _ (.shuffle _)
  | .recvMessage _ (.shuffleReply _) | .recvMessage _ (.disconnect _) | .timerExpired _
  | .peerDisconnected _ | .requestJoin _ | .updatePeerData _ => inferInstanceAs (Decidable True)

instance (event : InEvent PI) : Decidable (s.Thrifty event) :=
  inferInstanceAs (Decidable (_ ∧ _))

end
end State

/-! ## What the handlers do to the data -/

/-- Nothing changes that matters to the stored data. -/
structure Keeps (x y : Node PI R) : Prop where
  me : y.state.me = x.state.me
  config : y.state.config = x.state.config
  active : y.state.activeView = x.state.activeView
  passive : y.state.passiveView = x.state.passiveView
  pending : y.state.pendingNeighborRequests = x.state.pendingNeighborRequests
  data : y.state.peerData = x.state.peerData

section
variable (random : Random R) {s : State PI R} {x y z : Node PI R} {peer p q : PI}
  {except : PI → Prop} {data : Option PeerData} {priority : Priority}

lemma Keeps.refl (x : Node PI R) : Keeps x x := ⟨rfl, rfl, rfl, rfl, rfl, rfl⟩

lemma Keeps.trans (h : Keeps x y) (h' : Keeps y z) : Keeps x z :=
  ⟨h'.me.trans h.me, h'.config.trans h.config, h'.active.trans h.active,
    h'.passive.trans h.passive, h'.pending.trans h.pending, h'.data.trans h.data⟩

lemma State.KnownBut.request {t : State PI R} (h : s.KnownBut except)
    (hactiv : t.activeView = s.activeView) (hpas : t.passiveView = s.passiveView)
    (hpen : s.pendingNeighborRequests ⊆ t.pendingNeighborRequests)
    (hdata : t.peerData = s.peerData) : t.KnownBut except := by
  intro q hq
  rw [hdata] at hq
  unfold Knows
  rw [hactiv, hpas]
  rcases h q hq with (hmem | hmem | hmem) | hexc
  · exact .inl (.inl hmem)
  · exact .inl (.inr (.inl hmem))
  · exact .inl (.inr (.inr (hpen hmem)))
  · exact .inr hexc

lemma Keeps.knownBut (h : Keeps x y) (hx : x.state.KnownBut except) : y.state.KnownBut except :=
  hx.request h.active h.passive (by rw [h.pending]) h.data

lemma Keeps.outside (h : Keeps x y) : y.state.outside = x.state.outside := by
  unfold State.outside
  rw [h.active, h.pending]

lemma State.KnownBut.imp {other : PI → Prop} (h : s.KnownBut except)
    (himp : ∀ p, except p → s.peerData.get p ≠ none → s.Knows p ∨ other p) : s.KnownBut other := by
  intro p hp
  cases h p hp with
  | inl hknow => exact .inl hknow
  | inr hexc => exact himp p hexc hp

lemma State.mem_outside : p ∈ s.outside ↔
    p ∈ s.pendingNeighborRequests ∧ p ∉ s.activeView.items := by
  rw [outside, mem_filter, IndexSet.contains_eq_false]

lemma State.mem_freedPassive_or (h : p ∈ s.passiveView.items) :
    p ∈ (s.freedPassive random).items ∨ s.passiveIsFull = true := by
  unfold freedPassive
  split
  · rename_i hfull
    exact .inr hfull
  · exact .inl h

namespace Node

lemma sendNeighbor_state (x : Node PI R) (peer : PI) (priority : Priority) :
    (sendNeighbor x peer priority).state = { x.state with
      pendingNeighborRequests := insert peer x.state.pendingNeighborRequests } := by
  unfold sendNeighbor
  split
  · rename_i hmem
    rw [insert_eq_of_mem hmem]
  · rfl

lemma knownBut_sendNeighbor (h : x.state.KnownBut except) (peer : PI) (priority : Priority) :
    (sendNeighbor x peer priority).state.KnownBut except := by
  rw [sendNeighbor_state]
  exact h.request rfl rfl (subset_insert _ _) rfl

lemma get_insertPeerInfo {info : PeerInfo PI}
    (h : (insertPeerInfo x info).state.peerData.get q ≠ none) :
    x.state.peerData.get q ≠ none ∨ q = info.id ∧ info.data ≠ none := by
  rw [insertPeerInfo_state] at h
  cases hdata : info.data with
  | none =>
    rw [hdata] at h
    exact .inl h
  | some data =>
    by_cases hq : q = info.id
    · exact .inr ⟨hq, nofun⟩
    · rw [hdata] at h
      dsimp only [Option.elim_some] at h
      rw [Table.get_insert_of_ne hq] at h
      exact .inl h

lemma knownBut_insertPeerInfo {info : PeerInfo PI} (h : x.state.KnownBut fun q => q = info.id) :
    (insertPeerInfo x info).state.KnownBut fun q => q = info.id := by
  intro q hq
  have hold := get_insertPeerInfo hq
  rw [insertPeerInfo_state]
  cases hold with
  | inl hstor => exact h q hstor
  | inr hnew => exact .inr hnew.1

variable (x)

lemma keeps_sendShuffleReply (receiver : PI) (len : Nat) :
    Keeps x (sendShuffleReply random x receiver len) :=
  ⟨rfl, rfl, rfl, rfl, rfl, rfl⟩

lemma keeps_sendDisconnect (peer : PI) (alive : Bool) :
    Keeps x (sendDisconnect random x peer alive) :=
  ⟨rfl, rfl, rfl, rfl, rfl, rfl⟩

lemma addPassive_state (peer : PI) (data : Option PeerData) :
    (peer ∈ x.state.activeView.items ∨ peer ∈ x.state.passiveView.items ∨ peer = x.state.me) ∧
      addPassive random x peer data = insertPeerInfo x ⟨peer, data⟩ ∨
    (peer ∉ x.state.activeView.items ∧ peer ∉ x.state.passiveView.items ∧ peer ≠ x.state.me) ∧
      ∃ rng, (addPassive random x peer data).state = { (insertPeerInfo x ⟨peer, data⟩).state with
        passiveView := (x.state.freedPassive random).insert peer, rng := rng } := by
  have hstat := insertPeerInfo_state x ⟨peer, data⟩
  unfold addPassive
  simp only
  split
  · rename_i hguar
    rw [hstat] at hguar
    exact .inl ⟨hguar, rfl⟩
  · rename_i hguar
    rw [hstat] at hguar
    simp only [not_or] at hguar
    have hfreed : (insertPeerInfo x ⟨peer, data⟩).state.freedPassive random =
        x.state.freedPassive random := by
      rw [hstat]
      rfl
    refine .inr ⟨hguar, ?_⟩
    rw [freedPassive_eq, hfreed]
    exact ⟨_, rfl⟩

lemma addPassive_frame (peer : PI) (data : Option PeerData) :
    let after := (addPassive random x peer data).state
    after.me = x.state.me ∧ after.config = x.state.config ∧
      after.activeView = x.state.activeView ∧
      after.pendingNeighborRequests = x.state.pendingNeighborRequests ∧
      after.peerData = (insertPeerInfo x ⟨peer, data⟩).state.peerData := by
  have hstat := insertPeerInfo_state x ⟨peer, data⟩
  cases addPassive_state random x peer data with
  | inl h =>
    rw [h.2, hstat]
    exact ⟨rfl, rfl, rfl, rfl, rfl⟩
  | inr h =>
    obtain ⟨_, rng, h⟩ := h
    rw [h, hstat]
    exact ⟨rfl, rfl, rfl, rfl, rfl⟩

variable {x}

/-- The peer may be unknown before it is enrolled. Whoever makes room for it must not have data. -/
lemma knownBut_addPassive (hx : x.state.KnownBut fun q => except q ∨ q = peer)
    (hme : peer = x.state.me → peer ∈ x.state.pendingNeighborRequests ∨
      data = none ∧ x.state.peerData.get peer = none)
    (hfull : peer ∉ x.state.activeView.items → peer ∉ x.state.passiveView.items →
      peer ≠ x.state.me → x.state.SparesBut except) :
    (addPassive random x peer data).state.KnownBut except := by
  intro q hq
  obtain ⟨_, _, hactiv, hpen, hdata⟩ := addPassive_frame random x peer data
  rw [hdata] at hq
  have hstor := get_insertPeerInfo hq
  unfold State.Knows
  rw [hactiv, hpen]
  by_cases hqp : q = peer
  · subst hqp
    rcases addPassive_state random x q data with ⟨hin, heq⟩ | ⟨-, rng, heq⟩
    · rw [heq, insertPeerInfo_state]
      rcases hin with h | h | h
      · exact .inl (.inl h)
      · exact .inl (.inr (.inl h))
      · rcases hme h with hpend | ⟨hnone, hget⟩
        · exact .inl (.inr (.inr hpend))
        · exact absurd hnone (hstor.resolve_left (not_not.mpr hget)).2
    · rw [heq]
      exact .inl (.inr (.inl (IndexSet.mem_insert.mpr (.inr rfl))))
  · have hold : x.state.peerData.get q ≠ none := hstor.resolve_right fun hnew => hqp hnew.1
    rcases hx q hold with (hact | hpass | hpend) | hex | heq
    · exact .inl (.inl hact)
    · rcases addPassive_state random x peer data with ⟨-, heq⟩ | ⟨⟨h₁, h₂, h₃⟩, rng, heq⟩
      · rw [heq, insertPeerInfo_state]
        exact .inl (.inr (.inl hpass))
      · rw [heq]
        by_cases hex : except q
        · exact .inr hex
        rcases mem_freedPassive_or random hpass with hfreed | h₄
        · exact .inl (.inr (.inl (IndexSet.mem_insert.mpr (.inl hfreed))))
        · exact .inl (.inr (.inr ((hfull h₁ h₂ h₃ h₄ q hpass hex).resolve_right hold)))
    · exact .inl (.inr (.inr hpend))
    · exact .inr hex
    · exact absurd heq hqp

lemma refillActiveFromPassive_state (x : Node PI R) (skipPeers : List PI) :
    ∃ rng pending, (refillActiveFromPassive random x skipPeers).state = { x.state with
      rng := rng, pendingNeighborRequests := pending } ∧
      (pending = x.state.pendingNeighborRequests ∨ ∃ q,
        pending = insert q x.state.pendingNeighborRequests ∧ x.state.activeView.len +
          x.state.pendingNeighborRequests.card < x.state.config.activeViewCapacity) := by
  unfold refillActiveFromPassive
  simp only
  split
  · exact ⟨_, _, rfl, .inl rfl⟩
  · rename_i hroom
    split
    · exact ⟨_, _, rfl, .inl rfl⟩
    · rename_i node _
      rw [Io.push_state, sendNeighbor_state]
      exact ⟨_, _, rfl, .inr ⟨node, rfl, Nat.lt_of_not_le hroom⟩⟩

lemma knows_removeIndex {i : Nat} (hpeer : s.activeView.items[i]? = some peer)
    (hq : q ≠ peer) (h : s.Knows q) :
    State.Knows { s with activeView := s.activeView.removeIndex i } q := by
  obtain ⟨hi, rfl⟩ := List.getElem?_eq_some_iff.mp hpeer
  exact h.imp_left fun hactiv => (IndexSet.mem_removeIndex hi).mpr ⟨hactiv, hq⟩

lemma knownBut_demote {i : Nat} (hx : x.state.Valid)
    (hpeer : x.state.activeView.items[i]? = some peer) (hknow : x.state.KnownBut except)
    (hspar : x.state.SparesBut except)
    (hy : Keeps (x.modify fun s => { s with activeView := s.activeView.removeIndex i }) y) :
    (addPassive random (y.modify fun s => { s with peerData := s.peerData.remove peer }) peer
      (y.state.peerData.get peer)).state.KnownBut except := by
  have hmem : peer ∈ x.state.activeView.items := List.mem_of_getElem? hpeer
  refine knownBut_addPassive random ?_ ?_ ?_
  · intro q hq
    rw [Io.modify_state] at hq
    by_cases hqp : q = peer
    · exact .inr (.inr hqp)
    · rw [Table.get_remove_of_ne hqp, hy.data] at hq
      unfold State.Knows
      rw [Io.modify_state, hy.active, hy.passive, hy.pending]
      exact (hknow q hq).imp (knows_removeIndex hpeer hqp) .inl
  · intro hme
    rw [Io.modify_state, hy.me] at hme
    exact absurd (hme ▸ hmem) hx.me_active
  · intro _ _ _ hfull q hq hexc
    have hfull' : x.state.passiveIsFull = true := by
      unfold passiveIsFull at hfull ⊢
      rw [Io.modify_state, hy.passive, hy.config] at hfull
      exact hfull
    rw [Io.modify_state, hy.passive] at hq
    rw [Io.modify_state, hy.pending]
    rcases hspar hfull' q hq hexc with hpend | hnone
    · exact .inl hpend
    · refine .inr ?_
      have hqp : q ≠ peer := fun heq => hx.disjoint peer hmem (heq ▸ hq)
      rw [Table.get_remove_of_ne hqp, hy.data]
      exact hnone

def keepsAsPassive (s : State PI R) (peer : PI) : RemovalReason → Bool
  | .connectionClosed => decide (peer ∈ s.aliveDisconnectPeers)
  | .disconnectReceived isAlive => isAlive
  | .random => true

variable {reason : RemovalReason}

lemma knownBut_removeActiveByIndex {i : Nat} (hx : x.state.Valid)
    (hpeer : x.state.activeView.items[i]? = some peer) (hknow : x.state.KnownBut except)
    (hkeep : keepsAsPassive x.state peer reason = true → x.state.SparesBut except)
    (hdrop : keepsAsPassive x.state peer reason = false →
      peer ∈ x.state.pendingNeighborRequests ∨ x.state.peerData.get peer = none) :
    (removeActiveByIndex random x i reason).1.state.KnownBut except := by
  -- a peer that is not kept has no data
  have hrem : keepsAsPassive x.state peer reason = false →
      (x.modify fun s => { s with activeView := s.activeView.removeIndex i }).state.KnownBut
        except := by
    intro hfal q hq
    by_cases hqp : q = peer
    · subst hqp
      rcases hdrop hfal with hpend | hnone
      · exact .inl (.inr (.inr hpend))
      · exact absurd hnone hq
    · exact (hknow q hq).imp_left (knows_removeIndex hpeer hqp)
  unfold removeActiveByIndex
  simp only [hpeer]
  cases reason with
  | random =>
    simp only [if_true, reduceCtorEq, if_false]
    exact knownBut_demote random hx hpeer hknow (hkeep rfl) ⟨rfl, rfl, rfl, rfl, rfl, rfl⟩
  | disconnectReceived isAlive =>
    simp only [reduceCtorEq, if_false]
    cases isAlive with
    | true =>
      exact knownBut_demote random hx hpeer hknow (hkeep rfl) ⟨rfl, rfl, rfl, rfl, rfl, rfl⟩
    | false => exact hrem rfl
  | connectionClosed =>
    simp only [if_true]
    split
    · rename_i haliv
      exact knownBut_demote random hx hpeer hknow (hkeep haliv) ⟨rfl, rfl, rfl, rfl, rfl, rfl⟩
    · rename_i haliv
      exact hrem (Bool.eq_false_iff.mpr haliv)

lemma removeActiveByIndex_pending (x : Node PI R) (i : Nat) (reason : RemovalReason) :
    (removeActiveByIndex random x i reason).1.state.pendingNeighborRequests =
      x.state.pendingNeighborRequests := by
  unfold removeActiveByIndex
  split
  · rfl
  · rename_i peer hpeer
    have hpas : ∀ (y : Node PI R) (data : Option PeerData),
        (addPassive random y peer data).state.pendingNeighborRequests =
          y.state.pendingNeighborRequests :=
      fun y data => (addPassive_frame random y peer data).2.2.2.1
    cases reason with
    | random =>
      simp only [if_true, reduceCtorEq, if_false]
      exact hpas _ _
    | disconnectReceived isAlive =>
      simp only [reduceCtorEq, if_false]
      split
      · exact hpas _ _
      · rfl
    | connectionClosed =>
      simp only [if_true]
      split
      · exact hpas _ _
      · rfl

lemma outside_removeActiveByIndex {i : Nat} (hpeer : x.state.activeView.items[i]? = some peer)
    (hq : q ∈ (removeActiveByIndex random x i reason).1.state.outside) :
    q ∈ x.state.outside ∨ q = peer ∧ peer ∈ x.state.pendingNeighborRequests := by
  have hdrops : Drops peer x (removeActiveByIndex random x i reason).1 :=
    (removes_removeActiveByIndex random hpeer).drops
  obtain ⟨hpen, hactiv⟩ := mem_outside.mp hq
  rw [removeActiveByIndex_pending] at hpen
  rw [hdrops.active] at hactiv
  by_cases hqp : q = peer
  · exact .inr ⟨hqp, hqp ▸ hpen⟩
  · exact .inl (mem_outside.mpr ⟨hpen, fun hmem => hactiv ⟨hmem, hqp⟩⟩)

lemma addActiveUnchecked_state (x : Node PI R) (peer : PI) (priority : Priority) (reply : Bool) :
    ∃ pending, (pending = x.state.pendingNeighborRequests ∨
        pending = insert peer x.state.pendingNeighborRequests) ∧
      (addActiveUnchecked x peer priority reply).state = { x.state with
        passiveView := x.state.passiveView.remove peer
        activeView := x.state.activeView.insert peer
        pendingNeighborRequests := pending } := by
  unfold addActiveUnchecked
  simp only
  split
  · rename_i hmem
    have hsame : x.state.activeView.insert peer = x.state.activeView := dif_pos hmem
    rw [hsame]
    exact ⟨_, .inl rfl, rfl⟩
  · split
    · rw [sendNeighbor_state]
      exact ⟨_, .inr rfl, rfl⟩
    · exact ⟨_, .inl rfl, rfl⟩

variable {reply : Bool}

lemma known_addActiveUnchecked (h : x.state.KnownBut fun q => q = peer) :
    (addActiveUnchecked x peer priority reply).state.KnownBut fun _ => False := by
  obtain ⟨pending, hpen, hstat⟩ := addActiveUnchecked_state x peer priority reply
  rw [hstat]
  intro q hq
  by_cases hqp : q = peer
  · exact .inl (.inl (IndexSet.mem_insert.mpr (.inr hqp)))
  · rcases h q hq with (hactiv | hpas | hpend) | heq
    · exact .inl (.inl (IndexSet.mem_insert.mpr (.inl hactiv)))
    · exact .inl (.inr (.inl (IndexSet.mem_remove.mpr ⟨hpas, hqp⟩)))
    · refine .inl (.inr (.inr ?_))
      rcases hpen with rfl | rfl
      · exact hpend
      · exact mem_insert_of_mem hpend
    · exact absurd heq hqp

lemma outside_addActiveUnchecked
    (hq : q ∈ (addActiveUnchecked x peer priority reply).state.outside) :
    q ∈ x.state.outside.erase peer := by
  obtain ⟨pending, hpen, hstat⟩ := addActiveUnchecked_state x peer priority reply
  rw [hstat] at hq
  obtain ⟨hpend, hactiv⟩ := mem_outside.mp hq
  have hqp : q ≠ peer := fun heq => hactiv (IndexSet.mem_insert.mpr (.inr heq))
  refine mem_erase.mpr ⟨hqp, mem_outside.mpr ⟨?_, fun hmem => ?_⟩⟩
  · rcases hpen with rfl | rfl
    · exact hpend
    · exact mem_of_mem_insert_of_ne hpend hqp
  · exact hactiv (IndexSet.mem_insert.mpr (.inl hmem))

lemma knownBut_freeRandomSlotInActiveView (hx : x.state.Valid)
    (hknow : x.state.KnownBut fun q => q = peer) (hspar : x.state.Spares peer) :
    (freeRandomSlotInActiveView random x).state.KnownBut fun q => q = peer := by
  obtain ⟨rng, heq | ⟨i, dropped, hdropp, heq⟩⟩ := freeRandomSlotInActiveView_eq random x
  · rw [heq]
    exact hknow
  · have hcalm : Calm random x (x.modify fun s => { s with rng := rng }) :=
      calm_modify rfl rfl rfl rfl
    rw [heq]
    exact knownBut_removeActiveByIndex random (hcalm.moves.valid hx) hdropp hknow
      (fun _ => hspar) nofun

lemma outside_freeRandomSlotInActiveView (x : Node PI R) :
    (freeRandomSlotInActiveView random x).state.outside ⊆ x.state.outside ∨
    ∃ p ∈ x.state.activeView.items, p ∈ x.state.pendingNeighborRequests ∧
      (freeRandomSlotInActiveView random x).state.outside ⊆ insert p x.state.outside := by
  obtain ⟨rng, heq | ⟨i, dropped, hdropp, heq⟩⟩ := freeRandomSlotInActiveView_eq random x
  · rw [heq]
    exact .inl (Finset.Subset.refl _)
  · rw [heq]
    by_cases hpen : dropped ∈ x.state.pendingNeighborRequests
    · refine .inr ⟨dropped, List.mem_of_getElem? hdropp, hpen, fun q hq => ?_⟩
      rcases outside_removeActiveByIndex (x := x.modify _) random hdropp hq with hold | hleft
      · exact mem_insert_of_mem hold
      · exact mem_insert.mpr (.inl hleft.1)
    · refine .inl fun q hq => ?_
      rcases outside_removeActiveByIndex (x := x.modify _) random hdropp hq with hold | hleft
      · exact hold
      · exact absurd hleft.2 hpen

lemma spares_insertPeerInfo (h : x.state.Spares peer) :
    (insertPeerInfo x ⟨peer, data⟩).state.Spares peer := by
  intro hfull q hq hne
  have hget : (insertPeerInfo x ⟨peer, data⟩).state.peerData.get q ≠ none → _ :=
    get_insertPeerInfo
  rw [insertPeerInfo_state] at hfull hq hget ⊢
  rcases h hfull q hq hne with hpen | hnone
  · exact .inl hpen
  · refine .inr (by_contra fun hstor => ?_)
    rcases hget hstor with hold | hnew
    · exact hold hnone
    · exact hne hnew.1

end Node

/-- The nodes of a message have been enrolled, one after the other. -/
structure Enrolled (s : State PI R) (before : List (PeerInfo PI)) (y : Node PI R) : Prop where
  valid : y.state.Valid
  me : y.state.me = s.me
  config : y.state.config = s.config
  active : y.state.activeView = s.activeView
  pending : y.state.pendingNeighborRequests = s.pendingNeighborRequests
  passive : ∀ q ∈ y.state.passiveView.items,
    q ∈ s.passiveView.items ∨ q ∈ before.map PeerInfo.id
  room : s.passiveView.len + (s.newcomers before).card ≤ s.config.passiveViewCapacity →
    ∀ q, q ∈ y.state.passiveView.items ↔ q ∈ s.passiveView.items ∨ q ∈ s.newcomers before
  data : ∀ q, y.state.peerData.get q ≠ none → s.peerData.get q ≠ none ∨
    ∃ node ∈ before, node.id = q ∧ node.data ≠ none
  known : y.state.KnownBut fun _ => False

variable {nodes : List (PeerInfo PI)}

lemma State.mem_newcomers : q ∈ s.newcomers nodes ↔
    q ∈ nodes.map PeerInfo.id ∧ q ∉ s.activeView.items ∧ q ∉ s.passiveView.items ∧ q ≠ s.me := by
  rw [newcomers, mem_filter, List.mem_toFinset, IndexSet.contains_eq_false,
    IndexSet.contains_eq_false]

variable {node : PeerInfo PI}

lemma State.newcomers_mono : s.newcomers nodes ⊆ s.newcomers (nodes ++ [node]) := by
  intro q hq
  obtain ⟨hmem, hrest⟩ := mem_newcomers.mp hq
  refine mem_newcomers.mpr ⟨?_, hrest⟩
  rw [List.map_append]
  exact List.mem_append_left _ hmem

lemma Enrolled.refl (hs : x.state.Valid) (hknow : x.state.KnownBut fun _ => False) :
    Enrolled x.state [] x where
  valid := hs
  me := rfl
  config := rfl
  active := rfl
  pending := rfl
  passive _ hq := .inl hq
  room _ q := by
    rw [mem_newcomers]
    simp
  data _ hq := .inl hq
  known := hknow

variable {before : List (PeerInfo PI)}

/-- If there is room for all the newcomers, then the view is not full before the last one. -/
lemma Enrolled.not_full (h : Enrolled s before y) (hactiv : node.id ∉ s.activeView.items)
    (hpas : node.id ∉ y.state.passiveView.items) (hme : node.id ≠ s.me)
    (hroom : s.passiveView.len + (s.newcomers (before ++ [node])).card ≤
      s.config.passiveViewCapacity) : y.state.passiveIsFull = false := by
  have hle := card_le_card
    (newcomers_mono : s.newcomers before ⊆ s.newcomers (before ++ [node]))
  have hmem := h.room (by omega)
  have hnot : node.id ∉ s.newcomers before := fun hin => hpas ((hmem _).mpr (.inr hin))
  have hold : node.id ∉ s.passiveView.items := fun hin => hpas ((hmem _).mpr (.inl hin))
  have hnew : node.id ∈ s.newcomers (before ++ [node]) := by
    refine mem_newcomers.mpr ⟨?_, hactiv, hold, hme⟩
    rw [List.map_append]
    exact List.mem_append_right _ List.mem_cons_self
  have hlt : (s.newcomers before).card < (s.newcomers (before ++ [node])).card :=
    card_lt_card ⟨newcomers_mono, fun hsub => hnot (hsub hnew)⟩
  have hlen : y.state.passiveView.len ≤ s.passiveView.len + (s.newcomers before).card := by
    calc y.state.passiveView.items.length
        _ = y.state.passiveView.items.toFinset.card :=
          (List.toFinset_card_of_nodup y.state.passiveView.nodup).symm
        _ ≤ (s.passiveView.items.toFinset ∪ s.newcomers before).card := by
          refine card_le_card fun q hq => ?_
          rw [mem_union, List.mem_toFinset]
          exact (hmem q).mp (List.mem_toFinset.mp hq)
        _ ≤ s.passiveView.items.toFinset.card + (s.newcomers before).card :=
          card_union_le _ _
        _ ≤ s.passiveView.items.length + (s.newcomers before).card :=
          Nat.add_le_add_right (List.toFinset_card_le _) _
  unfold passiveIsFull
  rw [h.config]
  exact decide_eq_false (by omega)

lemma Enrolled.step (h : Enrolled s before y) (hspar : s.SparesNode before node) :
    Enrolled s (before ++ [node]) (addPassive random y node.id node.data) := by
  obtain ⟨hme, hcon, hactiv, hpen, hdata⟩ :=
    addPassive_frame random y node.id node.data
  have hids : ∀ q, q ∈ (before ++ [node]).map PeerInfo.id ↔
      q ∈ before.map PeerInfo.id ∨ q = node.id := by
    intro q
    rw [List.map_append, List.mem_append, List.map_singleton, List.mem_singleton]
  refine ⟨(calm_addPassive random y _ _).moves.valid h.valid, hme.trans h.me, hcon.trans h.config,
    hactiv.trans h.active, hpen.trans h.pending, ?_, ?_, ?_, ?_⟩
  · intro q hq
    rw [hids]
    rcases addPassive_state random y node.id node.data with ⟨_, heq⟩ | ⟨_, rng, heq⟩
    · rw [heq, insertPeerInfo_state] at hq
      exact (h.passive q hq).imp_right Or.inl
    · rw [heq] at hq
      rcases IndexSet.mem_insert.mp hq with hfreed | hnode
      · exact (h.passive q (mem_freedPassive hfreed)).imp_right Or.inl
      · exact .inr (.inr hnode)
  · intro hroom q
    have hle := card_le_card
      (newcomers_mono : s.newcomers before ⊆ s.newcomers (before ++ [node]))
    have hmem := h.room (by omega) q
    have hnew : q ∈ s.newcomers (before ++ [node]) → q ∈ s.newcomers before ∨ q = node.id := by
      intro hq
      obtain ⟨hin, hrest⟩ := mem_newcomers.mp hq
      rcases (hids q).mp hin with hin | hin
      · exact .inl (mem_newcomers.mpr ⟨hin, hrest⟩)
      · exact .inr hin
    rcases addPassive_state random y node.id node.data with ⟨hguar, heq⟩ | ⟨hguar, rng, heq⟩
    · rw [heq, insertPeerInfo_state]
      constructor
      · exact fun hq => (hmem.mp hq).imp_right fun hin => newcomers_mono hin
      · rintro (hold | hin)
        · exact hmem.mpr (.inl hold)
        · rcases hnew hin with hbef | rfl
          · exact hmem.mpr (.inr hbef)
          · obtain ⟨_, hact, hpass, hne⟩ := mem_newcomers.mp hin
            rw [h.active, h.me] at hguar
            exact (hguar.resolve_left hact).resolve_right hne
    · obtain ⟨hact, hpass, hne⟩ := hguar
      rw [h.active] at hact
      rw [h.me] at hne
      have hfreed : y.state.freedPassive random = y.state.passiveView := by
        unfold freedPassive
        rw [h.not_full hact hpass hne hroom]
        rfl
      rw [heq, hfreed]
      simp only [IndexSet.mem_insert]
      constructor
      · rintro (hin | rfl)
        · exact (hmem.mp hin).imp_right fun hin => newcomers_mono hin
        · have hold : node.id ∉ s.passiveView.items := fun hin => hpass (hmem.mpr (.inl hin))
          exact .inr (mem_newcomers.mpr ⟨(hids _).mpr (.inr rfl), hact, hold, hne⟩)
      · rintro (hold | hin)
        · exact .inl (hmem.mpr (.inl hold))
        · exact (hnew hin).imp_left fun hbef => hmem.mpr (.inr hbef)
  · intro q hq
    rw [hdata] at hq
    rcases get_insertPeerInfo hq with hold | hnew
    · rcases h.data q hold with hs | ⟨other, hother, hrest⟩
      · exact .inl hs
      · exact .inr ⟨other, List.mem_append_left _ hother, hrest⟩
    · exact .inr ⟨node, List.mem_append_right _ List.mem_cons_self, hnew.1.symm, hnew.2⟩
  · refine knownBut_addPassive random ?_ ?_ ?_
    · exact h.known.imp fun p hp => hp.elim
    · intro heq
      by_cases hpend : node.id ∈ y.state.pendingNeighborRequests
      · exact .inl hpend
      · have hself := hspar.1 (heq.trans h.me)
        rw [← h.me, ← h.pending, ← heq] at hself
        refine .inr ⟨hself.resolve_left hpend, by_contra fun hstor => ?_⟩
        rcases h.known _ hstor with (hact | hpass | hin) | hfal
        · exact h.valid.me_active (heq ▸ hact)
        · exact h.valid.me_passive (heq ▸ hpass)
        · exact hpend hin
        · exact hfal
    · intro hact hpass hne hfull q hq _
      rw [h.active] at hact
      rw [h.me] at hne
      have hover : s.config.passiveViewCapacity <
          s.passiveView.len + (s.newcomers (before ++ [node])).card := by
        refine Nat.lt_of_not_le fun hroom => ?_
        rw [h.not_full hact hpass hne hroom] at hfull
        cases hfull
      have hqact : q ∉ s.activeView.items := by
        rw [← h.active]
        exact fun hin => h.valid.disjoint q hin hq
      have hqmem : q ∈ s.passiveView.items ++ before.map PeerInfo.id :=
        List.mem_append.mpr (h.passive q hq)
      have hqne : q ≠ node.id := fun heq => hpass (heq ▸ hq)
      rw [h.pending]
      rcases hspar.2 hact hne hover q hqmem hqne hqact with hpend | ⟨hnone, hoth⟩
      · exact .inl hpend
      · refine .inr (by_contra fun hstor => ?_)
        rcases h.data q hstor with hold | ⟨other, hother, hid, hsome⟩
        · exact hold hnone
        · exact hsome (hoth other hother hid)

lemma Enrolled.foldl {before nodes : List (PeerInfo PI)} (h : Enrolled s before y)
    (hspar : s.SparesNodes before nodes) : Enrolled s (before ++ nodes)
      (nodes.foldl (fun y node => addPassive random y node.id node.data) y) := by
  induction nodes generalizing before y with
  | nil =>
    rw [List.append_nil]
    exact h
  | cons node nodes ih =>
    have hstep := ih (h.step random hspar.1) hspar.2
    rw [List.append_assoc] at hstep
    exact hstep

lemma Enrolled.outside (h : Enrolled s before y) : y.state.outside = s.outside := by
  unfold State.outside
  rw [h.active, h.pending]

/-! ## Events -/

/-- What keeps the stored data in bounds. -/
structure State.Contained (s : State PI R) : Prop where
  valid : s.Valid
  known : s.KnownBut fun _ => False
  limited : s.outside.card ≤ s.config.activeViewCapacity

lemma Keeps.contained (h : Keeps x y) (hx : x.state.Contained) : y.state.Contained := by
  refine ⟨?_, h.knownBut hx.known, ?_⟩
  · obtain ⟨h₁, h₂, h₃, h₄, h₅, h₆, h₇⟩ := hx.valid
    constructor <;> simp only [h.me, h.config, h.active, h.passive] <;> assumption
  · rw [h.outside, h.config]
    exact hx.limited

lemma Keeps.foldl {α : Type} {f : Node PI R → α → Node PI R} (h : ∀ x a, Keeps x (f x a))
    (l : List α) (x : Node PI R) : Keeps x (l.foldl f x) :=
  List.foldlRecOn l f (.refl x) fun y hy a _ => hy.trans (h y a)

def State.settled (s : State PI R) (peer : PI) : State PI R :=
  { s with pendingNeighborRequests := s.pendingNeighborRequests.erase peer }

lemma State.Contained.knownBut_settled (h : s.Contained) (peer : PI) :
    (s.settled peer).KnownBut fun q => q = peer := by
  intro q hq
  by_cases hqp : q = peer
  · exact .inr hqp
  · rcases h.known q hq with (hactiv | hpas | hpen) | hfal
    · exact .inl (.inl hactiv)
    · exact .inl (.inr (.inl hpas))
    · exact .inl (.inr (.inr (mem_erase.mpr ⟨hqp, hpen⟩)))
    · exact hfal.elim

lemma State.outside_settled (s : State PI R) (peer : PI) :
    (s.settled peer).outside = s.outside.erase peer := by
  ext q
  simp only [mem_outside, settled, mem_erase, and_assoc]

lemma State.Contained.settled (h : s.Contained) (hpeer : peer ∈ s.activeView.items ∨
    peer ∈ s.passiveView.items ∨ s.peerData.get peer = none) : (s.settled peer).Contained := by
  refine ⟨{ h.valid with }, (h.knownBut_settled peer).imp fun q hq hstor => ?_, ?_⟩
  · subst hq
    rcases hpeer with hactiv | hpas | hnone
    · exact .inl (.inl hactiv)
    · exact .inl (.inr (.inl hpas))
    · exact absurd hnone hstor
  · rw [outside_settled]
    exact card_erase_le.trans h.limited

lemma State.Spares.settled (h : s.Spares peer) : (s.settled peer).Spares peer := by
  intro hfull q hq hne
  rcases h hfull q hq hne with hpen | hnone
  · exact .inl (mem_erase.mpr ⟨hne, hpen⟩)
  · exact .inr hnone

include random in
lemma State.Contained.discarded {data : Table PI PeerData} (h : s.Contained)
    (hdata : ∀ q, data.get q ≠ none →
      s.peerData.get q ≠ none ∧ (q = peer → q ∈ s.activeView.items)) :
    ({ s with
      pendingNeighborRequests := s.pendingNeighborRequests.erase peer
      passiveView := s.passiveView.remove peer
      peerData := data } : State PI R).Contained := by
  refine ⟨?_, fun q hq => ?_, ?_⟩
  · have hmov : Move random ⟨s, []⟩ (Io.modify ⟨s, []⟩ fun s =>
        { s with passiveView := s.passiveView.remove peer }) := .discard
    exact { hmov.valid h.valid with }
  · obtain ⟨hstor, hpeer⟩ := hdata q hq
    by_cases hqp : q = peer
    · exact .inl (.inl (hpeer hqp))
    · rcases h.known q hstor with (hmem | hmem | hmem) | hfal
      · exact .inl (.inl hmem)
      · exact .inl (.inr (.inl (IndexSet.mem_remove.mpr ⟨hmem, hqp⟩)))
      · exact .inl (.inr (.inr (mem_erase.mpr ⟨hqp, hmem⟩)))
      · exact hfal.elim
  · have hout := (card_erase_le (a := peer)).trans h.limited
    rw [← outside_settled] at hout
    exact hout

lemma Enrolled.contained {before : List (PeerInfo PI)} (h : Enrolled s before y)
    (hs : s.Contained) : y.state.Contained := by
  refine ⟨h.valid, h.known, ?_⟩
  rw [h.outside, h.config]
  exact hs.limited

namespace Node

lemma contained_refillActiveFromPassive (h : x.state.Contained) (skipPeers : List PI) :
    (refillActiveFromPassive random x skipPeers).state.Contained := by
  have hval := (calm_refillActiveFromPassive random x skipPeers).moves.valid h.valid
  obtain ⟨rng, pending, hstat, hpen⟩ := refillActiveFromPassive_state random x skipPeers
  rw [hstat] at hval ⊢
  rcases hpen with rfl | ⟨node, rfl, hroom⟩
  · exact ⟨hval, h.known, h.limited⟩
  · refine ⟨hval, h.known.request rfl rfl (subset_insert _ _) rfl, ?_⟩
    calc (outside _).card
        _ ≤ (insert node x.state.pendingNeighborRequests).card :=
          card_le_card (filter_subset _ _)
        _ ≤ x.state.pendingNeighborRequests.card + 1 := card_insert_le _ _
        _ ≤ x.state.config.activeViewCapacity := by omega

variable {reply : Bool}

lemma contained_addActive (hx : x.state.Valid) (hknow : x.state.KnownBut fun q => q = peer)
    (hlim : x.state.outside.card ≤ x.state.config.activeViewCapacity)
    (hme : peer = x.state.me → x.state.KnownBut fun _ => False)
    (hspar : x.state.SparesNeighbor peer data priority)
    (hlimit : priority = .high → x.state.LimitsNeighbor peer) :
    (addActive random x peer data priority reply).1.state.Contained := by
  have hins : (insertPeerInfo x ⟨peer, data⟩).state.KnownBut fun q => q = peer :=
    knownBut_insertPeerInfo hknow
  have hout : (insertPeerInfo x ⟨peer, data⟩).state.outside = x.state.outside := by
    rw [insertPeerInfo_state]
    rfl
  have hval := (calm_insertPeerInfo random x ⟨peer, data⟩).moves.valid hx
  have hmem : peer ∈ x.state.activeView.items →
      (insertPeerInfo x ⟨peer, data⟩).state.KnownBut fun _ => False := by
    refine fun hactiv => hins.imp fun p hp _ => ?_
    subst hp
    rw [insertPeerInfo_state]
    exact .inl (.inl hactiv)
  have hmov := moves_addActive random hx peer data priority reply
  suffices hadd : _ ∧ _ from ⟨hmov.valid hx, hadd.1, hmov.config ▸ hadd.2⟩
  refine addActive_ind random (P := fun y => y.state.KnownBut (fun _ => False) ∧
    y.state.outside.card ≤ x.state.config.activeViewCapacity) (fun h => ⟨hme h, hlim⟩)
    (fun h => ⟨hmem h, hout ▸ hlim⟩) (fun hactiv => ⟨?_, ?_⟩) (fun _ _ => ⟨?_, ?_⟩)
    (fun hmak hhigh => ⟨?_, ?_⟩) fun hmak hlow => ⟨?_, hout ▸ hlim⟩
  · exact knownBut_sendNeighbor (hmem hactiv) peer priority
  · refine (card_le_card fun q hq => ?_).trans hlim
    rw [sendNeighbor_state, insertPeerInfo_state] at hq
    obtain ⟨hmem, hnot⟩ := mem_outside.mp hq
    have hqp : q ≠ peer := fun heq => hnot (heq ▸ hactiv)
    exact mem_outside.mpr ⟨mem_of_mem_insert_of_ne hmem hqp, hnot⟩
  · exact known_addActiveUnchecked hins
  · refine (card_le_card fun q hq => ?_).trans hlim
    rw [← hout]
    exact mem_of_mem_erase (outside_addActiveUnchecked hq)
  · subst hhigh
    exact known_addActiveUnchecked (knownBut_freeRandomSlotInActiveView random hval hins
      (spares_insertPeerInfo (hspar hmak)))
  · have hfree := outside_freeRandomSlotInActiveView random (insertPeerInfo x ⟨peer, data⟩)
    rw [hout] at hfree
    rcases hfree with hfree | ⟨p, hp, hpen, hfree⟩
    · refine (card_le_card fun q hq => ?_).trans hlim
      exact hfree (mem_of_mem_erase (outside_addActiveUnchecked hq))
    · rw [insertPeerInfo_state] at hp hpen
      have hroom := hlimit hhigh hmak ⟨p, hp, hpen⟩
      refine (card_le_card fun q hq => ?_).trans ((card_insert_le p _).trans hroom)
      obtain ⟨hne, hmem⟩ := mem_erase.mp (outside_addActiveUnchecked hq)
      rcases mem_insert.mp (hfree hmem) with hqp | hold
      · exact mem_insert.mpr (.inl hqp)
      · exact mem_insert_of_mem (mem_erase.mpr ⟨hne, hold⟩)
  · subst hlow
    refine hins.imp fun p hp hstor => ?_
    subst hp
    rcases hspar hmak with hpas | ⟨hnone, hget⟩
    · refine .inl (.inr (.inl ?_))
      rw [insertPeerInfo_state]
      exact hpas
    · rcases get_insertPeerInfo hstor with hold | hnew
      · exact absurd hget hold
      · exact absurd hnone hnew.2

lemma contained_onJoin (hx : x.state.Contained) (hspar : x.state.SparesNeighbor peer data .high)
    (hlimit : x.state.LimitsNeighbor peer) : (onJoin random x peer data).state.Contained := by
  have hadd : (addActive random x peer data .high true).1.state.Contained :=
    contained_addActive random hx.valid (hx.known.imp fun _ hfal => hfal.elim) hx.limited
      (fun _ => hx.known) hspar fun _ => hlimit
  unfold onJoin
  refine Keeps.contained (Keeps.foldl ?_ _ _) hadd
  intro y node
  exact ⟨rfl, rfl, rfl, rfl, rfl, rfl⟩

variable {sender : PI}

section
variable (hx : x.state.Contained)
include hx

lemma contained_onNeighbor {details : Neighbor}
    (hme : sender = x.state.me → x.state.peerData.get x.state.me = none)
    (hspar : x.state.SparesNeighbor sender details.data details.priority)
    (hlimit : details.priority = .high → x.state.LimitsNeighbor sender) :
    (onNeighbor random x sender details).state.Contained := by
  obtain ⟨priority, data⟩ := details
  have hspar' : (x.state.settled sender).SparesNeighbor sender data priority := by
    cases priority with
    | high => exact fun hmak => (hspar hmak).settled
    | low => exact hspar
  have hlimit' : priority = .high → (x.state.settled sender).LimitsNeighbor sender := by
    intro hhigh hmak hpen
    obtain ⟨p, hp, hpen⟩ := hpen
    rw [outside_settled, erase_idem]
    exact hlimit hhigh hmak ⟨p, hp, mem_of_mem_erase hpen⟩
  have hlim : (x.state.settled sender).outside.card ≤ x.state.config.activeViewCapacity := by
    rw [outside_settled]
    exact card_erase_le.trans hx.limited
  have heras : Moves random x (x.modify fun s => s.settled sender) :=
    (calm_eraseRequest random x sender).moves
  have hadd : (addActive random (x.modify fun s => s.settled sender) sender data priority
      (!decide (sender ∈ x.state.pendingNeighborRequests))).1.state.Contained := by
    refine contained_addActive random (heras.valid hx.valid) (hx.knownBut_settled sender) hlim ?_
      hspar' hlimit'
    intro heq
    exact (hx.settled (.inr (.inr (heq ▸ hme heq)))).known
  unfold onNeighbor
  simp only
  split
  · rename_i z hz
    exact Eq.subst (motive := fun r => r.1.state.Contained) hz hadd
  · rename_i z hz
    exact (keeps_sendDisconnect random z sender true).contained
      (Eq.subst (motive := fun r => r.1.state.Contained) hz hadd)

lemma contained_removeActive {reason : RemovalReason} (hmem : peer ∈ x.state.activeView.items)
    (hspar : x.state.SparesRemoved peer (keepsAsPassive x.state peer reason)) :
    (removeActive random (x.modify fun s => s.settled peer) peer reason).state.Contained := by
  have hset := hx.settled (.inl hmem)
  have hactiv : peer ∈ (x.modify fun s => s.settled peer).state.activeView.items := hmem
  have hpeer := List.getElem?_idxOf hactiv
  have hrem : Removes random peer _ (removeActiveByIndex random _ _ reason).1 :=
    removes_removeActiveByIndex random hpeer
  have hmov := hrem.moves
  unfold removeActive
  rw [if_pos hactiv]
  refine contained_refillActiveFromPassive random ⟨hmov.valid hset.valid, ?_, ?_⟩ _
  · unfold State.SparesRemoved at hspar
    refine knownBut_removeActiveByIndex random hset.valid hpeer hset.known ?_ ?_
    · intro hkeep hfull q hq _
      have hkeep' : keepsAsPassive x.state peer reason = true := by
        cases reason <;> exact hkeep
      rw [hkeep'] at hspar
      have hne : q ≠ peer := fun heq => hx.valid.disjoint peer hmem (heq ▸ hq)
      exact hspar.settled hfull q hq hne
    · intro hdrop
      have hdrop' : keepsAsPassive x.state peer reason = false := by
        cases reason <;> exact hdrop
      rw [hdrop'] at hspar
      exact .inr hspar
  · rw [hmov.config]
    refine (card_le_card fun q hq => ?_).trans hset.limited
    rcases outside_removeActiveByIndex random hpeer hq with hold | ⟨_, hleft⟩
    · exact hold
    · exact absurd hleft (notMem_erase _ _)

lemma contained_onDisconnect {details : Disconnect}
    (hspar : x.state.SparesMessage peer (.disconnect details)) :
    (onDisconnect random x peer details).state.Contained := by
  unfold onDisconnect
  simp only
  split
  · rename_i hmem
    exact contained_removeActive random hx hmem (hspar.1 hmem)
  · rename_i hmem
    have hset := hx.settled (.inr (hspar.2 hmem))
    split
    · refine Keeps.contained (x := x.modify fun s => s.settled peer) ?_ hset
      exact ⟨rfl, rfl, rfl, rfl, rfl, rfl⟩
    · exact hset

lemma contained_handleConnectionClosed (hspar : x.state.SparesEvent (.peerDisconnected peer)) :
    (handleConnectionClosed random x peer).state.Contained := by
  unfold handleConnectionClosed
  simp only
  split
  · rename_i hmem
    exact contained_removeActive random hx hmem (hspar.1 hmem)
  · rename_i hmem
    split
    · rename_i haliv
      have hset := hx.settled (.inr (hspar.2 hmem haliv))
      refine Keeps.contained (x := x.modify fun s => s.settled peer) ?_ hset
      exact ⟨rfl, rfl, rfl, rfl, rfl, rfl⟩
    · refine hx.discarded random fun q hq => ?_
      have hne : q ≠ peer := by
        rintro rfl
        exact hq Table.get_remove_self
      rw [Table.get_remove_of_ne hne] at hq
      exact ⟨hq, fun heq => absurd heq hne⟩

lemma contained_handlePendingNeighborTimer
    (hspar : x.state.SparesEvent (.timerExpired (.pendingNeighborRequest peer))) :
    (handlePendingNeighborTimer random x peer).state.Contained := by
  unfold handlePendingNeighborTimer
  split
  · rename_i hpen
    refine contained_refillActiveFromPassive random (hx.discarded random fun q hq => ⟨hq, ?_⟩) _
    rintro rfl
    exact (hspar hpen).resolve_right hq
  · exact hx

include random in
lemma contained_request {info : PeerInfo PI}
    (hlimit : info.id ∉ x.state.activeView.items → info.id ∉ x.state.pendingNeighborRequests →
      x.state.outside.card < x.state.config.activeViewCapacity) :
    (sendNeighbor (insertPeerInfo x info) info.id .high).state.Contained := by
  have hmov : Moves random x (sendNeighbor (insertPeerInfo x info) info.id .high) :=
    ((calm_insertPeerInfo random x _).trans (calm_sendNeighbor random _ _ _)).moves
  have hins : (insertPeerInfo x info).state.KnownBut fun q => q = info.id :=
    knownBut_insertPeerInfo (hx.known.imp fun _ hfal => hfal.elim)
  have hmem : ∀ q ∈ (sendNeighbor (insertPeerInfo x info) info.id .high).state.outside,
      q ∈ insert info.id x.state.pendingNeighborRequests ∧ q ∉ x.state.activeView.items := by
    intro q hq
    rw [sendNeighbor_state, insertPeerInfo_state] at hq
    exact mem_outside.mp hq
  refine ⟨hmov.valid hx.valid,
    (knownBut_sendNeighbor hins info.id .high).imp fun q hq _ => ?_, ?_⟩
  · rw [sendNeighbor_state]
    exact .inl (.inr (.inr (mem_insert.mpr (.inl hq))))
  rw [hmov.config]
  by_cases hnew : info.id ∉ x.state.activeView.items ∧ info.id ∉ x.state.pendingNeighborRequests
  · have hsub : (sendNeighbor (insertPeerInfo x info) info.id .high).state.outside ⊆
        insert info.id x.state.outside := by
      intro q hq
      obtain ⟨hpen, hactiv⟩ := hmem q hq
      rcases mem_insert.mp hpen with heq | hold
      · exact mem_insert.mpr (.inl heq)
      · exact mem_insert_of_mem (mem_outside.mpr ⟨hold, hactiv⟩)
    exact (card_le_card hsub).trans
      ((card_insert_le _ _).trans (hlimit hnew.1 hnew.2))
  · refine (card_le_card fun q hq => ?_).trans hx.limited
    obtain ⟨hpen, hactiv⟩ := hmem q hq
    refine mem_outside.mpr ⟨?_, hactiv⟩
    rcases mem_insert.mp hpen with rfl | hold
    · exact by_contra fun hpen => hnew ⟨hactiv, hpen⟩
    · exact hold

lemma contained_onForwardJoin {message : ForwardJoin PI}
    (hspar : x.state.SparesMessage sender (.forwardJoin message))
    (hlimit : x.state.LimitsRequests (.recvMessage sender (.forwardJoin message))) :
    (onForwardJoin random x sender message).state.Contained := by
  have hreq : (message.peer.id ∉ x.state.activeView.items →
      message.ttl.expired = true ∨ x.state.activeView.len ≤ 1) →
      (sendNeighbor (insertPeerInfo x message.peer) message.peer.id .high).state.Contained :=
    fun hlast => contained_request random hx fun hactiv => hlimit hactiv (hlast hactiv)
  unfold onForwardJoin
  simp only
  split
  · rename_i hactiv
    exact hreq fun hnot => absurd hactiv hnot
  · rename_i hactiv
    split
    · rename_i hlast
      exact hreq fun _ => hlast
    · rename_i hlast
      have hpas : (if message.ttl = x.state.config.passiveRandomWalkLength then
          addPassive random x message.peer.id message.peer.data else x).state.Contained := by
        split
        · rename_i hleng
          have henr := (Enrolled.refl hx.valid hx.known).step random
            (hspar hactiv hlast hleng)
          exact henr.contained hx
        · exact hx
      generalize (if message.ttl = x.state.config.passiveRandomWalkLength then
        addPassive random x message.peer.id message.peer.data else x) = y at hpas ⊢
      split
      · exact hpas
      · split
        · exact hpas
        · refine Keeps.contained (x := y) ?_ hpas
          exact ⟨rfl, rfl, rfl, rfl, rfl, rfl⟩

lemma contained_onShuffle {shuffle : Shuffle PI}
    (hspar : x.state.SparesMessage sender (.shuffle shuffle)) :
    (onShuffle random x sender shuffle).state.Contained := by
  unfold onShuffle
  simp only
  split
  · rename_i hlast
    have henr := (Enrolled.refl hx.valid hx.known).foldl random (hspar hlast)
    exact (keeps_sendShuffleReply random _ _ _).contained (henr.contained hx)
  · split
    · refine Keeps.contained (x := x) ?_ hx
      exact ⟨rfl, rfl, rfl, rfl, rfl, rfl⟩
    · refine Keeps.contained (x := x) ?_ hx
      exact ⟨rfl, rfl, rfl, rfl, rfl, rfl⟩

lemma contained_onShuffleReply {message : ShuffleReply PI}
    (hspar : x.state.SparesNodes [] (message.nodes.take maxShufflePeers)) :
    (onShuffleReply random x message).state.Contained := by
  have henr := (Enrolled.refl hx.valid hx.known).foldl random hspar
  exact contained_refillActiveFromPassive random (henr.contained hx) _

end

lemma keeps_handleShuffleTimer (x : Node PI R) : Keeps x (handleShuffleTimer random x) := by
  unfold handleShuffleTimer
  simp only
  split
  · exact ⟨rfl, rfl, rfl, rfl, rfl, rfl⟩
  · exact ⟨rfl, rfl, rfl, rfl, rfl, rfl⟩

lemma contained_handleQuit (hx : x.state.Contained) (hspar : x.state.SparesEvent .quit)
    (hlimit : x.state.LimitsRequests .quit) : (handleQuit random x).state.Contained := by
  have hshr : Keeps { x with state := { x.state with
        activeView := (handleQuit random x).state.activeView } } (handleQuit random x) ∧
      (∀ q ∈ (handleQuit random x).state.activeView.items, q ∈ x.state.activeView.items) ∧
      (handleQuit random x).state.activeView.len ≤ x.state.activeView.len := by
    unfold handleQuit
    refine List.foldlRecOn (motive := fun y => Keeps { x with state := { x.state with
        activeView := y.state.activeView } } y ∧
      (∀ q ∈ y.state.activeView.items, q ∈ x.state.activeView.items) ∧
      y.state.activeView.len ≤ x.state.activeView.len) _ _ ?_ ?_
    · exact ⟨⟨rfl, rfl, rfl, rfl, rfl, rfl⟩, fun _ hq => hq, Nat.le_refl _⟩
    · intro y hy peer _
      obtain ⟨hkeeps, hsub, hlen⟩ := hy
      refine ⟨⟨hkeeps.me, hkeeps.config, rfl, hkeeps.passive, hkeeps.pending, hkeeps.data⟩,
        fun q hq => hsub q (IndexSet.mem_remove.mp hq).1, ?_⟩
      exact IndexSet.len_removeIndex_le.trans hlen
  obtain ⟨hkeeps, hsub, hlen⟩ := hshr
  refine hkeeps.contained ⟨?_, ?_, ?_⟩
  · have hv := hx.valid
    exact ⟨hv.activeCapacity, hv.passiveCapacity, fun hmem => hv.me_active (hsub _ hmem),
      hv.me_passive, fun p hp => hv.disjoint p (hsub p hp), hlen.trans hv.active_len,
      hv.passive_len⟩
  · intro q hq
    rcases hx.known q hq with (hmem | hmem | hmem) | hfal
    · exact .inl (.inr (.inr ((hspar q hmem).resolve_right hq)))
    · exact .inl (.inr (.inl hmem))
    · exact .inl (.inr (.inr hmem))
    · exact hfal.elim
  · exact (card_le_card (filter_subset _ _)).trans hlimit

lemma contained_handleMessage {message : Message PI} (hx : x.state.Contained)
    (h : x.state.Thrifty (.recvMessage sender message)) :
    (handleMessage random x sender message).state.Contained := by
  obtain ⟨hspar, hlimit⟩ := h
  have hmes : (onMessage random x sender message).state.Contained := by
    cases message with
    | join data => exact contained_onJoin random hx hspar hlimit
    | forwardJoin details => exact contained_onForwardJoin random hx hspar hlimit
    | shuffle details => exact contained_onShuffle random hx hspar
    | shuffleReply details => exact contained_onShuffleReply random hx hspar
    | neighbor details =>
      obtain ⟨priority, data⟩ := details
      refine contained_onNeighbor random hx hspar.1 hspar.2 fun hhigh => ?_
      cases hhigh
      exact hlimit
    | disconnect details => exact contained_onDisconnect random hx hspar
  unfold handleMessage
  simp only
  split
  · exact hmes
  · exact hmes

end Node

lemma contained_handle {event : InEvent PI} (hx : x.state.Contained)
    (h : x.state.Thrifty event) : (handle random x event).state.Contained := by
  have hsch : ∀ {y : Node PI R}, y.state.Contained → (if y.state.shuffleScheduled then y
      else (y.push (.scheduleTimer y.state.config.shuffleInterval .doShuffle)).modify fun s =>
        { s with shuffleScheduled := true }).state.Contained := by
    intro y hy
    split
    · exact hy
    · refine Keeps.contained (x := y) ?_ hy
      exact ⟨rfl, rfl, rfl, rfl, rfl, rfl⟩
  refine hsch ?_
  cases event with
  | recvMessage sender message => exact contained_handleMessage random hx h
  | timerExpired timer =>
    cases timer with
    | doShuffle => exact (keeps_handleShuffleTimer random x).contained hx
    | pendingNeighborRequest peer => exact contained_handlePendingNeighborTimer random hx h.1
  | peerDisconnected peer => exact contained_handleConnectionClosed random hx h.1
  | requestJoin peer => exact hx
  | updatePeerData data =>
    refine Keeps.contained (x := x) ?_ hx
    exact ⟨rfl, rfl, rfl, rfl, rfl, rfl⟩
  | quit => exact contained_handleQuit random hx h.1 h.2

/-- Each row is about a peer of one of the views, or of a request outside of the active view. -/
lemma State.Contained.bounded (h : s.Contained) : s.Bounded := by
  have hknow : ∀ row ∈ s.peerData.rows, s.Knows row.1 := by
    intro row hrow
    have hget : s.peerData.get row.1 = some row.2 := Table.get_eq_some.mpr hrow
    refine (h.known row.1 ?_).resolve_right id
    rw [hget]
    exact Option.some_ne_none _
  refine ⟨hknow, ?_⟩
  calc s.peerData.rows.length
      _ = (s.peerData.rows.map Prod.fst).toFinset.card := by
        rw [List.toFinset_card_of_nodup s.peerData.keys_nodup, List.length_map]
      _ ≤ (s.activeView.items.toFinset ∪ (s.passiveView.items.toFinset ∪ s.outside)).card := by
        refine card_le_card fun q hq => ?_
        obtain ⟨row, hrow, rfl⟩ := List.mem_map.mp (List.mem_toFinset.mp hq)
        rw [mem_union, mem_union, List.mem_toFinset, List.mem_toFinset, mem_outside]
        rcases hknow row hrow with hactiv | hpas | hpen
        · exact .inl hactiv
        · exact .inr (.inl hpas)
        · by_cases hactiv : row.1 ∈ s.activeView.items
          · exact .inl hactiv
          · exact .inr (.inr ⟨hpen, hactiv⟩)
      _ ≤ s.activeView.len + (s.passiveView.len + s.outside.card) := by
        refine (card_union_le _ _).trans (Nat.add_le_add (List.toFinset_card_le _) ?_)
        exact (card_union_le _ _).trans (Nat.add_le_add_right (List.toFinset_card_le _) _)
      _ ≤ 2 * s.config.activeViewCapacity + s.config.passiveViewCapacity := by
        have hactiv := h.valid.active_len
        have hpas := h.valid.passive_len
        have hlim := h.limited
        omega

end

/-! ## Runs -/

def State.step (random : Random R) (s : State PI R) (event : InEvent PI) : State PI R :=
  (handle random ⟨s, []⟩ event).state

lemma State.contained_new (me : PI) (meData : Option PeerData) (config : Topic.ValidConfig)
    (rng : R) : (new me meData config.val.membership rng).Contained :=
  ⟨valid_new me meData config rng, fun _ hp => absurd rfl hp, Nat.zero_le _⟩

/-- In every run of events that leave no data and no requests behind, data is stored
only for peers of the views and of the requests, and there is a bound on its size. -/
theorem peerData_bounded (random : Random R) (me : PI) (meData : Option PeerData)
    (config : Topic.ValidConfig) (rng : R) (events : List (InEvent PI))
    (h : Along (step random) State.Thrifty (new me meData config.val.membership rng) events) :
    Throughout (step random) State.Bounded (new me meData config.val.membership rng) events := by
  have hrun := throughout_of_along (P := State.Contained)
    (fun s event hs hc => contained_handle (x := ⟨s, []⟩) random hs hc)
    (contained_new me meData config rng) h
  exact hrun.imp fun s hs => hs.bounded

/-- A peer with data joins, names two more, and goes to the passive view. -/
theorem peerData_bounded_shuffle : Along (step .first) State.Thrifty (new 0 none Config.default ())
      [.recvMessage 1 (.join (some [7])),
        .recvMessage 1 (.shuffle ⟨1, [⟨2, some [8]⟩, ⟨3, some [9]⟩], ⟨0⟩⟩),
        .recvMessage 1 (.disconnect ⟨true, false⟩), .peerDisconnected 1] ∧
    Throughout (step .first) State.Bounded (new 0 none Config.default ())
      [.recvMessage 1 (.join (some [7])),
        .recvMessage 1 (.shuffle ⟨1, [⟨2, some [8]⟩, ⟨3, some [9]⟩], ⟨0⟩⟩),
        .recvMessage 1 (.disconnect ⟨true, false⟩), .peerDisconnected 1] := by
  refine ⟨?thrifty, peerData_bounded .first 0 none .default () _ ?thrifty⟩
  decide +kernel

/-- The data of a peer stays when its connection closes, and peers that were named to the local one
are all asked to be neighbors. -/
theorem peerData_left_behind :
    ¬ Throughout (step .first) State.Bounded (new 0 none Config.default ())
      [.recvMessage 1 (.join (some [7])), .peerDisconnected 1] ∧
    ¬ Throughout (step .first) State.Bounded (new 0 none Config.default ())
      ((List.range 41).map fun i => .recvMessage 1 (.forwardJoin ⟨⟨i + 2, some [7]⟩, ⟨0⟩⟩)) := by
  constructor
  · intro h
    have hlast := h.last.known (1, [7]) (by decide +kernel)
    revert hlast
    unfold State.Knows
    decide +kernel
  · intro h
    have hlast := h.last.len
    revert hlast
    decide +kernel

end Krikos.Gossip.HyParView
