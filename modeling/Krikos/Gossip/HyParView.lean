import Krikos.Gossip.Util

/-!
# Gossip.HyParView

The membership protocol of one topic (`proto/hyparview.rs`).

Only a `Join` or `Neighbor` message adds a peer to the active view, and only its sender. After every
event, the peers whose connections were to be closed are not in the active view (`admits_handle`).
-/

namespace Krikos.Gossip.HyParView

open Lib IndexSet List Relation

/-! ## Messages and events -/

/-- The time-to-live of a message. -/
structure Ttl where
  hops : U16
  deriving DecidableEq

namespace Ttl

def expired (ttl : Ttl) : Bool := ttl = ⟨0⟩

def next (ttl : Ttl) : Ttl := if ttl.hops = 0 then ttl else ⟨ttl.hops - 1⟩

end Ttl

structure ForwardJoin (PI : Type) where
  peer : PeerInfo PI
  ttl : Ttl
  deriving DecidableEq

structure Shuffle (PI : Type) where
  origin : PI
  nodes : List (PeerInfo PI)
  ttl : Ttl
  deriving DecidableEq

structure ShuffleReply (PI : Type) where
  nodes : List (PeerInfo PI)
  deriving DecidableEq

inductive Priority where
  /-- High priority join that may not be denied. -/
  | high
  /-- Low priority join that can be denied. -/
  | low
  deriving DecidableEq

structure Neighbor where
  priority : Priority
  data : Option PeerData
  deriving DecidableEq

structure Disconnect where
  /-- Whether the peer only closes the connection, and does not shut down. -/
  alive : Bool
  respond : Bool
  deriving DecidableEq

inductive Message (PI : Type) where
  | join (data : Option PeerData)
  | forwardJoin (details : ForwardJoin PI)
  | shuffle (details : Shuffle PI)
  | shuffleReply (details : ShuffleReply PI)
  | neighbor (details : Neighbor)
  | disconnect (details : Disconnect)
  deriving DecidableEq

def Message.isDisconnect {PI : Type} : Message PI → Bool
  | .disconnect _ => true
  | _ => false

inductive Timer (PI : Type) where
  | doShuffle
  | pendingNeighborRequest (peer : PI)
  deriving DecidableEq

inductive InEvent (PI : Type) where
  | recvMessage (sender : PI) (message : Message PI)
  | timerExpired (timer : Timer PI)
  | peerDisconnected (peer : PI)
  | requestJoin (peer : PI)
  | updatePeerData (data : PeerData)
  | quit

inductive Event (PI : Type) where
  | neighborUp (peer : PI)
  | neighborDown (peer : PI)

inductive OutEvent (PI : Type) where
  | sendMessage (receiver : PI) (message : Message PI)
  | scheduleTimer (delay : Duration) (timer : Timer PI)
  | disconnectPeer (peer : PI)
  | emitEvent (event : Event PI)
  | peerData (peer : PI) (data : PeerData)

def OutEvent.closes {PI : Type} : OutEvent PI → Option PI
  | .disconnectPeer peer => some peer
  | _ => none

inductive RemovalReason where
  | connectionClosed
  | disconnectReceived (isAlive : Bool)
  | random
  deriving DecidableEq

/-! ## State -/

structure Config where
  activeViewCapacity : Nat
  passiveViewCapacity : Nat
  activeRandomWalkLength : Ttl
  passiveRandomWalkLength : Ttl
  shuffleRandomWalkLength : Ttl
  shuffleActiveViewCount : Nat
  shufflePassiveViewCount : Nat
  shuffleInterval : Duration
  neighborRequestTimeout : Duration

def Config.default : Config where
  activeViewCapacity := 5
  passiveViewCapacity := 30
  activeRandomWalkLength := ⟨6⟩
  passiveRandomWalkLength := ⟨3⟩
  shuffleRandomWalkLength := ⟨6⟩
  shuffleActiveViewCount := 3
  shufflePassiveViewCount := 4
  shuffleInterval := 60000
  neighborRequestTimeout := 500

structure State (PI R : Type) [LinearOrder PI] where
  me : PI
  meData : Option PeerData
  activeView : IndexSet PI
  passiveView : IndexSet PI
  config : Config
  shuffleScheduled : Bool
  rng : R
  pendingNeighborRequests : Finset PI
  peerData : Table PI PeerData
  aliveDisconnectPeers : Finset PI

variable {PI R : Type} [LinearOrder PI]

def State.new (me : PI) (meData : Option PeerData) (config : Config) (rng : R) : State PI R where
  me := me
  meData := meData
  activeView := .empty
  passiveView := .empty
  config := config
  shuffleScheduled := false
  rng := rng
  pendingNeighborRequests := ∅
  peerData := .empty
  aliveDisconnectPeers := ∅

variable (s : State PI R)

def State.passiveIsFull : Bool :=
  s.passiveView.len ≥ s.config.passiveViewCapacity

def State.activeIsFull : Bool := s.activeView.len ≥ s.config.activeViewCapacity

/-- A random active peer is dropped for a peer that is new. -/
def State.makesRoomFor (peer : PI) : Bool :=
  !decide (peer = s.me) && !s.activeView.contains peer && s.activeIsFull

def State.peerInfo (id : PI) : PeerInfo PI := ⟨id, s.peerData.get id⟩

abbrev Node (PI R : Type) [LinearOrder PI] := Io (State PI R) (OutEvent PI)

namespace Node
variable (random : Random R) (x : Node PI R) (peer : PI)

def sendNeighbor (priority : Priority) : Node PI R :=
  if peer ∈ x.state.pendingNeighborRequests then x
  else
    (x.modify fun s => { s with
      pendingNeighborRequests := insert peer s.pendingNeighborRequests }).push
        (.sendMessage peer (.neighbor ⟨priority, x.state.meData⟩))

def insertPeerInfo (info : PeerInfo PI) : Node PI R :=
  match info.data with
  | none => x
  | some data =>
    let same := decide (x.state.peerData.get info.id = some data)
    let y := if !same && !data.isEmpty then x.push (.peerData info.id data) else x
    y.modify fun s => { s with peerData := s.peerData.insert info.id data }

/-- Replies with passive nodes, filled up with active ones. -/
def sendShuffleReply (receiver : PI) (len : Nat) : Node PI R :=
  let (nodes, rng) := shuffledAndCapped random x.state.passiveView len x.state.rng
  let (nodes, rng) :=
    if nodes.length < len then
      let (more, rng) :=
        shuffledAndCapped random x.state.activeView (len - nodes.length) rng
      (nodes ++ more, rng)
    else (nodes, rng)
  (x.modify fun s => { s with rng := rng }).push
    (.sendMessage receiver (.shuffleReply ⟨nodes.map x.state.peerInfo⟩))

def sendDisconnect (alive : Bool) : Node PI R :=
  let config := x.state.config
  let y := sendShuffleReply random x peer
    (config.shuffleActiveViewCount + config.shufflePassiveViewCount)
  (y.push (.sendMessage peer (.disconnect ⟨alive, false⟩))).push (.disconnectPeer peer)

variable (data : Option PeerData)

def addPassive : Node PI R :=
  let y := insertPeerInfo x ⟨peer, data⟩
  let s := y.state
  if peer ∈ s.activeView.items ∨ peer ∈ s.passiveView.items ∨ peer = s.me then y
  else
    let (passiveView, rng) :=
      if s.passiveIsFull then removeRandom random s.passiveView s.rng
      else (s.passiveView, s.rng)
    y.modify fun s => { s with passiveView := passiveView.insert peer, rng := rng }

def refillActiveFromPassive (skipPeers : List PI) : Node PI R :=
  let s := x.state
  if s.activeView.len + s.pendingNeighborRequests.card ≥ s.config.activeViewCapacity then x
  else
    let candidates := s.passiveView.items.filter fun peer =>
      peer ∉ skipPeers ∧ peer ∉ s.pendingNeighborRequests
    let (node, rng) := random.choose s.rng candidates
    let y := x.modify fun s => { s with rng := rng }
    match node with
    | none => y
    | some node =>
      let priority := if s.activeView.items.isEmpty then Priority.high else Priority.low
      (sendNeighbor y node priority).push
        (.scheduleTimer s.config.neighborRequestTimeout (.pendingNeighborRequest node))

def removeActiveByIndex (index : Nat) (reason : RemovalReason) : Node PI R × Option PI :=
  match x.state.activeView.items[index]? with
  | none => (x, none)
  | some peer =>
    let y := (x.modify fun s => { s with activeView := s.activeView.removeIndex index }).push
      (.emitEvent (.neighborDown peer))
    let y := match reason with
      | .random => sendDisconnect random y peer true
      | .disconnectReceived _ => y.push (.disconnectPeer peer)
      | .connectionClosed => y.push (.disconnectPeer peer)
    let keepAsPassive := match reason with
      | .connectionClosed => decide (peer ∈ y.state.aliveDisconnectPeers)
      | .disconnectReceived isAlive => isAlive
      | .random => true
    let y := if reason = .connectionClosed then
        y.modify fun s => { s with aliveDisconnectPeers := s.aliveDisconnectPeers.erase peer }
      else y
    if keepAsPassive then
      let data := y.state.peerData.get peer
      let y := y.modify fun s => { s with peerData := s.peerData.remove peer }
      let y := addPassive random y peer data
      -- so that it stays in the passive view when the connection closes
      let y := if reason = .connectionClosed then y
        else y.modify fun s => { s with aliveDisconnectPeers := insert peer s.aliveDisconnectPeers }
      (y, some peer)
    else (y, some peer)

def removeActive (reason : RemovalReason) : Node PI R :=
  if peer ∈ x.state.activeView.items then
    let y := (removeActiveByIndex random x (x.state.activeView.items.idxOf peer) reason).1
    refillActiveFromPassive random y [peer]
  else x

def freeRandomSlotInActiveView : Node PI R :=
  match pickRandomIndex random x.state.activeView x.state.rng with
  | (none, rng) => x.modify fun s => { s with rng := rng }
  | (some index, rng) =>
    (removeActiveByIndex random (x.modify fun s => { s with rng := rng }) index .random).1

def addActiveUnchecked (priority : Priority) (reply : Bool) : Node PI R :=
  let y := x.modify fun s => { s with passiveView := s.passiveView.remove peer }
  if peer ∈ y.state.activeView.items then y
  else
    let y := (y.modify fun s => { s with activeView := s.activeView.insert peer }).push
      (.emitEvent (.neighborUp peer))
    if reply then sendNeighbor y peer priority else y

def addActive (priority : Priority) (reply : Bool) : Node PI R × Bool :=
  if peer = x.state.me then (x, false)
  else
    let y := insertPeerInfo x ⟨peer, data⟩
    if peer ∈ y.state.activeView.items then
      (if reply then sendNeighbor y peer priority else y, true)
    else
      match priority, y.state.activeIsFull with
      | .high, isFull =>
        let y := if isFull then freeRandomSlotInActiveView random y else y
        (addActiveUnchecked y peer .high reply, true)
      | .low, false => (addActiveUnchecked y peer .low reply, true)
      | .low, true => (y, false)

/-! ## Handling events -/

def handleJoin : Node PI R :=
  x.push (.sendMessage peer (.join x.state.meData))

def onDisconnect (details : Disconnect) : Node PI R :=
  let y := x.modify fun s => { s with
    pendingNeighborRequests := s.pendingNeighborRequests.erase peer }
  if peer ∈ y.state.activeView.items then
    removeActive random y peer (.disconnectReceived details.alive)
  else if details.alive ∧ peer ∈ y.state.passiveView.items then
    y.modify fun s => { s with aliveDisconnectPeers := insert peer s.aliveDisconnectPeers }
  else y

def handleConnectionClosed : Node PI R :=
  let y := x.modify fun s => { s with
    pendingNeighborRequests := s.pendingNeighborRequests.erase peer }
  if peer ∈ y.state.activeView.items then removeActive random y peer .connectionClosed
  else if peer ∈ y.state.aliveDisconnectPeers then
    y.modify fun s => { s with aliveDisconnectPeers := s.aliveDisconnectPeers.erase peer }
  else
    y.modify fun s => { s with
      passiveView := s.passiveView.remove peer
      peerData := s.peerData.remove peer }

def handleQuit : Node PI R :=
  x.state.activeView.items.foldl (fun y peer =>
    sendDisconnect random (y.modify fun s => { s with activeView := s.activeView.remove peer })
      peer false) x

def onJoin : Node PI R :=
  let y := (addActive random x peer data .high true).1
  let message := Message.forwardJoin ⟨⟨peer, data⟩, y.state.config.activeRandomWalkLength⟩
  (y.state.activeView.iterWithout peer).foldl (fun y node => y.push (.sendMessage node message)) y

variable (sender : PI)

def onForwardJoin (message : ForwardJoin PI) : Node PI R :=
  let peer := message.peer.id
  -- renew the neighbor relationship
  if peer ∈ x.state.activeView.items then
    sendNeighbor (insertPeerInfo x message.peer) peer .high
  -- the peer is added to the active view once it replies
  else if message.ttl.expired ∨ x.state.activeView.len ≤ 1 then
    sendNeighbor (insertPeerInfo x message.peer) peer .high
  else
    let y := if message.ttl = x.state.config.passiveRandomWalkLength then
        addPassive random x peer message.peer.data
      else x
    if peer ∈ y.state.activeView.items ∨ peer ∈ y.state.pendingNeighborRequests then y
    else
      match pickRandomWithout random y.state.activeView [sender] y.state.rng with
      -- unreachable, since two peers are active and one is left out
      | (none, _) => y
      | (some next, rng) =>
        (y.modify fun s => { s with rng := rng }).push
          (.sendMessage next (.forwardJoin ⟨message.peer, message.ttl.next⟩))

def onNeighbor (details : Neighbor) : Node PI R :=
  let isReply := decide (sender ∈ x.state.pendingNeighborRequests)
  let y := x.modify fun s => { s with
    pendingNeighborRequests := s.pendingNeighborRequests.erase sender }
  match addActive random y sender details.data details.priority (!isReply) with
  | (y, true) => y
  | (y, false) => sendDisconnect random y sender true

def onShuffle (shuffle : Shuffle PI) : Node PI R :=
  let nodes := shuffle.nodes.take maxShufflePeers
  if shuffle.ttl.expired ∨ x.state.activeView.len ≤ 1 then
    let y := nodes.foldl (fun y node => addPassive random y node.id node.data) x
    sendShuffleReply random y shuffle.origin nodes.length
  else
    match pickRandomWithout random x.state.activeView [shuffle.origin, sender]
        x.state.rng with
    | (none, rng) => x.modify fun s => { s with rng := rng }
    | (some node, rng) =>
      (x.modify fun s => { s with rng := rng }).push
        (.sendMessage node (.shuffle ⟨shuffle.origin, nodes, shuffle.ttl.next⟩))

def onShuffleReply (message : ShuffleReply PI) : Node PI R :=
  let y := (message.nodes.take maxShufflePeers).foldl
    (fun y node => addPassive random y node.id node.data) x
  refillActiveFromPassive random y []

def handleShuffleTimer : Node PI R :=
  let s := x.state
  let (node, rng) := pickRandom random s.activeView s.rng
  let y := match node with
    | none => x.modify fun s => { s with rng := rng }
    | some node =>
      let (active, rng) := shuffledWithoutAndCapped random s.activeView [node]
        s.config.shuffleActiveViewCount rng
      let (passive, rng) := shuffledWithoutAndCapped random s.passiveView [node]
        s.config.shufflePassiveViewCount rng
      let nodes := (active ++ passive).map s.peerInfo ++ [(⟨s.me, s.meData⟩ : PeerInfo PI)]
      (x.modify fun s => { s with rng := rng }).push
        (.sendMessage node (.shuffle ⟨s.me, nodes, s.config.shuffleRandomWalkLength⟩))
  y.push (.scheduleTimer s.config.shuffleInterval .doShuffle)

def handlePendingNeighborTimer : Node PI R :=
  if peer ∈ x.state.pendingNeighborRequests then
    let y := x.modify fun s => { s with
      pendingNeighborRequests := s.pendingNeighborRequests.erase peer
      passiveView := s.passiveView.remove peer }
    refillActiveFromPassive random y []
  else x

def onMessage : Message PI → Node PI R
  | .join data => onJoin random x sender data
  | .forwardJoin details => onForwardJoin random x sender details
  | .shuffle details => onShuffle random x sender details
  | .shuffleReply details => onShuffleReply random x details
  | .neighbor details => onNeighbor random x sender details
  | .disconnect details => onDisconnect random x sender details

def handleMessage (message : Message PI) : Node PI R :=
  let y := onMessage random x sender message
  -- disconnect from passive nodes right after receiving a message
  if !message.isDisconnect && decide (sender ∉ y.state.activeView.items) then
    y.push (.disconnectPeer sender)
  else y

def handle (event : InEvent PI) : Node PI R :=
  let y := match event with
    | .recvMessage sender message => handleMessage random x sender message
    | .timerExpired .doShuffle => handleShuffleTimer random x
    | .timerExpired (.pendingNeighborRequest peer) => handlePendingNeighborTimer random x peer
    | .peerDisconnected peer => handleConnectionClosed random x peer
    | .requestJoin peer => handleJoin x peer
    | .updatePeerData data => x.modify fun s => { s with meData := some data }
    | .quit => handleQuit random x
  if y.state.shuffleScheduled then y
  else (y.push (.scheduleTimer y.state.config.shuffleInterval .doShuffle)).modify fun s =>
    { s with shuffleScheduled := true }

end Node

/-! ## Moves -/

/-- An event that is not about neighbors. -/
def OutEvent.isNeighborEvent : OutEvent PI → Bool
  | .emitEvent _ => true
  | _ => false

def State.freedPassive (random : Random R) (s : State PI R) : IndexSet PI :=
  if s.passiveIsFull then (removeRandom random s.passiveView s.rng).1 else s.passiveView

/-- What a handler can do to the views, one thing at a time. -/
inductive Move (random : Random R) : Node PI R → Node PI R → Prop
  | emit {x : Node PI R} {e : OutEvent PI} (h : e.isNeighborEvent = false) :
      Move random x (x.push e)
  | update {x : Node PI R} {f : State PI R → State PI R} (hme : (f x.state).me = x.state.me)
      (hconfig : (f x.state).config = x.state.config)
      (hactive : (f x.state).activeView = x.state.activeView)
      (hpassive : (f x.state).passiveView = x.state.passiveView) : Move random x (x.modify f)
  | enroll {x : Node PI R} {peer : PI} (hme : peer ≠ x.state.me)
      (hactive : peer ∉ x.state.activeView.items) :
      Move random x (x.modify fun s => { s with passiveView := (s.freedPassive random).insert peer })
  | discard {x : Node PI R} {peer : PI} :
      Move random x (x.modify fun s => { s with passiveView := s.passiveView.remove peer })
  | down {x : Node PI R} {i : Nat} {peer : PI} (h : x.state.activeView.items[i]? = some peer) :
      Move random x ((x.modify fun s => { s with activeView := s.activeView.removeIndex i }).push
        (.emitEvent (.neighborDown peer)))
  | up {x : Node PI R} {peer : PI} (hme : peer ≠ x.state.me)
      (hactive : peer ∉ x.state.activeView.items) (hpassive : peer ∉ x.state.passiveView.items)
      (hroom : x.state.activeView.len < x.state.config.activeViewCapacity) :
      Move random x ((x.modify fun s => { s with activeView := s.activeView.insert peer }).push
        (.emitEvent (.neighborUp peer)))

abbrev Moves (random : Random R) : Node PI R → Node PI R → Prop :=
  ReflTransGen (Move random)

/-! ## What happens to the active view -/

def Closed (x : Node PI R) (p : PI) : Prop := OutEvent.disconnectPeer p ∈ x.out

/-- The active view stays, and no connection is closed. -/
structure Quiet (x y : Node PI R) : Prop where
  me : y.state.me = x.state.me
  active : y.state.activeView = x.state.activeView
  closed : ∀ p, Closed y p ↔ Closed x p

/-- The active view stays, no connection is closed, and the passive view changes by moves. -/
structure Calm (random : Random R) (x y : Node PI R) : Prop where
  quiet : Quiet x y
  moves : Moves random x y

/-- The active view stays, and the connection to one peer is closed. -/
structure Closes (peer : PI) (x y : Node PI R) : Prop where
  me : y.state.me = x.state.me
  active : y.state.activeView = x.state.activeView
  closed : ∀ p, Closed y p ↔ Closed x p ∨ p = peer

/-- A peer is removed from the active view, and its connection is closed. -/
structure Drops (peer : PI) (x y : Node PI R) : Prop where
  me : y.state.me = x.state.me
  active : ∀ q, q ∈ y.state.activeView.items ↔ q ∈ x.state.activeView.items ∧ q ≠ peer
  closed : ∀ p, Closed y p ↔ Closed x p ∨ p = peer

/-- A connection is closed by moves. -/
structure Ends (random : Random R) (peer : PI) (x y : Node PI R) : Prop where
  closes : Closes peer x y
  moves : Moves random x y

/-- A peer is removed by moves. -/
structure Removes (random : Random R) (peer : PI) (x y : Node PI R) : Prop where
  drops : Drops peer x y
  moves : Moves random x y

/-- A peer is added to the active view, and no connection is closed. -/
structure Adds (peer : PI) (x y : Node PI R) : Prop where
  me : y.state.me = x.state.me
  active : ∀ q, q ∈ y.state.activeView.items ↔ q ∈ x.state.activeView.items ∨ q = peer
  closed : ∀ p, Closed y p ↔ Closed x p

/-- No active peer is new except for the sender, and no active peer has its connection closed. The
closed connections are those of peers that were active, and of the sender. -/
structure Admits (sender : Option PI) (x y : Node PI R) : Prop where
  me : y.state.me = x.state.me
  active : ∀ q ∈ y.state.activeView.items,
    q ∈ x.state.activeView.items ∨ sender = some q ∧ q ≠ x.state.me
  closed : ∀ p, Closed y p → p ∉ y.state.activeView.items
  source : ∀ p, Closed y p → p ∈ x.state.activeView.items ∨ sender = some p

def InEvent.sender : InEvent PI → Option PI
  | .recvMessage sender _ => some sender
  | _ => none

section
variable {random : Random R} {x y z : Node PI R} {peer p q : PI} {sender : Option PI}
  {e : OutEvent PI}

lemma State.freedPassive_eq (random : Random R) (s : State PI R) :
    (if s.passiveIsFull then removeRandom random s.passiveView s.rng
      else (s.passiveView, s.rng)).1 = s.freedPassive random := by
  unfold freedPassive
  split
  · rfl
  · rfl

lemma Quiet.trans (h : Quiet x y) (h' : Quiet y z) : Quiet x z :=
  ⟨h'.me.trans h.me, h'.active.trans h.active, fun p => (h'.closed p).trans (h.closed p)⟩

lemma quiet_push (h : e.closes = none) : Quiet x (x.push e) := by
  refine ⟨rfl, rfl, fun p => ?_⟩
  simp only [Closed, Io.push_out, mem_append, mem_singleton]
  refine or_iff_left fun heq => ?_
  rw [← heq] at h
  cases h

lemma Calm.refl (x : Node PI R) : Calm random x x := ⟨⟨rfl, rfl, fun _ => Iff.rfl⟩, .refl⟩

lemma Calm.trans (h : Calm random x y) (h' : Calm random y z) : Calm random x z :=
  ⟨h.quiet.trans h'.quiet, h.moves.trans h'.moves⟩

lemma moves_push (h : e.isNeighborEvent = false) : Moves random x (x.push e) := .single (.emit h)

lemma calm_push (h : e.isNeighborEvent = false) (hclos : e.closes = none) :
    Calm random x (x.push e) := ⟨quiet_push hclos, moves_push h⟩

lemma calm_modify {f : State PI R → State PI R} (hme : (f x.state).me = x.state.me)
    (hconfig : (f x.state).config = x.state.config)
    (hactive : (f x.state).activeView = x.state.activeView)
    (hpassive : (f x.state).passiveView = x.state.passiveView) : Calm random x (x.modify f) :=
  ⟨⟨hme, hactive, fun _ => Iff.rfl⟩, .single (.update hme hconfig hactive hpassive)⟩

lemma calm_discard : Calm random x
    (x.modify fun s => { s with passiveView := s.passiveView.remove peer }) :=
  ⟨⟨rfl, rfl, fun _ => Iff.rfl⟩, .single .discard⟩

lemma calm_foldl {α : Type} {f : Node PI R → α → Node PI R} (h : ∀ x a, Calm random x (f x a))
    (l : List α) (x : Node PI R) : Calm random x (l.foldl f x) :=
  foldlRecOn l f (.refl x) fun y hy a _ => hy.trans (h y a)

lemma Moves.append {s : State PI R} (h : Moves random ⟨s, []⟩ y) (out : List (OutEvent PI)) :
    Moves random ⟨s, out⟩ ⟨y.state, out ++ y.out⟩ := by
  induction h with
  | refl => rw [append_nil]
  | @tail x y _ hmove ih =>
    refine ih.tail ?_
    have hpush : ∀ (z : Node PI R) (e : OutEvent PI),
        (⟨(z.push e).state, out ++ (z.push e).out⟩ : Node PI R) =
          Io.push ⟨z.state, out ++ z.out⟩ e := by
      intro z e
      simp only [Io.push, append_assoc]
    cases hmove with
    | emit he =>
      rw [hpush]
      exact .emit he
    | update hme hconfig hactive hpassive => exact .update hme hconfig hactive hpassive
    | enroll hme hactive => exact .enroll hme hactive
    | discard => exact .discard
    | down hpeer =>
      rw [hpush]
      exact .down hpeer
    | up hme hactive hpassive hroom =>
      rw [hpush]
      exact .up hme hactive hpassive hroom

lemma Calm.append {s : State PI R} (h : Calm random ⟨s, []⟩ y) (out : List (OutEvent PI)) :
    Calm random ⟨s, out⟩ ⟨y.state, out ++ y.out⟩ := by
  refine ⟨⟨h.quiet.me, h.quiet.active, fun p => ?_⟩, h.moves.append out⟩
  have hclos : ¬ Closed y p := fun hp => not_mem_nil ((h.quiet.closed p).mp hp)
  simp only [Closed, mem_append] at hclos ⊢
  exact or_iff_left hclos

lemma ends_push : Ends random peer x (x.push (.disconnectPeer peer)) := by
  refine ⟨⟨rfl, rfl, fun p => ?_⟩, moves_push rfl⟩
  simp only [Closed, Io.push_out, mem_append, mem_singleton, OutEvent.disconnectPeer.injEq]

lemma Calm.ends (h : Calm random x y) (h' : Ends random peer y z) : Ends random peer x z :=
  ⟨⟨h'.closes.me.trans h.quiet.me, h'.closes.active.trans h.quiet.active,
    fun p => by rw [h'.closes.closed, h.quiet.closed]⟩, h.moves.trans h'.moves⟩

lemma Ends.calm (h : Ends random peer x y) (h' : Calm random y z) : Ends random peer x z :=
  ⟨⟨h'.quiet.me.trans h.closes.me, h'.quiet.active.trans h.closes.active,
    fun p => (h'.quiet.closed p).trans (h.closes.closed p)⟩, h.moves.trans h'.moves⟩

lemma Removes.calm (h : Removes random peer x y) (h' : Calm random y z) : Removes random peer x z :=
  ⟨⟨h'.quiet.me.trans h.drops.me, fun q => by rw [h'.quiet.active, h.drops.active],
    fun p => (h'.quiet.closed p).trans (h.drops.closed p)⟩, h.moves.trans h'.moves⟩

lemma Calm.removes (h : Calm random x y) (h' : Removes random peer y z) : Removes random peer x z :=
  ⟨⟨h'.drops.me.trans h.quiet.me, fun q => by rw [h'.drops.active, h.quiet.active],
    fun p => by rw [h'.drops.closed, h.quiet.closed]⟩, h.moves.trans h'.moves⟩

/-! Nothing is closed at first, and what each step does keeps active peers connected. -/

lemma not_closed_nil (s : State PI R) (p : PI) : ¬ Closed (⟨s, []⟩ : Node PI R) p :=
  not_mem_nil

lemma Admits.refl (h : ∀ p, ¬ Closed x p) : Admits sender x x :=
  ⟨rfl, fun _ hq => .inl hq, fun p hp => absurd hp (h p), fun p hp => absurd hp (h p)⟩

lemma Admits.quiet (h : Admits sender x y) (h' : Quiet y z) : Admits sender x z := by
  refine ⟨h'.me.trans h.me, ?_, fun p hp => ?_, fun p hp => h.source p ((h'.closed p).mp hp)⟩
  · rw [h'.active]
    exact h.active
  · rw [h'.active]
    exact h.closed p ((h'.closed p).mp hp)

lemma Quiet.admits (h : Quiet x y) (h' : Admits sender y z) : Admits sender x z := by
  obtain ⟨hme, hact, hclos, hsrc⟩ := h'
  rw [h.active, h.me] at hact
  rw [h.active] at hsrc
  exact ⟨hme.trans h.me, hact, hclos, hsrc⟩

lemma Admits.closes (h : Admits (some peer) x y) (h' : Closes peer y z)
    (hpeer : peer ∉ y.state.activeView.items) : Admits (some peer) x z := by
  refine ⟨h'.me.trans h.me, ?_, fun p hp => ?_, fun p hp => ?_⟩
  · rw [h'.active]
    exact h.active
  · rw [h'.active]
    cases (h'.closed p).mp hp with
    | inl hold => exact h.closed p hold
    | inr heq => exact heq ▸ hpeer
  · cases (h'.closed p).mp hp with
    | inl hold => exact h.source p hold
    | inr heq => exact .inr (congrArg some heq.symm)

lemma Admits.drops (h : Admits sender x y) (h' : Drops peer y z)
    (hpeer : peer ∈ x.state.activeView.items ∨ sender = some peer) : Admits sender x z := by
  refine ⟨h'.me.trans h.me, fun q hq => h.active q ((h'.active q).mp hq).1, fun p hp hq => ?_,
    fun p hp => ?_⟩
  · obtain ⟨hact, hne⟩ := (h'.active p).mp hq
    cases (h'.closed p).mp hp with
    | inl hold => exact h.closed p hold hact
    | inr heq => exact hne heq
  · cases (h'.closed p).mp hp with
    | inl hold => exact h.source p hold
    | inr heq => exact heq ▸ hpeer

lemma Admits.adds (h : Admits (some peer) x y) (h' : Adds peer y z) (hme : peer ≠ x.state.me)
    (hopen : ¬ Closed y peer) : Admits (some peer) x z := by
  refine ⟨h'.me.trans h.me, fun q hq => ?_, fun p hp hq => ?_,
    fun p hp => h.source p ((h'.closed p).mp hp)⟩
  · cases (h'.active q).mp hq with
    | inl hold => exact h.active q hold
    | inr heq => exact .inr ⟨congrArg some heq.symm, heq ▸ hme⟩
  · have hclos := (h'.closed p).mp hp
    cases (h'.active p).mp hq with
    | inl hold => exact h.closed p hclos hold
    | inr heq => exact hopen (heq ▸ hclos)

lemma Admits.me_notMem (h : Admits sender x y) (hme : x.state.me ∉ x.state.activeView.items) :
    y.state.me ∉ y.state.activeView.items := by
  intro hmem
  rw [h.me] at hmem
  cases h.active _ hmem with
  | inl hold => exact hme hold
  | inr hnew => exact hnew.2 rfl

variable (random)

namespace Node
variable (x)

lemma calm_sendNeighbor (peer : PI) (priority : Priority) :
    Calm random x (sendNeighbor x peer priority) := by
  unfold sendNeighbor
  split
  · exact .refl x
  · exact Calm.trans (calm_modify rfl rfl rfl rfl) (calm_push rfl rfl)

lemma calm_insertPeerInfo (info : PeerInfo PI) : Calm random x (insertPeerInfo x info) := by
  unfold insertPeerInfo
  split
  · exact .refl x
  · rename_i data hdata
    simp only
    split
    · exact Calm.trans (calm_push rfl rfl) (calm_modify rfl rfl rfl rfl)
    · exact calm_modify rfl rfl rfl rfl

lemma calm_sendShuffleReply (receiver : PI) (len : Nat) :
    Calm random x (sendShuffleReply random x receiver len) := by
  unfold sendShuffleReply
  exact Calm.trans (calm_modify rfl rfl rfl rfl) (calm_push rfl rfl)

lemma ends_sendDisconnect (peer : PI) (alive : Bool) :
    Ends random peer x (sendDisconnect random x peer alive) := by
  unfold sendDisconnect
  exact Calm.ends ((calm_sendShuffleReply random x peer _).trans (calm_push rfl rfl)) ends_push

lemma calm_addPassive (peer : PI) (data : Option PeerData) :
    Calm random x (addPassive random x peer data) := by
  have hins := calm_insertPeerInfo random x ⟨peer, data⟩
  unfold addPassive
  simp only
  generalize insertPeerInfo x ⟨peer, data⟩ = y at hins ⊢
  split
  · exact hins
  · rename_i hguar
    obtain ⟨hactive, hrest⟩ := not_or.mp hguar
    refine hins.trans ?_
    have henr : Calm random y (y.modify fun s => { s with
        passiveView := (s.freedPassive random).insert peer }) :=
      ⟨⟨rfl, rfl, fun _ => Iff.rfl⟩, .single (.enroll (not_or.mp hrest).2 hactive)⟩
    rw [State.freedPassive_eq]
    generalize Prod.snd _ = rng
    exact henr.trans (calm_modify (f := fun s => { s with rng := rng }) rfl rfl rfl rfl)

lemma calm_refillActiveFromPassive (skipPeers : List PI) :
    Calm random x (refillActiveFromPassive random x skipPeers) := by
  unfold refillActiveFromPassive
  simp only
  split
  · exact .refl x
  · split
    · exact calm_modify rfl rfl rfl rfl
    · refine Calm.trans ?_ (calm_push rfl rfl)
      exact Calm.trans (calm_modify rfl rfl rfl rfl) (calm_sendNeighbor random _ _ _)

variable {x}
variable {reason : RemovalReason}

/-- A peer that was reported as down has its connection closed, and may become a passive one. -/
lemma ends_removeActiveByIndex {i : Nat} (h : x.state.activeView.items[i]? = some peer) :
    Ends random peer ((x.modify fun s => { s with activeView := s.activeView.removeIndex i }).push
      (.emitEvent (.neighborDown peer))) (removeActiveByIndex random x i reason).1 := by
  unfold removeActiveByIndex
  simp only [h]
  generalize (x.modify fun s => { s with activeView := s.activeView.removeIndex i }).push
    (.emitEvent (.neighborDown peer)) = y
  cases reason with
  | random =>
    simp only [if_true, reduceCtorEq, if_false]
    refine Ends.calm ?_ (calm_modify rfl rfl rfl rfl)
    refine Ends.calm ?_ (calm_addPassive random _ _ _)
    exact (ends_sendDisconnect random y peer true).calm (calm_modify rfl rfl rfl rfl)
  | disconnectReceived isAlive =>
    simp only [reduceCtorEq, if_false]
    split
    · dsimp only
      refine Ends.calm ?_ (calm_modify rfl rfl rfl rfl)
      refine Ends.calm ?_ (calm_addPassive random _ _ _)
      exact ends_push.calm (calm_modify rfl rfl rfl rfl)
    · exact ends_push
  | connectionClosed =>
    simp only [if_true]
    split
    · refine Ends.calm ?_ (calm_addPassive random _ _ _)
      refine Ends.calm ?_ (calm_modify rfl rfl rfl rfl)
      exact ends_push.calm (calm_modify rfl rfl rfl rfl)
    · dsimp only
      exact ends_push.calm (calm_modify rfl rfl rfl rfl)

lemma removes_removeActiveByIndex {i : Nat} (h : x.state.activeView.items[i]? = some peer) :
    Removes random peer x (removeActiveByIndex random x i reason).1 := by
  obtain ⟨hi, hpeer⟩ := List.getElem?_eq_some_iff.mp h
  obtain ⟨hends, hmov⟩ : Ends random peer _ (removeActiveByIndex random x i reason).1 :=
    ends_removeActiveByIndex random h
  refine ⟨⟨hends.me, fun q => ?_, fun p => ?_⟩, .head (.down h) hmov⟩
  · rw [hends.active, Io.push_state, Io.modify_state, mem_removeIndex hi, hpeer]
  · rw [hends.closed, (quiet_push rfl).closed]
    rfl

lemma removes_removeActive (h : peer ∈ x.state.activeView.items) :
    Removes random peer x (removeActive random x peer reason) := by
  unfold removeActive
  rw [if_pos h]
  exact (removes_removeActiveByIndex random (getElem?_idxOf h)).calm
    (calm_refillActiveFromPassive random _ _)

lemma freeRandomSlotInActiveView_eq (x : Node PI R) : ∃ rng,
    freeRandomSlotInActiveView random x = x.modify (fun s => { s with rng := rng }) ∨
    ∃ i peer, x.state.activeView.items[i]? = some peer ∧ freeRandomSlotInActiveView random x =
      (removeActiveByIndex random (x.modify fun s => { s with rng := rng }) i .random).1 := by
  unfold freeRandomSlotInActiveView
  split
  · exact ⟨_, .inl rfl⟩
  · rename_i i rng hpick
    refine ⟨rng, ?_⟩
    cases hget : x.state.activeView.items[i]? with
    | none =>
      unfold removeActiveByIndex
      simp only [Io.modify_state, hget, true_or]
    | some peer => exact .inr ⟨i, peer, hget, rfl⟩

lemma freeRandomSlotInActiveView_cases (x : Node PI R) :
    Calm random x (freeRandomSlotInActiveView random x) ∨ ∃ peer ∈ x.state.activeView.items,
      Removes random peer x (freeRandomSlotInActiveView random x) := by
  obtain ⟨rng, heq | ⟨i, peer, hget, heq⟩⟩ := freeRandomSlotInActiveView_eq random x
  · rw [heq]
    exact .inl (calm_modify rfl rfl rfl rfl)
  · rw [heq]
    refine .inr ⟨peer, mem_of_getElem? hget, ?_⟩
    exact Calm.removes (calm_modify rfl rfl rfl rfl) (removes_removeActiveByIndex random hget)

lemma adds_addActiveUnchecked (random : Random R) (x : Node PI R) (peer : PI) (priority : Priority)
    (reply : Bool) : Adds peer x (addActiveUnchecked x peer priority reply) := by
  unfold addActiveUnchecked
  simp only
  split
  · rename_i hmem
    refine ⟨rfl, fun q => ?_, fun _ => Iff.rfl⟩
    exact ⟨Or.inl, fun hq => hq.elim id fun heq => heq ▸ hmem⟩
  · have hadds : ∀ {y : Node PI R}, Quiet ((x.modify fun s => { s with
        passiveView := s.passiveView.remove peer }).modify fun s => { s with
          activeView := s.activeView.insert peer }) y → Adds peer x y := by
      intro y hy
      refine ⟨hy.me, fun q => ?_, hy.closed⟩
      rw [hy.active]
      exact mem_insert
    split
    · exact hadds ((quiet_push rfl).trans (calm_sendNeighbor random _ _ _).quiet)
    · exact hadds (quiet_push rfl)

variable {priority : Priority}

lemma admits_freeSlot_adds {reply : Bool} (hx : Admits (some peer) x y) (hopen : ∀ p, ¬ Closed y p)
    (hpeer : peer ∉ y.state.activeView.items) (hme : peer ≠ x.state.me) :
    Admits (some peer) x (addActiveUnchecked (freeRandomSlotInActiveView random y) peer priority
      reply) := by
  cases freeRandomSlotInActiveView_cases random y with
  | inl hcalm =>
    refine (hx.quiet hcalm.quiet).adds (adds_addActiveUnchecked random _ _ _ _) hme fun hclos => ?_
    exact hopen peer ((hcalm.quiet.closed peer).mp hclos)
  | inr hrem =>
    obtain ⟨dropped, hdrop, hdrops, -⟩ := hrem
    have hsrc := (hx.active dropped hdrop).imp_right And.left
    refine (hx.drops hdrops hsrc).adds (adds_addActiveUnchecked random _ _ _ _) hme fun hclos => ?_
    cases (hdrops.closed peer).mp hclos with
    | inl hold => exact hopen peer hold
    | inr heq => exact hpeer (heq ▸ hdrop)

variable {data : Option PeerData}

lemma insertPeerInfo_state (x : Node PI R) (info : PeerInfo PI) :
    (insertPeerInfo x info).state = { x.state with
      peerData := info.data.elim x.state.peerData (x.state.peerData.insert info.id) } := by
  unfold insertPeerInfo
  cases info.data with
  | none => rfl
  | some data =>
    simp only
    split
    · rfl
    · rfl

lemma insertPeerInfo_makesRoomFor (x : Node PI R) (info : PeerInfo PI) (peer : PI) :
    (insertPeerInfo x info).state.makesRoomFor peer = x.state.makesRoomFor peer := by
  rw [insertPeerInfo_state]
  rfl

lemma makesRoomFor_eq_true {s : State PI R} : s.makesRoomFor peer = true ↔
    peer ≠ s.me ∧ peer ∉ s.activeView.items ∧ s.activeIsFull = true := by
  simp [State.makesRoomFor, IndexSet.contains, and_assoc]

variable {reply : Bool} {P : Node PI R → Prop}

/-- All that can happen when a peer is added to the active view. -/
lemma addActive_ind (hself : peer = x.state.me → P x)
    (hold : peer ∈ x.state.activeView.items → P (insertPeerInfo x ⟨peer, data⟩))
    (hreply : peer ∈ x.state.activeView.items →
      P (sendNeighbor (insertPeerInfo x ⟨peer, data⟩) peer priority))
    (hadd : peer ≠ x.state.me → (insertPeerInfo x ⟨peer, data⟩).state.activeIsFull = false →
      P (addActiveUnchecked (insertPeerInfo x ⟨peer, data⟩) peer priority reply))
    (hswap : x.state.makesRoomFor peer = true → priority = .high → P (addActiveUnchecked
      (freeRandomSlotInActiveView random (insertPeerInfo x ⟨peer, data⟩)) peer priority reply))
    (hfull : x.state.makesRoomFor peer = true → priority = .low →
      P (insertPeerInfo x ⟨peer, data⟩)) :
    P (addActive random x peer data priority reply).1 := by
  have hquiet := (calm_insertPeerInfo random x ⟨peer, data⟩).quiet
  have hroom := insertPeerInfo_makesRoomFor x ⟨peer, data⟩ peer
  unfold addActive
  split
  · rename_i hme
    exact hself hme
  · rename_i hme
    simp only
    split
    · rename_i hmem
      rw [hquiet.active] at hmem
      cases reply with
      | true => exact hreply hmem
      | false => exact hold hmem
    · rename_i hmem
      cases hisFull : (insertPeerInfo x ⟨peer, data⟩).state.activeIsFull with
      | false =>
        cases priority with
        | high | low => exact hadd hme hisFull
      | true =>
        rw [← hroom, makesRoomFor_eq_true, hquiet.me] at hswap hfull
        cases priority with
        | high => exact hswap ⟨hme, hmem, hisFull⟩ rfl
        | low => exact hfull ⟨hme, hmem, hisFull⟩ rfl

lemma admits_addActive (hopen : ∀ p, ¬ Closed x p) :
    Admits (some peer) x (addActive random x peer data priority reply).1 := by
  have hins := (calm_insertPeerInfo random x ⟨peer, data⟩).quiet
  have hadm : Admits (some peer) x (insertPeerInfo x ⟨peer, data⟩) :=
    (Admits.refl hopen).quiet hins
  have hopen' : ∀ p, ¬ Closed (insertPeerInfo x ⟨peer, data⟩) p :=
    fun p hp => hopen p ((hins.closed p).mp hp)
  refine addActive_ind random (fun _ => .refl hopen) (fun _ => hadm) (fun _ => ?_) (fun hme _ => ?_)
    (fun hroom _ => ?_) fun _ _ => hadm
  · exact hadm.quiet (calm_sendNeighbor random _ _ _).quiet
  · exact hadm.adds (adds_addActiveUnchecked random _ _ _ _) hme (hopen' peer)
  · obtain ⟨hme, hpeer, -⟩ := makesRoomFor_eq_true.mp hroom
    exact admits_freeSlot_adds random hadm hopen' (hins.active ▸ hpeer) hme

lemma addActive_denied (hme : x.state.me ∉ x.state.activeView.items)
    (h : (addActive random x peer data priority reply).2 = false) :
    peer ∉ (addActive random x peer data priority reply).1.state.activeView.items := by
  revert h
  fun_cases addActive random x peer data priority reply with
  | case1 _ heq => exact fun _ => heq ▸ hme
  | case5 _ y hpeer => exact fun _ => hpeer
  | _ => nofun

variable (x)

lemma calm_onForwardJoin (sender : PI) (message : ForwardJoin PI) :
    Calm random x (onForwardJoin random x sender message) := by
  have hreq : Calm random x (sendNeighbor (insertPeerInfo x message.peer) message.peer.id .high) :=
    (calm_insertPeerInfo random x _).trans (calm_sendNeighbor random _ _ _)
  have hpas : Calm random x (if message.ttl = x.state.config.passiveRandomWalkLength then
      addPassive random x message.peer.id message.peer.data else x) := by
    split
    · exact calm_addPassive random _ _ _
    · exact .refl x
  unfold onForwardJoin
  simp only
  split
  · exact hreq
  · split
    · exact hreq
    · generalize (if message.ttl = x.state.config.passiveRandomWalkLength then
        addPassive random x message.peer.id message.peer.data else x) = y at hpas ⊢
      split
      · exact hpas
      · split
        · exact hpas
        · exact hpas.trans (Calm.trans (calm_modify rfl rfl rfl rfl) (calm_push rfl rfl))

lemma calm_onShuffle (sender : PI) (shuffle : Shuffle PI) :
    Calm random x (onShuffle random x sender shuffle) := by
  unfold onShuffle
  simp only
  split
  · refine Calm.trans ?_ (calm_sendShuffleReply random _ _ _)
    exact calm_foldl (fun x _ => calm_addPassive random x _ _) _ x
  · split
    · exact calm_modify rfl rfl rfl rfl
    · exact Calm.trans (calm_modify rfl rfl rfl rfl) (calm_push rfl rfl)

lemma calm_onShuffleReply (message : ShuffleReply PI) :
    Calm random x (onShuffleReply random x message) := by
  unfold onShuffleReply
  refine Calm.trans ?_ (calm_refillActiveFromPassive random _ _)
  exact calm_foldl (fun x _ => calm_addPassive random x _ _) _ x

lemma calm_handleShuffleTimer : Calm random x (handleShuffleTimer random x) := by
  unfold handleShuffleTimer
  simp only
  refine Calm.trans ?_ (calm_push rfl rfl)
  split
  · exact calm_modify rfl rfl rfl rfl
  · exact Calm.trans (calm_modify rfl rfl rfl rfl) (calm_push rfl rfl)

lemma calm_eraseRequest (peer : PI) : Calm random x (x.modify fun s => { s with
    pendingNeighborRequests := s.pendingNeighborRequests.erase peer }) :=
  calm_modify rfl rfl rfl rfl

lemma calm_handlePendingNeighborTimer (peer : PI) :
    Calm random x (handlePendingNeighborTimer random x peer) := by
  unfold handlePendingNeighborTimer
  split
  · refine Calm.trans ?_ (calm_refillActiveFromPassive random _ _)
    exact (calm_eraseRequest random x peer).trans calm_discard
  · exact .refl x

lemma onDisconnect_cases (peer : PI) (details : Disconnect) :
    Calm random x (onDisconnect random x peer details) ∨
      Removes random peer x (onDisconnect random x peer details) := by
  have heras := calm_eraseRequest random x peer
  unfold onDisconnect
  simp only
  split
  · rename_i hact
    exact .inr (heras.removes (removes_removeActive random hact))
  · split
    · exact .inl (heras.trans (calm_modify rfl rfl rfl rfl))
    · exact .inl heras

lemma handleConnectionClosed_cases (peer : PI) :
    Calm random x (handleConnectionClosed random x peer) ∧ peer ∉ x.state.activeView.items ∨
      Removes random peer x (handleConnectionClosed random x peer) ∧
        peer ∈ x.state.activeView.items := by
  have heras := calm_eraseRequest random x peer
  unfold handleConnectionClosed
  simp only
  split
  · rename_i hact
    exact .inr ⟨heras.removes (removes_removeActive random hact), hact⟩
  · rename_i hact
    refine .inl ⟨?_, hact⟩
    split
    · exact heras.trans (calm_modify rfl rfl rfl rfl)
    · exact (heras.trans calm_discard).trans
        (calm_modify (f := fun s => { s with peerData := s.peerData.remove peer }) rfl rfl rfl rfl)

variable {x}

lemma admits_onJoin (hopen : ∀ p, ¬ Closed x p) :
    Admits (some peer) x (onJoin random x peer data) := by
  have hadd : Admits (some peer) x (addActive random x peer data .high true).1 :=
    admits_addActive random hopen
  unfold onJoin
  exact hadd.quiet (calm_foldl (fun _ _ => calm_push rfl rfl) _ _ : Calm random _ _).quiet

lemma admits_onNeighbor {details : Neighbor} (hopen : ∀ p, ¬ Closed x p)
    (hme : x.state.me ∉ x.state.activeView.items) :
    Admits (some peer) x (onNeighbor random x peer details) := by
  have hquiet := (calm_eraseRequest random x peer).quiet
  unfold onNeighbor
  simp only
  generalize decide (peer ∈ x.state.pendingNeighborRequests) = isReply
  generalize (x.modify fun s => { s with
    pendingNeighborRequests := s.pendingNeighborRequests.erase peer }) = y at hquiet ⊢
  have hopen' : ∀ p, ¬ Closed y p := fun p hp => hopen p ((hquiet.closed p).mp hp)
  have hme' : y.state.me ∉ y.state.activeView.items := by
    rw [hquiet.me, hquiet.active]
    exact hme
  have hadd : Admits (some peer) x (addActive random y peer details.data details.priority
      (!isReply)).1 := hquiet.admits (admits_addActive random hopen')
  split
  · rename_i z hz
    rw [hz] at hadd
    exact hadd
  · rename_i z hz
    have hden := addActive_denied random hme' (congrArg Prod.snd hz)
    rw [hz] at hadd hden
    exact hadd.closes (ends_sendDisconnect random z peer true).closes hden

lemma drops_quitStep (x : Node PI R) (peer : PI) : Drops peer x (sendDisconnect random
      (x.modify fun s => { s with activeView := s.activeView.remove peer }) peer false) := by
  have hclose := (ends_sendDisconnect random
    (x.modify fun s => { s with activeView := s.activeView.remove peer }) peer false).closes
  refine ⟨hclose.me, fun q => ?_, hclose.closed⟩
  rw [hclose.active]
  exact mem_remove

lemma admits_foldl {f : Node PI R → PI → Node PI R} (hf : ∀ x p, Drops p x (f x p))
    (l : List PI) (hl : ∀ p ∈ l, p ∈ x.state.activeView.items) (h : Admits sender x y) :
    Admits sender x (l.foldl f y) :=
  foldlRecOn l f h fun z hz p hp => hz.drops (hf z p) (.inl (hl p hp))

lemma admits_onMessage {message : Message PI} (hopen : ∀ p, ¬ Closed x p)
    (hme : x.state.me ∉ x.state.activeView.items) :
    Admits (some peer) x (onMessage random x peer message) := by
  have hrefl : Admits (some peer) x x := .refl hopen
  cases message with
  | join data => exact admits_onJoin random hopen
  | forwardJoin details => exact hrefl.quiet (calm_onForwardJoin random x peer details).quiet
  | shuffle details => exact hrefl.quiet (calm_onShuffle random x peer details).quiet
  | shuffleReply details => exact hrefl.quiet (calm_onShuffleReply random x details).quiet
  | neighbor details => exact admits_onNeighbor random hopen hme
  | disconnect details =>
    cases onDisconnect_cases random x peer details with
    | inl hcalm => exact hrefl.quiet hcalm.quiet
    | inr hrem => exact hrefl.drops hrem.drops (.inr rfl)

lemma admits_handleMessage {message : Message PI} (hopen : ∀ p, ¬ Closed x p)
    (hme : x.state.me ∉ x.state.activeView.items) :
    Admits (some peer) x (handleMessage random x peer message) := by
  have hmes : Admits (some peer) x (onMessage random x peer message) :=
    admits_onMessage random hopen hme
  unfold handleMessage
  simp only
  split
  · rename_i hpas
    rw [Bool.and_eq_true, decide_eq_true_iff] at hpas
    exact hmes.closes (ends_push : Ends random _ _ _).closes hpas.2
  · exact hmes

end Node

lemma calm_scheduleShuffle (x : Node PI R) : Calm random x (if x.state.shuffleScheduled then x
      else (x.push (.scheduleTimer x.state.config.shuffleInterval .doShuffle)).modify fun s =>
        { s with shuffleScheduled := true }) := by
  split
  · exact .refl x
  · exact Calm.trans (calm_push rfl rfl) (calm_modify rfl rfl rfl rfl)

/-- An event makes only its sender an active peer, and closes no connection to a
peer that is active afterwards. -/
lemma admits_handle (event : InEvent PI) (hopen : ∀ p, ¬ Closed x p)
    (hme : x.state.me ∉ x.state.activeView.items) :
    Admits event.sender x (Node.handle random x event) := by
  have hrefl : Admits none x x := .refl hopen
  refine Admits.quiet ?_ (calm_scheduleShuffle random _).quiet
  cases event with
  | recvMessage sender message => exact Node.admits_handleMessage random hopen hme
  | timerExpired timer =>
    cases timer with
    | doShuffle => exact hrefl.quiet (Node.calm_handleShuffleTimer random x).quiet
    | pendingNeighborRequest peer =>
      exact hrefl.quiet (Node.calm_handlePendingNeighborTimer random x peer).quiet
  | peerDisconnected peer =>
    cases Node.handleConnectionClosed_cases random x peer with
    | inl hcalm => exact hrefl.quiet hcalm.1.quiet
    | inr hrem => exact hrefl.drops hrem.1.drops (.inl hrem.2)
  | requestJoin peer => exact hrefl.quiet (quiet_push rfl)
  | updatePeerData data =>
    exact hrefl.quiet (calm_modify rfl rfl rfl rfl : Calm random x _).quiet
  | quit => exact Node.admits_foldl (Node.drops_quitStep random) _ (fun _ hp => hp) hrefl

variable (x)

lemma handle_peerDisconnected (peer : PI) :
    peer ∉ (Node.handle random x (.peerDisconnected peer)).state.activeView.items := by
  have hsch := calm_scheduleShuffle random (Node.handleConnectionClosed random x peer)
  unfold Node.handle
  simp only
  cases Node.handleConnectionClosed_cases random x peer with
  | inl h =>
    obtain ⟨hcalm, hpeer⟩ := h
    rw [(hcalm.trans hsch).quiet.active]
    exact hpeer
  | inr h => exact fun hmem => (((h.1.calm hsch).drops.active peer).mp hmem).2 rfl

lemma calm_handle_requestJoin (peer : PI) :
    Calm random x (Node.handle random x (.requestJoin peer)) :=
  Calm.trans (calm_push rfl rfl) (calm_scheduleShuffle random (Node.handleJoin x peer))

variable {x}

end
end Krikos.Gossip.HyParView
