import Krikos.Gossip.HyParView
import Krikos.Gossip.PlumTree

/-!
# Gossip.Topic

The protocol of one topic (`proto/topic.rs`): the membership protocol, and the broadcast tree over
its active view.

* `validate_eq_ok`: what a valid configuration guarantees.
* `membership_handle`: seen from the membership layer, the broadcast layer does nothing.
* `admits_handle`: so what is true of the membership protocol is true of the topic. An event makes
  only its sender an active peer, and closes no connection to a peer that is active afterwards.
-/

namespace Krikos.Gossip.Topic

open Lib HyParView

/-! ## Messages and events -/

inductive Message (PI : Type) where
  | swarm (message : HyParView.Message PI)
  | gossip (message : PlumTree.Message)
  deriving DecidableEq

inductive Timer (PI : Type) where
  | swarm (timer : HyParView.Timer PI)
  | gossip (timer : PlumTree.Timer)
  deriving DecidableEq

inductive Command (PI : Type) where
  | join (peers : List PI)
  | broadcast (data : Bytes) (scope : PlumTree.Scope)
  | quit

inductive InEvent (PI : Type) where
  | recvMessage (sender : PI) (message : Message PI)
  | command (command : Command PI)
  | timerExpired (timer : Timer PI)
  | peerDisconnected (peer : PI)
  | updatePeerData (data : PeerData)

def InEvent.sender {PI : Type} : InEvent PI → Option PI
  | .recvMessage sender _ => some sender
  | _ => none

inductive Event (PI : Type) where
  | neighborUp (peer : PI)
  | neighborDown (peer : PI)
  | received (event : PlumTree.GossipEvent PI)
  deriving DecidableEq

inductive OutEvent (PI : Type) where
  | sendMessage (receiver : PI) (message : Message PI)
  | emitEvent (event : Event PI)
  | scheduleTimer (delay : Duration) (timer : Timer PI)
  | disconnectPeer (peer : PI)
  | peerData (peer : PI) (data : PeerData)

variable {PI : Type}

def Event.ofSwarm : HyParView.Event PI → Event PI
  | .neighborUp peer => .neighborUp peer
  | .neighborDown peer => .neighborDown peer

def Event.ofGossip : PlumTree.Event PI → Event PI
  | .received event => .received event

namespace OutEvent

def ofSwarm {PI : Type} : HyParView.OutEvent PI → OutEvent PI
  | .sendMessage receiver message => .sendMessage receiver (.swarm message)
  | .scheduleTimer delay timer => .scheduleTimer delay (.swarm timer)
  | .disconnectPeer peer => .disconnectPeer peer
  | .emitEvent event => .emitEvent (.ofSwarm event)
  | .peerData peer data => .peerData peer data

def ofGossip {PI : Type} : PlumTree.OutEvent PI → OutEvent PI
  | .sendMessage receiver message => .sendMessage receiver (.gossip message)
  | .scheduleTimer delay timer => .scheduleTimer delay (.gossip timer)
  | .emitEvent event => .emitEvent (.ofGossip event)

/-- The event of the membership layer that was pushed as this one. -/
def toSwarm : OutEvent PI → Option (HyParView.OutEvent PI)
  | .sendMessage receiver (.swarm message) => some (.sendMessage receiver message)
  | .scheduleTimer delay (.swarm timer) => some (.scheduleTimer delay timer)
  | .disconnectPeer peer => some (.disconnectPeer peer)
  | .emitEvent (.neighborUp peer) => some (.emitEvent (.neighborUp peer))
  | .emitEvent (.neighborDown peer) => some (.emitEvent (.neighborDown peer))
  | .peerData peer data => some (.peerData peer data)
  | _ => none

@[simp] lemma toSwarm_ofSwarm (e : HyParView.OutEvent PI) :
    (OutEvent.ofSwarm e).toSwarm = some e := by
  cases e with
  | emitEvent event =>
    cases event with
    | neighborUp peer | neighborDown peer => rfl
  | sendMessage receiver message | scheduleTimer delay timer | disconnectPeer peer
  | peerData peer data => rfl

lemma eq_ofSwarm {e : OutEvent PI} {e' : HyParView.OutEvent PI}
    (h : e.toSwarm = some e') : e = OutEvent.ofSwarm e' := by
  unfold toSwarm at h
  split at h
  all_goals cases h
  all_goals rfl

@[simp] lemma toSwarm_ofGossip (e : PlumTree.OutEvent PI) :
    (OutEvent.ofGossip e).toSwarm = none := by
  cases e with
  | emitEvent event | sendMessage receiver message | scheduleTimer delay timer => rfl

end OutEvent

/-! ## Configuration -/

structure Config where
  membership : HyParView.Config
  broadcast : PlumTree.Config
  maxMessageSize : Nat

def Config.default : Config := ⟨.default, .default, 4096⟩

/-- A configuration exceeds a resource limit. -/
structure ConfigError where
  field : String
  value : Nat
  min : Nat
  max : Nat
  deriving DecidableEq

def Config.check (field : String) (value min max : Nat) : Except ConfigError Unit :=
  if min ≤ value ∧ value ≤ max then .ok () else .error ⟨field, value, min, max⟩

def Config.validate (c : Config) : Except ConfigError Unit := do
  check "max_message_size" c.maxMessageSize minMaxMessageSize Gossip.maxMessageSize
  check "membership.active_view_capacity" c.membership.activeViewCapacity 1 maxActiveViewCapacity
  check "membership.passive_view_capacity" c.membership.passiveViewCapacity 1
    maxPassiveViewCapacity
  check "membership.shuffle_active_view_count" c.membership.shuffleActiveViewCount 0
    maxShufflePeers
  check "membership.shuffle_passive_view_count" c.membership.shufflePassiveViewCount 0
    maxShufflePeers
  check "membership.shuffle_fanout"
    (min (c.membership.shuffleActiveViewCount + c.membership.shufflePassiveViewCount) (2 ^ 64 - 1))
    0 maxShufflePeers

/-- A configuration with which a state can be created without a panic. -/
abbrev ValidConfig := {c : Config // c.validate = .ok ()}

def ValidConfig.default : ValidConfig := ⟨.default, by decide⟩

/-- The resource bounds that are checked. -/
structure Config.Bounded (c : Config) : Prop where
  messageSize : minMaxMessageSize ≤ c.maxMessageSize ∧ c.maxMessageSize ≤ Gossip.maxMessageSize
  activeView : 1 ≤ c.membership.activeViewCapacity ∧
    c.membership.activeViewCapacity ≤ maxActiveViewCapacity
  passiveView : 1 ≤ c.membership.passiveViewCapacity ∧
    c.membership.passiveViewCapacity ≤ maxPassiveViewCapacity
  shuffleFanout :
    c.membership.shuffleActiveViewCount + c.membership.shufflePassiveViewCount ≤ maxShufflePeers

lemma check_bind_eq_ok {field : String} {value min max : Nat}
    {next : Unit → Except ConfigError Unit} : (Config.check field value min max >>= next) = .ok () ↔
      (min ≤ value ∧ value ≤ max) ∧ next () = .ok () := by
  unfold Config.check
  split
  · rename_i h
    simp [h, bind, Except.bind]
  · rename_i h
    simp [h, bind, Except.bind]

/-- Exactly the bounded configurations are valid. -/
lemma validate_eq_ok (c : Config) : c.validate = .ok () ↔ c.Bounded := by
  have hlast : ∀ field value min max, Config.check field value min max = .ok () ↔
      min ≤ value ∧ value ≤ max := by
    intro field value min max
    unfold Config.check
    split
    · rename_i h
      simp [h]
    · rename_i h
      simp [h]
  unfold Config.validate
  simp only [check_bind_eq_ok, hlast]
  constructor
  · rintro ⟨hsize, hact, hpas, -, -, hfan⟩
    refine ⟨hsize, hact, hpas, ?_⟩
    have hmax : maxShufflePeers < 2 ^ 64 - 1 := by decide
    omega
  · intro h
    have hfan := h.shuffleFanout
    exact ⟨h.messageSize, h.activeView, h.passiveView, by omega, by omega, by omega⟩

/-! ## State -/

structure State (PI R : Type) [LinearOrder PI] where
  me : PI
  swarm : HyParView.State PI R
  gossip : PlumTree.State PI

variable {R : Type} [LinearOrder PI]

/-- `state::Message::postcard_header_size`: the topic, and the discriminator of the layer. -/
def postcardHeaderSize : Nat := 32 + 1

def State.withRng (me : PI) (meData : Option PeerData) (config : ValidConfig) (rng : R) :
    State PI R where
  me := me
  swarm := .new me meData config.val.membership rng
  gossip := .new me config.val.broadcast (config.val.maxMessageSize - postcardHeaderSize)

abbrev Node (PI R : Type) [LinearOrder PI] := Io (State PI R) (OutEvent PI)

namespace Node
variable (random : Random R) (blake3 : Bytes → PlumTree.MessageId) (now : Instant)

def swarm (x : Node PI R) (event : HyParView.InEvent PI) : Node PI R :=
  let y := HyParView.Node.handle random ⟨x.state.swarm, []⟩ event
  ⟨{ x.state with swarm := y.state }, x.out ++ y.out.map OutEvent.ofSwarm⟩

def gossip (x : Node PI R) (event : PlumTree.InEvent PI) : Node PI R :=
  let y := PlumTree.Node.handle blake3 now ⟨x.state.gossip, []⟩ event
  ⟨{ x.state with gossip := y.state }, x.out ++ y.out.map OutEvent.ofGossip⟩

def process (x : Node PI R) : InEvent PI → Node PI R
  | .command (.join peers) => peers.foldl (fun x peer => swarm random x (.requestJoin peer)) x
  | .command (.broadcast data scope) => gossip blake3 now x (.broadcast data scope)
  | .command .quit => swarm random x .quit
  | .recvMessage sender (.swarm message) => swarm random x (.recvMessage sender message)
  | .recvMessage sender (.gossip message) => gossip blake3 now x (.recvMessage sender message)
  | .timerExpired (.swarm timer) => swarm random x (.timerExpired timer)
  | .timerExpired (.gossip timer) => gossip blake3 now x (.timerExpired timer)
  | .peerDisconnected peer =>
    gossip blake3 now (swarm random x (.peerDisconnected peer)) (.neighborDown peer)
  | .updatePeerData data => swarm random x (.updatePeerData data)

/-- Forwards the neighbor events of the membership layer to the broadcast layer. -/
def forwardNeighbor (x : Node PI R) : OutEvent PI → Node PI R
  | .emitEvent (.neighborUp peer) => gossip blake3 now x (.neighborUp peer)
  | .emitEvent (.neighborDown peer) => gossip blake3 now x (.neighborDown peer)
  | _ => x

end Node

def State.handle (random : Random R) (blake3 : Bytes → PlumTree.MessageId) (s : State PI R)
    (event : InEvent PI) (now : Instant) : Node PI R :=
  let x := Node.process random blake3 now ⟨s, []⟩ event
  x.out.foldl (Node.forwardNeighbor blake3 now) x

/-! ## The membership layer of a topic -/

/-- The membership layer, with the events that it has pushed. -/
def Node.membership (x : Node PI R) : HyParView.Node PI R :=
  ⟨x.state.swarm, x.out.filterMap OutEvent.toSwarm⟩

section
variable (random : Random R) (blake3 : Bytes → PlumTree.MessageId) (now : Instant)
variable {x : Node PI R} {s : State PI R}
variable (x)

lemma Node.mem_out_iff (p : PI) :
    OutEvent.disconnectPeer p ∈ x.out ↔ HyParView.Closed x.membership p := by
  unfold HyParView.Closed membership
  rw [List.mem_filterMap]
  constructor
  · intro h
    exact ⟨_, h, rfl⟩
  · rintro ⟨e, he, hp⟩
    rw [OutEvent.eq_ofSwarm hp] at he
    exact he

lemma Node.membership_swarm (event : HyParView.InEvent PI) : (swarm random x event).membership =
      ⟨(HyParView.Node.handle random ⟨x.state.swarm, []⟩ event).state,
        x.membership.out ++ (HyParView.Node.handle random ⟨x.state.swarm, []⟩ event).out⟩ := by
  simp [membership, swarm, List.filterMap_map]

lemma Node.membership_gossip (event : PlumTree.InEvent PI) :
    (gossip blake3 now x event).membership = x.membership := by
  simp [membership, gossip, List.filterMap_map]

lemma Node.membership_forwardNeighbor (event : OutEvent PI) :
    (forwardNeighbor blake3 now x event).membership = x.membership := by
  unfold forwardNeighbor
  split
  · exact membership_gossip blake3 now x _
  · exact membership_gossip blake3 now x _
  · rfl

lemma Node.membership_forwardNeighbors (events : List (OutEvent PI)) :
    (events.foldl (forwardNeighbor blake3 now) x).membership = x.membership := by
  induction events generalizing x with
  | nil => rfl
  | cons e events ih => exact (ih _).trans (membership_forwardNeighbor blake3 now x e)

lemma membership_handle (s : State PI R) (event : InEvent PI) :
    (s.handle random blake3 event now).membership =
      (Node.process random blake3 now ⟨s, []⟩ event).membership :=
  Node.membership_forwardNeighbors blake3 now _ _

lemma Node.calm_requestJoins (peers : List PI) : HyParView.Calm random x.membership
      (peers.foldl (fun x peer => swarm random x (.requestJoin peer)) x).membership := by
  induction peers generalizing x with
  | nil => exact .refl _
  | cons peer peers ih =>
    have hfir := (calm_handle_requestJoin random ⟨x.state.swarm, []⟩ peer).append x.membership.out
    rw [← membership_swarm] at hfir
    exact hfir.trans (ih _)

lemma Node.admits_swarm (event : HyParView.InEvent PI)
    (hme : s.swarm.me ∉ s.swarm.activeView.items) :
    HyParView.Admits event.sender ⟨s.swarm, []⟩ (swarm random ⟨s, []⟩ event).membership := by
  rw [membership_swarm]
  exact admits_handle random event (not_closed_nil s.swarm) hme

/-- An event makes only its sender an active peer, and closes no connection to a
peer that is active afterwards. -/
lemma admits_handle (event : InEvent PI) (hme : s.swarm.me ∉ s.swarm.activeView.items) :
    HyParView.Admits event.sender ⟨s.swarm, []⟩ (s.handle random blake3 event now).membership := by
  have hrefl : ∀ sender, HyParView.Admits sender (Node.membership ⟨s, []⟩)
      (Node.membership ⟨s, []⟩) := fun _ => .refl (not_closed_nil s.swarm)
  rw [membership_handle]
  cases event with
  | recvMessage sender message =>
    cases message with
    | swarm message => exact Node.admits_swarm random (.recvMessage sender message) hme
    | gossip message =>
      rw [Node.process, Node.membership_gossip]
      exact hrefl _
  | command command =>
    cases command with
    | join peers => exact (hrefl _).quiet (Node.calm_requestJoins random ⟨s, []⟩ peers).quiet
    | broadcast data scope =>
      rw [Node.process, Node.membership_gossip]
      exact hrefl _
    | quit => exact Node.admits_swarm random .quit hme
  | timerExpired timer =>
    cases timer with
    | swarm timer => exact Node.admits_swarm random (.timerExpired timer) hme
    | gossip timer =>
      rw [Node.process, Node.membership_gossip]
      exact hrefl _
  | peerDisconnected peer =>
    rw [Node.process, Node.membership_gossip]
    exact Node.admits_swarm random (.peerDisconnected peer) hme
  | updatePeerData data => exact Node.admits_swarm random (.updatePeerData data) hme

lemma inactive_of_disconnectPeer {event : InEvent PI} {p : PI}
    (hme : s.swarm.me ∉ s.swarm.activeView.items)
    (h : .disconnectPeer p ∈ (s.handle random blake3 event now).out) :
    p ∉ (s.handle random blake3 event now).state.swarm.activeView.items :=
  (admits_handle random blake3 now event hme).closed p ((Node.mem_out_iff _ p).mp h)

variable (s)

lemma handle_peerDisconnected (peer : PI) :
    peer ∉ (s.handle random blake3 (.peerDisconnected peer) now).state.swarm.activeView.items := by
  have hmem : (s.handle random blake3 (.peerDisconnected peer) now).membership =
      HyParView.Node.handle random ⟨s.swarm, []⟩ (.peerDisconnected peer) := by
    rw [membership_handle, Node.process, Node.membership_gossip, Node.membership_swarm]
    rfl
  have hpeer := HyParView.handle_peerDisconnected random ⟨s.swarm, []⟩ peer
  rw [← hmem] at hpeer
  exact hpeer

variable {s}

/-! ## The broadcast layer of a topic -/

lemma Node.gossip_requestJoins (peers : List PI) :
    (peers.foldl (fun x peer => swarm random x (.requestJoin peer)) x).state.gossip =
      x.state.gossip := by
  induction peers generalizing x with
  | nil => rfl
  | cons peer peers ih => exact ih _

variable {x}

end
end Krikos.Gossip.Topic
