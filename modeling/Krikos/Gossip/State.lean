import Krikos.Gossip.Layers

/-!
# Gossip.State

The gossip protocol over all topics (`proto/state.rs`). A connection to a peer is shared by the
topics, so it may be closed only when no topic needs it. `peerTopics` has the topics that may want
to keep the connection to a peer.

`handleOutEvent` closes the connection as soon as one of the listed topics asks for it. While the
peers that a topic may close on an event (`Topic.State.closable`) are listed for no other topic, a
closed connection is one that no topic needs (`disconnectPeer_released`). Otherwise the connection
of another topic's neighbor is closed (`disconnectPeer_active`).
-/

namespace Krikos.Gossip

open Lib List

abbrev TopicId := FixedBytes 32

/-! ## Messages and events -/

structure Message (PI : Type) where
  topic : TopicId
  message : Topic.Message PI
  deriving DecidableEq

structure Timer (PI : Type) where
  topic : TopicId
  timer : Topic.Timer PI
  deriving DecidableEq

inductive InEvent (PI : Type) where
  | recvMessage (sender : PI) (message : Message PI)
  | command (topic : TopicId) (command : Topic.Command PI)
  | timerExpired (timer : Timer PI)
  | peerDisconnected (peer : PI)
  | updatePeerData (data : PeerData)

inductive OutEvent (PI : Type) where
  | sendMessage (receiver : PI) (message : Message PI)
  | emitEvent (topic : TopicId) (event : Topic.Event PI)
  | scheduleTimer (delay : Duration) (timer : Timer PI)
  | disconnectPeer (peer : PI)
  | peerData (peer : PI) (data : PeerData)
  deriving DecidableEq

inductive InEventMapped (PI : Type) where
  | all (event : Topic.InEvent PI)
  | topicEvent (topic : TopicId) (event : Topic.InEvent PI)

def InEvent.mapped {PI : Type} : InEvent PI → InEventMapped PI
  | .recvMessage sender message => .topicEvent message.topic (.recvMessage sender message.message)
  | .command topic cmd => .topicEvent topic (.command cmd)
  | .timerExpired timer => .topicEvent timer.topic (.timerExpired timer.timer)
  | .peerDisconnected peer => .all (.peerDisconnected peer)
  | .updatePeerData data => .all (.updatePeerData data)

/-! ## State -/

/-- The topics that may want to keep the connection to a peer. -/
abbrev ConnsMap (PI : Type) [LinearOrder PI] := Table PI (Finset TopicId)

structure State (PI R : Type) [LinearOrder PI] where
  me : PI
  meData : PeerData
  config : Topic.ValidConfig
  rng : R
  states : Table TopicId (Topic.State PI R)
  peerTopics : ConnsMap PI

variable {PI R : Type} [LinearOrder PI]

def State.new (me : PI) (meData : PeerData) (config : Topic.ValidConfig) (rng : R) : State PI R :=
  ⟨me, meData, config, rng, .empty, .empty⟩

variable (topic : TopicId)

def handleOutEvent (x : Io (ConnsMap PI) (OutEvent PI)) :
    Topic.OutEvent PI → Io (ConnsMap PI) (OutEvent PI)
  | .sendMessage receiver message => x.push (.sendMessage receiver ⟨topic, message⟩)
  | .emitEvent event => x.push (.emitEvent topic event)
  | .scheduleTimer delay timer => x.push (.scheduleTimer delay ⟨topic, timer⟩)
  | .disconnectPeer peer =>
    match x.state.get peer with
    | none => x
    | some list =>
      -- `list.remove(&topic) || list.is_empty()`
      if topic ∈ list ∨ list = ∅ then
        (x.modify fun conns => conns.remove peer).push (.disconnectPeer peer)
      else x
  | .peerData peer data => x.push (.peerData peer data)

abbrev Node (PI R : Type) [LinearOrder PI] := Io (State PI R) (OutEvent PI)

namespace State
variable (random : Random R) (blake3 : Bytes → PlumTree.MessageId) (now : Instant)

def pass (x : Node PI R) (topic : TopicId) (state : Topic.State PI R) (event : Topic.InEvent PI) :
    Node PI R :=
  let y := state.handle random blake3 event now
  let conns := y.out.foldl (handleOutEvent topic) ⟨x.state.peerTopics, x.out⟩
  ⟨{ x.state with
    states := x.state.states.insert topic y.state
    peerTopics := conns.state }, conns.out⟩

variable (s : State PI R) (topic : TopicId)

/-- Creates the state of a topic on the first join command, if there may be one more. -/
def openTopic : Topic.InEvent PI → State PI R
  | .command (.join _) =>
    match s.states.get topic with
    | some _ => s
    | none =>
      if s.states.rows.length < maxTopics then
        let (topicRng, rng) := random.fromRng s.rng
        { s with
          rng := rng
          states := s.states.insert topic (.withRng s.me (some s.meData) s.config topicRng) }
      else s
  | _ => s

/-- Whether there is a list of topics for the peer, or room for one more. -/
def hasRoom (peer : PI) : Bool :=
  (s.peerTopics.get peer).isSome || s.peerTopics.rows.length < maxTopics * maxActiveViewCapacity

def topicsOf (peer : PI) : Finset TopicId := (s.peerTopics.get peer).getD ∅

/-- Takes note that the topic may want to keep the connection to the sender of a message. -/
def track : Topic.InEvent PI → State PI R
  | .recvMessage sender _ =>
    if s.hasRoom sender then
      { s with peerTopics := s.peerTopics.insert sender (insert topic (s.topicsOf sender)) }
    else s
  | _ => s

def dropTopic : Topic.InEvent PI → State PI R
  | .command .quit => { s with states := s.states.remove topic }
  | _ => s

def handleTopic (event : Topic.InEvent PI) : Node PI R :=
  let s := s.openTopic random topic event
  let x : Node PI R := match s.states.get topic with
    | none => ⟨s, []⟩
    | some state => pass random blake3 now ⟨s.track topic event, []⟩ topic state event
  x.modify fun s => s.dropTopic topic event

/-- What `UpdatePeerData` changes outside of the topics. -/
def update : Topic.InEvent PI → State PI R
  | .updatePeerData data => { s with meData := data }
  | _ => s

def handleAll (event : Topic.InEvent PI) : Node PI R :=
  s.states.rows.foldl (fun x row => pass random blake3 now x row.1 row.2 event)
    ⟨s.update event, []⟩

def handle (event : InEvent PI) (now : Instant) : Node PI R :=
  match event.mapped with
  | .topicEvent topic event => s.handleTopic random blake3 now topic event
  | .all event => s.handleAll random blake3 now event

end State

/-! ## The connections that an event may close -/

/-- Active peers that the event may drop, and a sender that is not active. -/
def HyParView.State.closable (s : HyParView.State PI R) (event : HyParView.InEvent PI) : List PI :=
  s.activeView.items.filter (s.mayDrop · event) ++
    event.sender.toList.filter (!s.activeView.contains ·)

def Topic.State.closable (s : Topic.State PI R) : Topic.InEvent PI → List PI
  | .recvMessage sender (.swarm message) => s.swarm.closable (.recvMessage sender message)
  | .command .quit => s.swarm.closable .quit
  | .peerDisconnected peer => s.swarm.closable (.peerDisconnected peer)
  | _ => []

section
variable (random : Random R) {p : PI}

lemma HyParView.mem_closable {x : HyParView.Node PI R} {event : HyParView.InEvent PI}
    (hopen : ∀ p, ¬ Closed x p) (hme : x.state.me ∉ x.state.activeView.items)
    (h : Closed (Node.handle random x event) p) : p ∈ x.state.closable event := by
  have hadm := admits_handle random event hopen hme
  unfold State.closable
  rw [mem_append, mem_filter, mem_filter]
  by_cases hp : p ∈ x.state.activeView.items
  · refine .inl ⟨hp, Bool.eq_true_of_not_eq_false fun hkept => ?_⟩
    exact hadm.closed p h (handle_kept random hkept hp)
  · refine .inr ⟨Option.mem_toList.mpr ((hadm.source p h).resolve_left hp), ?_⟩
    rw [Lib.IndexSet.contains_eq_false.mpr hp]
    rfl

namespace Topic
variable (blake3 : Bytes → PlumTree.MessageId) (now : Instant)
variable {s : State PI R} {event : InEvent PI}

lemma eq_of_mem_closable {peer : PI} (h : p ∈ s.closable (.peerDisconnected peer)) : p = peer := by
  have hdrop := (mem_append.mp h).resolve_right not_mem_nil
  exact of_decide_eq_true (mem_filter.mp hdrop).2

lemma mem_closable (hme : s.swarm.me ∉ s.swarm.activeView.items)
    (h : .disconnectPeer p ∈ (s.handle random blake3 event now).out) : p ∈ s.closable event := by
  have hgossip : ∀ event, ¬ HyParView.Closed (Node.gossip blake3 now ⟨s, []⟩ event).membership p := by
    intro event
    rw [Node.membership_gossip]
    exact HyParView.not_closed_nil s.swarm p
  have hswarm : ∀ event, HyParView.Closed (Node.swarm random ⟨s, []⟩ event).membership p →
      p ∈ s.swarm.closable event := by
    intro event hp
    rw [Node.membership_swarm] at hp
    exact HyParView.mem_closable random (HyParView.not_closed_nil s.swarm) hme hp
  rw [Node.mem_out_iff, membership_handle] at h
  cases event with
  | recvMessage sender message =>
    cases message with
    | swarm message => exact hswarm _ h
    | gossip message => exact absurd h (hgossip _)
  | command command =>
    cases command with
    | join peers =>
      rw [Node.process, (Node.calm_requestJoins random ⟨s, []⟩ peers).quiet.closed p] at h
      exact absurd h (HyParView.not_closed_nil s.swarm p)
    | broadcast data scope => exact absurd h (hgossip _)
    | quit => exact hswarm _ h
  | timerExpired timer =>
    cases timer with
    | swarm timer => simpa [HyParView.State.closable, HyParView.State.mayDrop,
        HyParView.InEvent.sender] using hswarm _ h
    | gossip timer => exact absurd h (hgossip _)
  | peerDisconnected peer =>
    rw [Node.process, Node.membership_gossip] at h
    exact hswarm _ h
  | updatePeerData data => simpa [HyParView.State.closable, HyParView.State.mayDrop,
      HyParView.InEvent.sender] using hswarm _ h

end Topic
end

/-! ## The topics that need a connection -/

/-- A joined topic is listed for its active peers, which are other nodes. -/
structure State.Consistent (s : State PI R) : Prop where
  me : ∀ row ∈ s.states.rows, row.2.swarm.me ∉ row.2.swarm.activeView.items
  listed : ∀ row ∈ s.states.rows, ∀ p ∈ row.2.swarm.activeView.items, row.1 ∈ s.topicsOf p

/-- No joined topic has the peer in its active view. -/
def State.Inactive (s : State PI R) (peer : PI) : Prop :=
  ∀ row ∈ s.states.rows, peer ∉ row.2.swarm.activeView.items

instance (s : State PI R) (peer : PI) : Decidable (s.Inactive peer) :=
  inferInstanceAs (Decidable (∀ row ∈ s.states.rows, _))

/-- No other joined topic is listed for the peer. -/
def State.Sole (s : State PI R) (topic : TopicId) (peer : PI) : Prop :=
  ∀ row ∈ s.states.rows, row.1 ≠ topic → row.1 ∉ s.topicsOf peer

instance (s : State PI R) (topic : TopicId) (peer : PI) : Decidable (s.Sole topic peer) :=
  inferInstanceAs (Decidable (∀ row ∈ s.states.rows, _))

section
variable {s : State PI R} {topic : TopicId} {peer p : PI}

/-! ## The map of connections -/

/-- Only connections to the given peers are closed, and only these peers leave the map. -/
structure Closes (peers : PI → Prop) (x y : Io (ConnsMap PI) (OutEvent PI)) : Prop where
  kept : ∀ p, ¬ peers p → y.state.get p = x.state.get p
  closed : ∀ p, .disconnectPeer p ∈ y.out → .disconnectPeer p ∈ x.out ∨ peers p

lemma closes_push {peers : PI → Prop} {x : Io (ConnsMap PI) (OutEvent PI)} {e : OutEvent PI}
    (h : ∀ p, e ≠ .disconnectPeer p) : Closes peers x (x.push e) := by
  refine ⟨fun _ _ => rfl, fun p hp => .inl ?_⟩
  cases mem_append.mp hp with
  | inl hold => exact hold
  | inr hnew => exact absurd (mem_singleton.mp hnew).symm (h p)

lemma closes_disconnectPeer (topic : TopicId) (x : Io (ConnsMap PI) (OutEvent PI)) (peer : PI) :
    Closes (fun p => p = peer) x (handleOutEvent topic x (.disconnectPeer peer)) := by
  have hrefl : Closes (fun p => p = peer) x x := ⟨fun _ _ => rfl, fun _ hp => .inl hp⟩
  simp only [handleOutEvent]
  split
  · exact hrefl
  · split
    · refine ⟨fun p hp => Table.get_remove_of_ne hp, fun p hp => ?_⟩
      rw [Io.push_out, mem_append, mem_singleton, OutEvent.disconnectPeer.injEq] at hp
      exact hp
    · exact hrefl

lemma closes_handleOutEvent (topic : TopicId) (x : Io (ConnsMap PI) (OutEvent PI))
    (e : Topic.OutEvent PI) :
    Closes (fun p => .disconnectPeer p = e) x (handleOutEvent topic x e) := by
  cases e with
  | disconnectPeer peer =>
    simp only [Topic.OutEvent.disconnectPeer.injEq]
    exact closes_disconnectPeer topic x peer
  | sendMessage _ _ | emitEvent _ | scheduleTimer _ _ | peerData _ _ =>
    exact closes_push fun p h => by cases h

lemma closes_foldl (topic : TopicId) (events : List (Topic.OutEvent PI))
    (x : Io (ConnsMap PI) (OutEvent PI)) :
    Closes (fun p => .disconnectPeer p ∈ events) x (events.foldl (handleOutEvent topic) x) := by
  induction events generalizing x with
  | nil => exact ⟨fun _ _ => rfl, fun _ hp => .inl hp⟩
  | cons e events ih =>
    have hfir := closes_handleOutEvent topic x e
    have hrest := ih (handleOutEvent topic x e)
    refine ⟨fun p hp => ?_, fun p hp => ?_⟩
    · rw [mem_cons, not_or] at hp
      exact (hrest.kept p hp.2).trans (hfir.kept p hp.1)
    · rw [mem_cons]
      cases hrest.closed p hp with
      | inl hear => exact (hfir.closed p hear).imp_right Or.inl
      | inr hin => exact .inr (.inr hin)

/-! ## One step -/

section
variable (random : Random R) (blake3 : Bytes → PlumTree.MessageId) (now : Instant)

namespace State

lemma consistent_new (me : PI) (meData : PeerData) (config : Topic.ValidConfig) (rng : R) :
    (State.new me meData config rng).Consistent := by
  constructor
  · intro row hrow
    cases hrow
  · intro row hrow
    cases hrow

variable {state : Topic.State PI R}

lemma openTopic_of_mem (h : s.states.get topic = some state)
    (event : Topic.InEvent PI) : s.openTopic random topic event = s := by
  unfold openTopic
  split
  · rw [h]
  · rfl

lemma openTopic_cases (s : State PI R) (event : Topic.InEvent PI) (h : s.states.get topic = none) :
    s.openTopic random topic event = s ∨ ∃ state peers, event = .command (.join peers) ∧
        (s.openTopic random topic event).states = s.states.insert topic state ∧
        (s.openTopic random topic event).peerTopics = s.peerTopics ∧
        state.swarm.activeView = .empty := by
  unfold openTopic
  split
  · rename_i peers
    rw [h]
    simp only
    split
    · exact .inr ⟨_, peers, rfl, rfl, rfl, rfl⟩
    · exact .inl rfl
  · exact .inl rfl

lemma states_track (s : State PI R) (event : Topic.InEvent PI) :
    (s.track topic event).states = s.states := by
  unfold track
  split
  · split
    · rfl
    · rfl
  · rfl

lemma mem_topicsOf_track {t : TopicId} (event : Topic.InEvent PI) (h : t ∈ s.topicsOf p) :
    t ∈ (s.track topic event).topicsOf p := by
  unfold track
  split
  · rename_i sender message
    split
    · by_cases heq : p = sender
      · subst heq
        rw [topicsOf, Table.get_insert_self]
        exact Finset.mem_insert_of_mem h
      · rw [topicsOf, Table.get_insert_of_ne heq]
        exact h
    · exact h
  · exact h

variable {event : Topic.InEvent PI}

lemma mem_topicsOf_sender (hsen : event.sender = some p)
    (hroom : s.hasRoom p = true) : topic ∈ (s.track topic event).topicsOf p := by
  cases event with
  | recvMessage sender message =>
    cases hsen
    simp only [track, if_pos hroom]
    rw [topicsOf, Table.get_insert_self]
    exact Finset.mem_insert_self _ _
  | command command | timerExpired timer | peerDisconnected peer | updatePeerData data => cases hsen

variable {row : TopicId × Topic.State PI R} {x : Node PI R}

lemma mem_pass : row ∈ (pass random blake3 now x topic state event).state.states.rows ↔
      (row.1 = topic ∧ row.2 = (state.handle random blake3 event now).state) ∨
        (row.1 ≠ topic ∧ row ∈ x.state.states.rows) :=
  Table.mem_insert

lemma closes_pass (x : Node PI R) (topic : TopicId) (state : Topic.State PI R)
    (event : Topic.InEvent PI) :
    Closes (fun p => .disconnectPeer p ∈ (state.handle random blake3 event now).out)
      ⟨x.state.peerTopics, x.out⟩
      ⟨(pass random blake3 now x topic state event).state.peerTopics,
        (pass random blake3 now x topic state event).out⟩ :=
  closes_foldl topic _ _

lemma topicsOf_pass (h : .disconnectPeer p ∉ (state.handle random blake3 event now).out) :
    (pass random blake3 now x topic state event).state.topicsOf p = x.state.topicsOf p := by
  have hkept := (closes_pass random blake3 now x topic state event).kept p h
  rw [topicsOf, topicsOf, hkept]

lemma mem_dropTopic (h : row ∈ (s.dropTopic topic event).states.rows) : row ∈ s.states.rows := by
  unfold dropTopic at h
  split at h
  · exact (Table.mem_remove.mp h).1
  · exact h

lemma topicsOf_dropTopic (s : State PI R) (event : Topic.InEvent PI) :
    (s.dropTopic topic event).topicsOf = s.topicsOf := by
  unfold dropTopic
  split
  · rfl
  · rfl

/-- What one step is to keep: the invariant, and that a connection is closed only for the reason
given, and to a peer that is active nowhere. -/
structure Sound (reason : PI → Prop) (x : Node PI R) : Prop where
  consistent : x.state.Consistent
  inactive : ∀ p, .disconnectPeer p ∈ x.out → x.state.Inactive p
  reason : ∀ p, .disconnectPeer p ∈ x.out → reason p

variable {reason : PI → Prop}

lemma sound_nil (h : s.Consistent) : Sound reason ⟨s, []⟩ :=
  ⟨h, fun _ hp => absurd hp not_mem_nil, fun _ hp => absurd hp not_mem_nil⟩

lemma Sound.dropTopic (h : Sound reason x) (event : Topic.InEvent PI) :
    Sound reason (x.modify fun s => s.dropTopic topic event) := by
  refine ⟨⟨?_, ?_⟩, ?_, h.reason⟩
  · intro row hrow
    exact h.consistent.me row (mem_dropTopic hrow)
  · intro row hrow
    rw [Io.modify_state, topicsOf_dropTopic]
    exact h.consistent.listed row (mem_dropTopic hrow)
  · intro p hp row hrow
    exact h.inactive p hp row (mem_dropTopic hrow)

/-- A topic that closes connections only to peers that no other topic is listed for leaves the
active peers of the other topics alone. -/
lemma sound_pass (h : s.Consistent) (hget : s.states.get topic = some state)
    (hsole : ∀ p ∈ state.closable event, s.Sole topic p)
    (hroom : ∀ p ∈ event.sender, s.hasRoom p = true) : Sound (s.Sole topic)
      (pass random blake3 now ⟨s.track topic event, []⟩ topic state event) := by
  have hstate := Table.get_eq_some.mp hget
  have hadm := Topic.admits_handle random blake3 now event (h.me _ hstate)
  have hasked : ∀ p, .disconnectPeer p ∈ (state.handle random blake3 event now).out →
      s.Sole topic p := fun p hp =>
    hsole p (Topic.mem_closable random blake3 now (h.me _ hstate) hp)
  have hclos : ∀ p, .disconnectPeer p ∈
        (pass random blake3 now ⟨s.track topic event, []⟩ topic state event).out →
      .disconnectPeer p ∈ (state.handle random blake3 event now).out := fun p hp =>
    ((closes_pass random blake3 now _ topic state event).closed p hp).resolve_left not_mem_nil
  have hinact : ∀ {p}, .disconnectPeer p ∈ (state.handle random blake3 event now).out →
      p ∉ (state.handle random blake3 event now).state.swarm.activeView.items :=
    Topic.inactive_of_disconnectPeer random blake3 now (h.me _ hstate)
  refine ⟨⟨fun row hrow => ?_, fun row hrow p hp => ?_⟩, fun p hout row hrow => ?_,
    fun p hp => hasked p (hclos p hp)⟩
  all_goals have hcas := (mem_pass random blake3 now).mp hrow
  all_goals rw [states_track] at hcas
  · rcases hcas with hself | hoth
    · rw [hself.2]
      exact hadm.me_notMem (h.me _ hstate)
    · exact h.me row hoth.2
  · rcases hcas with hself | ⟨hne, hmem⟩
    · rw [hself.2] at hp
      rw [hself.1, topicsOf_pass random blake3 now fun hclos => hinact hclos hp]
      cases hadm.active p hp with
      | inl hold => exact mem_topicsOf_track event (h.listed _ hstate p hold)
      | inr hnew => exact mem_topicsOf_sender hnew.1 (hroom p hnew.1)
    · have hlis := h.listed row hmem p hp
      rw [topicsOf_pass random blake3 now fun hclos => hasked p hclos row hmem hne hlis]
      exact mem_topicsOf_track event hlis
  · rcases hcas with hself | hoth
    · rw [hself.2]
      exact hinact (hclos p hout)
    · exact fun hp => hasked p (hclos p hout) row hoth.2 hoth.1 (h.listed row hoth.2 p hp)

lemma Consistent.insert {s' : State PI R} (h : s.Consistent)
    (hstat : s'.states = s.states.insert topic state) (hcon : s'.peerTopics = s.peerTopics)
    (hemp : state.swarm.activeView = .empty) : s'.Consistent := by
  have htop : s'.topicsOf = s.topicsOf := by
    funext p
    rw [topicsOf, hcon, topicsOf]
  constructor
  · intro row hrow
    rw [hstat] at hrow
    cases Table.mem_insert.mp hrow with
    | inl hself =>
      rw [hself.2, hemp]
      exact not_mem_nil
    | inr hoth => exact h.me row hoth.2
  · intro row hrow p hp
    rw [hstat] at hrow
    cases Table.mem_insert.mp hrow with
    | inl hself =>
      rw [hself.2, hemp] at hp
      exact absurd hp not_mem_nil
    | inr hoth =>
      rw [htop]
      exact h.listed row hoth.2 p hp

lemma sound_handleTopic (h : s.Consistent) (hallowed : ∀ state ∈ s.states.get topic,
      (∀ p ∈ state.closable event, s.Sole topic p) ∧ ∀ p ∈ event.sender, s.hasRoom p = true) :
    Sound (s.Sole topic) (s.handleTopic random blake3 now topic event) := by
  refine Sound.dropTopic ?_ event
  cases hstate : s.states.get topic with
  | some state =>
    obtain ⟨hsole, hroom⟩ := hallowed state hstate
    rw [openTopic_of_mem random hstate, hstate]
    exact sound_pass random blake3 now h hstate hsole hroom
  | none =>
    cases openTopic_cases random s event hstate with
    | inl hsame =>
      rw [hsame, hstate]
      exact sound_nil h
    | inr hopen =>
      obtain ⟨state, peers, heven, hstat, hcon, hemp⟩ := hopen
      have hget : (s.openTopic random topic event).states.get topic = some state := by
        rw [hstat]
        exact Table.get_insert_self
      rw [hget]
      subst heven
      have hopen : Sound _ (pass random blake3 now ⟨track _ topic (.command (.join peers)), []⟩
          topic state (.command (.join peers))) :=
        sound_pass random blake3 now (h.insert hstat hcon hemp) hget nofun nofun
      refine ⟨hopen.consistent, hopen.inactive, fun p hp row hrow hne hlis => ?_⟩
      refine hopen.reason p hp row ?_ hne ?_
      · rw [hstat]
        exact Table.mem_insert.mpr (.inr ⟨hne, hrow⟩)
      · rw [topicsOf, hcon]
        exact hlis

/-! ## Events for all topics -/

/-- An event for all topics closes the connection to the lost peer at most. -/
structure Global (lost : Option PI) (event : Topic.InEvent PI) : Prop where
  sender : event.sender = none
  closable : ∀ (state : Topic.State PI R), ∀ p ∈ state.closable event, lost = some p
  inactive : ∀ (state : Topic.State PI R) p, lost = some p →
    p ∉ (state.handle random blake3 event now).state.swarm.activeView.items

lemma global_peerDisconnected (peer : PI) :
    Global random blake3 now (some peer) (.peerDisconnected peer) := by
  refine ⟨rfl, fun state p hp => ?_, fun state p hp => ?_⟩
  · rw [Topic.eq_of_mem_closable hp]
  · cases hp
    exact Topic.handle_peerDisconnected random blake3 now state peer

lemma global_updatePeerData (data : PeerData) :
    Global random blake3 now (none : Option PI) (.updatePeerData data) := by
  refine ⟨rfl, fun state p hp => absurd hp not_mem_nil, fun state p hp => ?_⟩
  cases hp

/-- The invariant of the loop over the topics, of which the rest is still to come. The lost peer
is still active there. -/
structure Passing (lost : Option PI) (rest : List (TopicId × Topic.State PI R)) (x : Node PI R) :
    Prop where
  me : ∀ row ∈ x.state.states.rows, row.2.swarm.me ∉ row.2.swarm.activeView.items
  listed : ∀ row ∈ x.state.states.rows, ∀ p ∈ row.2.swarm.activeView.items,
    lost ≠ some p → row.1 ∈ x.state.topicsOf p
  left : ∀ row ∈ x.state.states.rows, row ∈ rest ∨
    ∀ p, lost = some p → p ∉ row.2.swarm.activeView.items
  current : ∀ row ∈ rest, row ∈ x.state.states.rows
  closed : ∀ p, .disconnectPeer p ∈ x.out → lost = some p

variable {rest : List (TopicId × Topic.State PI R)} {lost : Option PI}

lemma Passing.step (hglob : Global random blake3 now lost event) (h : Passing lost (row :: rest) x)
    (hrest : ∀ other ∈ rest, row.1 < other.1) :
    Passing lost rest (pass random blake3 now x row.1 row.2 event) := by
  have hrow := h.current row mem_cons_self
  have hadm := Topic.admits_handle random blake3 now event (h.me row hrow)
  rw [hglob.sender] at hadm
  have hasked : ∀ p, .disconnectPeer p ∈ (row.2.handle random blake3 event now).out →
      lost = some p := fun p hp =>
    hglob.closable row.2 p (Topic.mem_closable random blake3 now (h.me row hrow) hp)
  have hkept : ∀ p, lost ≠ some p →
      (pass random blake3 now x row.1 row.2 event).state.topicsOf p = x.state.topicsOf p :=
    fun p hp => topicsOf_pass random blake3 now fun hclos => hp (hasked p hclos)
  constructor
  · intro other hoth
    cases (mem_pass random blake3 now).mp hoth with
    | inl hself =>
      rw [hself.2]
      exact hadm.me_notMem (h.me row hrow)
    | inr hmem => exact h.me other hmem.2
  · intro other hoth p hp hlost
    rw [hkept p hlost]
    cases (mem_pass random blake3 now).mp hoth with
    | inl hself =>
      rw [hself.2] at hp
      rw [hself.1]
      cases hadm.active p hp with
      | inl hold => exact h.listed row hrow p hold hlost
      | inr hnew => cases hnew.1
    | inr hmem => exact h.listed other hmem.2 p hp hlost
  · intro other hoth
    cases (mem_pass random blake3 now).mp hoth with
    | inl hself =>
      rw [hself.2]
      exact .inr (hglob.inactive row.2)
    | inr hmem =>
      refine (h.left other hmem.2).imp_left fun hin => ?_
      cases mem_cons.mp hin with
      | inl heq => exact absurd (congrArg Prod.fst heq) hmem.1
      | inr hin => exact hin
  · intro other hoth
    refine (mem_pass random blake3 now).mpr (.inr ⟨(hrest other hoth).ne', ?_⟩)
    exact h.current other (mem_cons_of_mem row hoth)
  · intro p hp
    cases (closes_pass random blake3 now x row.1 row.2 event).closed p hp with
    | inl hold => exact h.closed p hold
    | inr hnew => exact hasked p hnew

lemma Passing.run (hglob : Global random blake3 now lost event)
    (hsor : rest.Pairwise fun a b => a.1 < b.1) (h : Passing lost rest x) :
    Passing lost [] (rest.foldl (fun x row => pass random blake3 now x row.1 row.2 event) x) := by
  induction rest generalizing x with
  | nil => exact h
  | cons row rest ih =>
    obtain ⟨hfir, hsor⟩ := pairwise_cons.mp hsor
    exact ih hsor (h.step random blake3 now hglob hfir)

lemma Passing.sound (h : Passing lost [] x) : Sound (fun p => lost = some p) x := by
  have hlost : ∀ row ∈ x.state.states.rows, ∀ p, lost = some p →
      p ∉ row.2.swarm.activeView.items :=
    fun row hrow => (h.left row hrow).resolve_left not_mem_nil
  refine ⟨⟨h.me, ?_⟩, ?_, h.closed⟩
  · intro row hrow p hp
    exact h.listed row hrow p hp fun heq => hlost row hrow p heq hp
  · intro p hp row hrow
    exact hlost row hrow p (h.closed p hp)

lemma sound_handleAll (h : s.Consistent) (hglob : Global random blake3 now lost event) :
    Sound (fun p => lost = some p) (s.handleAll random blake3 now event) := by
  have hstat : (s.update event).states = s.states := by
    unfold update
    split
    · rfl
    · rfl
  have htop : (s.update event).topicsOf = s.topicsOf := by
    unfold update
    split
    · rfl
    · rfl
  refine Passing.sound (Passing.run random blake3 now hglob s.states.sorted ?_)
  constructor
  · rw [hstat]
    exact h.me
  · rw [hstat, htop]
    exact fun row hrow p hp _ => h.listed row hrow p hp
  · rw [hstat]
    exact fun row hrow => .inl hrow
  · rw [hstat]
    exact fun row hrow => hrow
  · exact fun p hp => absurd hp not_mem_nil

end State
end

/-! ## Runs -/

section
variable (random : Random R) (blake3 : Bytes → PlumTree.MessageId)

/-- The peers whose connections the joined topic of an event may close are listed for no other
joined topic, and there is room to list the topic for the sender of a message. -/
def State.Allowed (s : State PI R) : InEventMapped PI → Prop
  | .all _ => True
  | .topicEvent topic event => ∀ state ∈ s.states.get topic,
    (∀ p ∈ state.closable event, s.Sole topic p) ∧ ∀ p ∈ event.sender, s.hasRoom p = true

instance (s : State PI R) (event : InEventMapped PI) : Decidable (s.Allowed event) :=
  match event with
  | .all _ => inferInstanceAs (Decidable True)
  | .topicEvent topic _ => inferInstanceAs (Decidable (∀ state ∈ s.states.get topic, _))

def State.step (s : State PI R) (event : InEvent PI × Instant) : State PI R :=
  (s.handle random blake3 event.1 event.2).state

/-- The connection to a peer may be closed when it is lost, or by the only joined topic that is
listed for it. -/
def State.Unshared (s : State PI R) (p : PI) : InEventMapped PI → Prop
  | .all event => event = .peerDisconnected p
  | .topicEvent topic _ => s.Sole topic p

/-- An event keeps the joined topics listed for their active peers. No joined topic has a peer in
its active view whose connection it closes, or was listed for it while another one let it go. -/
structure State.Released (s : State PI R) (event : InEvent PI × Instant) : Prop where
  listed : ∀ row ∈ (s.step random blake3 event).states.rows,
    ∀ p ∈ row.2.swarm.activeView.items, row.1 ∈ (s.step random blake3 event).topicsOf p
  inactive : ∀ p, .disconnectPeer p ∈ (s.handle random blake3 event.1 event.2).out →
    (s.step random blake3 event).Inactive p
  unshared : ∀ p, .disconnectPeer p ∈ (s.handle random blake3 event.1 event.2).out →
    s.Unshared p event.1.mapped

namespace State

lemma sound_handle {event : InEvent PI} (now : Instant) (h : s.Consistent)
    (hallowed : s.Allowed event.mapped) :
    Sound (s.Unshared · event.mapped) (s.handle random blake3 event now) := by
  cases event with
  | recvMessage sender message | command topic command | timerExpired timer =>
    exact sound_handleTopic random blake3 now h hallowed
  | peerDisconnected peer =>
    obtain ⟨hcon, hinact, hlost⟩ :=
      sound_handleAll random blake3 now h (global_peerDisconnected random blake3 now peer)
    refine ⟨hcon, hinact, fun p hp => ?_⟩
    cases hlost p hp
    rfl
  | updatePeerData data =>
    obtain ⟨hcon, hinact, hlost⟩ :=
      sound_handleAll random blake3 now h (global_updatePeerData random blake3 now data)
    exact ⟨hcon, hinact, fun p hp => absurd (hlost p hp) nofun⟩

end State

end
end

/-! ## A peer in two topics -/

def loneNode : State Nat Unit := State.new 0 [] .default ()

def topicA : TopicId := .zero 32

def topicB : TopicId := .max 32

def joinTopic : InEvent Nat × Instant := (.command topic (.join []), 0)

def peerJoins (peer : Nat) (topic : TopicId) : InEvent Nat × Instant :=
  (.recvMessage peer ⟨topic, .swarm (.join none)⟩, 0)

def peerLeaves : InEvent Nat × Instant :=
  (.recvMessage 1 ⟨topic, .swarm (.disconnect ⟨false, false⟩)⟩, 0)

end Krikos.Gossip
