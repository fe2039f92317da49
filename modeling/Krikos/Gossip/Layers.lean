import Krikos.Gossip.Views

/-!
# Gossip.Layers

The broadcast tree is meant to grow inside the active view: the eager and the lazy set are subsets of
it, and announcements are queued for active peers only.

The membership layer keeps the two sets inside (`linked_forwardNeighbors`): whatever comes up or
goes down is forwarded. But messages move their senders between the sets whether they are active or
not, a graft timer makes an announcer eager that may have left, and the queue of a peer that
goes down stays. `layers_within` leaves out the events for which this matters.
-/

namespace Krikos.Gossip

open Lib PlumTree.Node HyParView List PlumTree.State Node

variable {PI R : Type} [LinearOrder PI] {p : PI}

namespace PlumTree

def State.Linked (s : State PI) (p : PI) : Prop :=
  (p, ()) ∈ s.eagerPushPeers.rows ∨ (p, ()) ∈ s.lazyPushPeers.rows

/-- All the peers that the broadcast layer deals with are active. -/
structure State.Within (s : State PI) (active : List PI) : Prop where
  eager : ∀ row ∈ s.eagerPushPeers.rows, row.1 ∈ active
  lazy : ∀ row ∈ s.lazyPushPeers.rows, row.1 ∈ active
  queue : ∀ row ∈ s.lazyPushQueue.rows, row.1 ∈ active

/-- The broadcast layer deals with allowed peers only, and no peer is both eager and lazy. -/
structure State.Tidy (s : State PI) (allowed : PI → Prop) : Prop where
  eager : ∀ row ∈ s.eagerPushPeers.rows, allowed row.1
  lazy : ∀ row ∈ s.lazyPushPeers.rows, allowed row.1
  queue : ∀ row ∈ s.lazyPushQueue.rows, allowed row.1
  disjoint : s.Disjoint

/-- The message counts as received when an event arrives. Before the first event, the caches are
evicted. -/
def State.hasReceived (s : State PI) (now : Instant) (id : MessageId) : Bool :=
  (if s.init then s.receivedMessages else s.receivedMessages.expireUntil now).containsKey id

/-- The peer that `optimize_tree` prefers to the sender of a new message. -/
def State.betterPeer (s : State PI) (message : Gossip) : Option PI :=
  match message.nextRound, s.missingMessages.get message.id with
  | some next, some ihaves =>
    match next.round, bestIHave ihaves with
    | some round, some (peer, ihaveRound) =>
      if ihaveRound.hops < round.hops ∧
          s.config.optimizationThreshold.hops ≤ round.hops - ihaveRound.hops then some peer
      else none
    | _, _ => none
  | _, _ => none

section
variable {s : State PI} {x y : Node PI} {allowed : PI → Prop}

lemma Node.started_containsKey (now : Instant) (x : Node PI) (id : MessageId) :
    (started now x).state.receivedMessages.containsKey id = x.state.hasReceived now id := by
  unfold started State.hasReceived
  split
  · rfl
  · rfl

lemma Node.started_queue (now : Instant) (x : Node PI) :
    (started now x).state.lazyPushQueue = x.state.lazyPushQueue := by
  unfold started
  split
  · rfl
  · rfl

lemma Node.tidy_started (now : Instant) (h : x.state.Tidy allowed) :
    (started now x).state.Tidy allowed := by
  unfold started
  split
  · exact h
  · exact ⟨h.eager, h.lazy, h.queue, h.disjoint⟩

lemma State.betterPeer_congr {s s' : State PI} (hmis : s'.missingMessages = s.missingMessages)
    (hcon : s'.config = s.config) (message : Gossip) :
    s'.betterPeer message = s.betterPeer message := by
  unfold State.betterPeer
  rw [hmis, hcon]

lemma State.within_new (me : PI) (config : Config) (maxMessageSize : Nat) (active : List PI) :
    (State.new me config maxMessageSize).Within active :=
  ⟨fun _ h => absurd h not_mem_nil, fun _ h => absurd h not_mem_nil,
    fun _ h => absurd h not_mem_nil⟩

lemma mem_of_mem_insert {V : Type} {t : Table PI V} {v : V} (h : ∀ row ∈ t.rows, allowed row.1)
    (hp : allowed p) : ∀ row ∈ (t.insert p v).rows, allowed row.1 := by
  rintro ⟨q, w⟩ hrow
  cases Table.mem_insert.mp hrow with
  | inl heq => exact heq.1 ▸ hp
  | inr hold => exact h _ hold.2

lemma mem_of_mem_remove {V : Type} {t : Table PI V} (h : ∀ row ∈ t.rows, allowed row.1) :
    ∀ row ∈ (t.remove p).rows, allowed row.1 :=
  fun row hrow => h row (Table.mem_remove.mp hrow).1

lemma State.tidy_addEager (h : s.Tidy allowed) (hp : allowed p) : (s.addEager p).Tidy allowed :=
  ⟨mem_of_mem_insert h.eager hp, mem_of_mem_remove h.lazy, h.queue, disjoint_addEager h.disjoint p⟩

lemma State.tidy_addLazy (h : s.Tidy allowed) (hp : allowed p) : (s.addLazy p).Tidy allowed :=
  ⟨mem_of_mem_remove h.eager, mem_of_mem_insert h.lazy hp, h.queue, disjoint_addLazy h.disjoint p⟩

namespace Node
variable (blake3 : Bytes → MessageId) (now : Instant)

lemma state_onDispatchTimer (x : Node PI) : (onDispatchTimer x).state =
    { x.state with lazyPushQueue := .empty, dispatchTimerScheduled := false } := by
  unfold onDispatchTimer
  rw [Io.modify_state, Io.state_foldl]
  intro y row
  apply Io.state_foldl
  intro z chunk
  rfl

lemma state_eagerPush (x : Node PI) (gossip : Gossip) (sender : PI) :
    (eagerPush x gossip sender).state = x.state := by
  apply Io.state_foldl
  intro y row
  rfl

lemma tidy_lazyPush (h : x.state.Tidy allowed) (gossip : Gossip) (sender : PI) :
    (lazyPush x gossip sender).state.Tidy allowed := by
  unfold lazyPush
  split
  · exact h
  · rename_i round hroun
    simp only
    split
    all_goals
      refine ⟨h.eager, h.lazy, foldlRecOn (motive := fun queues : Table PI (List IHave) =>
        ∀ row ∈ queues.rows, allowed row.1) _ _ h.queue fun _ hqueues row hrow => ?_,
          h.disjoint⟩
      exact mem_of_mem_insert hqueues (h.lazy row (mem_of_mem_filter hrow))

lemma tidy_broadcast (h : x.state.Tidy allowed) (content : Bytes) (scope : Scope) :
    (broadcast blake3 now x content scope).state.Tidy allowed := by
  unfold broadcast
  cases scope with
  | neighbors =>
    simp only [state_eagerPush]
    exact h
  | swarm =>
    simp only [state_eagerPush]
    refine tidy_lazyPush ?_ _ _
    exact ⟨h.eager, h.lazy, h.queue, h.disjoint⟩

lemma lazyPush_frame (x : Node PI) (gossip : Gossip) (sender : PI) :
    (lazyPush x gossip sender).state.missingMessages = x.state.missingMessages ∧
      (lazyPush x gossip sender).state.config = x.state.config := by
  unfold lazyPush
  split
  · exact ⟨rfl, rfl⟩
  · simp only
    split
    · exact ⟨rfl, rfl⟩
    · exact ⟨rfl, rfl⟩

variable {sender : PI} {message next : Gossip}

lemma tidy_optimizeTree {ihaves : List (PI × Round)} (hnext : message.nextRound = some next)
    (hihav : x.state.missingMessages.get message.id = some ihaves)
    (hbet : ∀ p ∈ x.state.betterPeer message, allowed p ∧ allowed sender)
    (hcon : y.state.config = x.state.config) (h : y.state.Tidy allowed) :
    (optimizeTree y sender next ihaves).state.Tidy allowed := by
  simp only [State.betterPeer, hnext, hihav] at hbet
  unfold optimizeTree
  split
  · rename_i round peer ihaveRound hroun hbest
    rw [hcon]
    split
    · rename_i hclos
      simp only [hroun, hbest, if_pos hclos, Option.mem_some_iff] at hbet
      obtain ⟨hpeer, hsen⟩ := hbet peer rfl
      refine State.tidy_addLazy ?_ hsen
      split
      · exact h
      · exact State.tidy_addEager h hpeer
    · exact h
  · exact h

lemma nextRound_id (h : message.nextRound = some next) : next.id = message.id := by
  unfold Gossip.nextRound at h
  split at h
  · cases h
  · cases h
    rfl

section
variable (h : x.state.Tidy allowed)
include h

lemma tidy_forward (hnext : message.nextRound = some next)
    (hbet : ∀ p ∈ x.state.betterPeer message, allowed p ∧ allowed sender) :
    (forward now x sender next).state.Tidy allowed := by
  unfold forward
  simp only
  generalize hy : lazyPush (eagerPush _ next sender) next sender = y
  have htidy : y.state.Tidy allowed := by
    rw [← hy]
    refine tidy_lazyPush ?_ _ _
    rw [state_eagerPush]
    exact ⟨h.eager, h.lazy, h.queue, h.disjoint⟩
  have hfram : y.state.missingMessages = x.state.missingMessages ∧
      y.state.config = x.state.config := by
    rw [← hy, (lazyPush_frame _ _ _).1, (lazyPush_frame _ _ _).2, state_eagerPush]
    exact ⟨rfl, rfl⟩
  have hclean : (y.modify fun s => { s with
      graftTimerScheduled := s.graftTimerScheduled.erase next.id
      missingMessages := s.missingMessages.remove next.id }).state.Tidy allowed :=
    ⟨htidy.eager, htidy.lazy, htidy.queue, htidy.disjoint⟩
  split
  · exact hclean
  · rename_i ihaves hihav
    rw [hfram.1, nextRound_id hnext] at hihav
    exact tidy_optimizeTree hnext hihav hbet hfram.2 hclean

lemma tidy_onGossip (hval : message.validate blake3 = true →
      (x.state.receivedMessages.containsKey message.id = true → allowed sender) ∧
      (x.state.receivedMessages.containsKey message.id = false →
        ∀ p ∈ x.state.betterPeer message, allowed p ∧ allowed sender)) :
    (onGossip blake3 now x sender message).state.Tidy allowed := by
  unfold onGossip
  cases hv : message.validate blake3 with
  | false => exact h
  | true =>
    obtain ⟨hold, hnew⟩ := hval hv
    cases hr : x.state.receivedMessages.containsKey message.id with
    | true =>
      simp only [Bool.not_true, Bool.false_eq_true, if_false, if_true]
      exact State.tidy_addLazy h (hold hr)
    | false =>
      simp only [Bool.not_true, Bool.false_eq_true, if_false, Io.push_state]
      split
      · exact h
      · rename_i next hnext
        exact tidy_forward now h hnext (hnew hr)

lemma tidy_onIHave (sender : PI) (ihaves : List IHave) :
    (onIHave x sender ihaves).state.Tidy allowed := by
  refine foldlRecOn (motive := fun y : Node PI => y.state.Tidy allowed) _ _ h ?_
  intro y hy ihave _
  fun_cases onIHaveEntry sender y ihave with
  | case4 | case5 => exact ⟨hy.eager, hy.lazy, hy.queue, hy.disjoint⟩
  | _ => exact hy

lemma tidy_onSendGraftTimer {id : MessageId}
    (hpeer : x.state.receivedMessages.containsKey id = false →
      ∀ ihaves ∈ x.state.missingMessages.get id, ∀ ihave ∈ ihaves.head?, allowed ihave.1) :
    (onSendGraftTimer x id).state.Tidy allowed := by
  unfold onSendGraftTimer
  simp only
  split
  · exact ⟨h.eager, h.lazy, h.queue, h.disjoint⟩
  · rename_i hr
    have hnew : x.state.receivedMessages.containsKey id = false := Bool.eq_false_iff.mpr hr
    split
    · rename_i peer round entries hget
      refine State.tidy_addEager ?_ (hpeer hnew _ hget _ rfl)
      exact ⟨h.eager, h.lazy, h.queue, h.disjoint⟩
    · exact ⟨h.eager, h.lazy, h.queue, h.disjoint⟩

lemma tidy_onGraft (hsen : allowed sender)
    (details : Graft) : (onGraft x sender details).state.Tidy allowed := by
  have hadd := State.tidy_addEager h hsen
  fun_cases onGraft x sender details with
  | _ => exact hadd

end

/-- No event makes a peer both eager and lazy. -/
lemma handle_disjoint (h : x.state.Disjoint) (event : InEvent PI) :
    (handle blake3 now x event).state.Disjoint := by
  have hx : (started now x).state.Tidy fun _ => True :=
    tidy_started now ⟨fun _ _ => trivial, fun _ _ => trivial, fun _ _ => trivial, h⟩
  rw [handle]
  cases event with
  | recvMessage sender message =>
    cases message with
    | gossip details =>
      refine (tidy_onGossip blake3 now hx fun _ => ?_).disjoint
      exact ⟨fun _ => trivial, fun _ _ _ => ⟨trivial, trivial⟩⟩
    | prune => exact (State.tidy_addLazy hx trivial).disjoint
    | graft details => exact (tidy_onGraft hx trivial details).disjoint
    | iHave details => exact (tidy_onIHave hx sender details).disjoint
  | broadcast data scope => exact (tidy_broadcast blake3 now hx data scope).disjoint
  | timerExpired timer =>
    cases timer with
    | sendGraft id => exact (tidy_onSendGraftTimer hx fun _ _ _ _ _ => trivial).disjoint
    | dispatchLazyPush =>
      simp only [react, state_onDispatchTimer]
      exact hx.disjoint
    | evictCache => exact hx.disjoint
  | neighborUp peer => exact State.disjoint_addEager hx.disjoint peer
  | neighborDown peer => exact State.disjoint_onNeighborDown hx.disjoint peer

end Node
end
end PlumTree

namespace HyParView

/-- The event may remove the peer from the active view. -/
def State.mayDrop (s : State PI R) (p : PI) : InEvent PI → Bool
  | .recvMessage sender (.join _) => s.makesRoomFor sender
  | .recvMessage sender (.neighbor ⟨.high, _⟩) => s.makesRoomFor sender
  | .recvMessage sender (.disconnect _) => p = sender
  | .peerDisconnected peer => p = peer
  | .quit => true
  | _ => false

section
variable (random : Random R) {x y : Node PI R} {peer p : PI}

lemma Quiet.kept (h : Quiet x y) (hp : p ∈ x.state.activeView.items) :
    p ∈ y.state.activeView.items := h.active ▸ hp

lemma Node.addActive_kept {data : Option PeerData} {priority : Priority} {reply : Bool}
    (hroom : priority = .high → x.state.makesRoomFor peer = false)
    (hp : p ∈ x.state.activeView.items) :
    p ∈ (addActive random x peer data priority reply).1.state.activeView.items := by
  have hp' := (calm_insertPeerInfo random x ⟨peer, data⟩).quiet.kept hp
  refine addActive_ind random (P := fun y => p ∈ y.state.activeView.items) (fun _ => hp)
    (fun _ => hp') (fun _ => ?_) (fun _ _ => ?_) (fun hmak hhigh => ?_) fun _ _ => hp'
  · exact (calm_sendNeighbor random _ peer priority).quiet.kept hp'
  · exact ((adds_addActiveUnchecked random _ peer priority reply).active p).mpr (.inl hp')
  · cases (hroom hhigh).symm.trans hmak

lemma Node.onNeighbor_kept {details : Neighbor}
    (hroom : details.priority = .high → x.state.makesRoomFor peer = false)
    (hp : p ∈ x.state.activeView.items) :
    p ∈ (onNeighbor random x peer details).state.activeView.items := by
  unfold onNeighbor
  simp only
  have hadd : p ∈ (addActive random (x.modify fun s => { s with
      pendingNeighborRequests := s.pendingNeighborRequests.erase peer }) peer details.data
        details.priority (!decide (peer ∈ x.state.pendingNeighborRequests))).1.state.activeView.items :=
    addActive_kept random hroom hp
  split
  · rename_i z hz
    rw [hz] at hadd
    exact hadd
  · rename_i z hz
    rw [hz] at hadd
    rw [(ends_sendDisconnect random z peer true).closes.active]
    exact hadd

lemma Node.onMessage_kept {sender : PI} {message : Message PI}
    (h : x.state.mayDrop p (.recvMessage sender message) = false)
    (hp : p ∈ x.state.activeView.items) :
    p ∈ (onMessage random x sender message).state.activeView.items := by
  cases message with
  | join data =>
    unfold onMessage onJoin
    refine (calm_foldl (fun _ _ => calm_push rfl rfl) _ _ : Calm random _ _).quiet.kept ?_
    exact addActive_kept random (fun _ => h) hp
  | forwardJoin details => exact (calm_onForwardJoin random x sender details).quiet.kept hp
  | shuffle details => exact (calm_onShuffle random x sender details).quiet.kept hp
  | shuffleReply details => exact (calm_onShuffleReply random x details).quiet.kept hp
  | neighbor details =>
    obtain ⟨priority, data⟩ := details
    refine onNeighbor_kept random (fun hhigh => ?_) hp
    cases hhigh
    exact h
  | disconnect details =>
    have hne : p ≠ sender := of_decide_eq_false h
    cases onDisconnect_cases random x sender details with
    | inl hcalm => exact hcalm.quiet.kept hp
    | inr hrem => exact (hrem.drops.active p).mpr ⟨hp, hne⟩

lemma handle_kept {event : InEvent PI} (h : x.state.mayDrop p event = false)
    (hp : p ∈ x.state.activeView.items) : p ∈ (handle random x event).state.activeView.items := by
  refine (calm_scheduleShuffle random _).quiet.kept ?_
  cases event with
  | recvMessage sender message =>
    have hmes := Node.onMessage_kept random h hp
    simp only [Node.handleMessage]
    split
    · exact hmes
    · exact hmes
  | timerExpired timer =>
    cases timer with
    | doShuffle => exact (calm_handleShuffleTimer random x).quiet.kept hp
    | pendingNeighborRequest peer =>
      exact (calm_handlePendingNeighborTimer random x peer).quiet.kept hp
  | peerDisconnected peer =>
    have hne : p ≠ peer := of_decide_eq_false h
    cases handleConnectionClosed_cases random x peer with
    | inl hcalm => exact hcalm.1.quiet.kept hp
    | inr hrem => exact (hrem.1.drops.active p).mpr ⟨hp, hne⟩
  | requestJoin peer | updatePeerData data => exact hp
  | quit => cases h

end

variable {out : List (OutEvent PI)}

lemma neighborAfter_cons {p : PI} {old : Prop} {e : OutEvent PI} : NeighborAfter p old (e :: out) ↔
      NeighborAfter p (match e.neighborOf p with
        | none => old
        | some event => event = .neighborUp p) out := by
  unfold NeighborAfter neighborEvents
  cases he : e.neighborOf p with
  | none => simp only [filterMap_cons, he]
  | some event =>
    simp only [filterMap_cons, he, getLast?_cons]
    cases (out.filterMap (OutEvent.neighborOf p)).getLast? with
    | none | some last => simp

lemma NeighborAfter.imp {p : PI} {old old' : Prop}
    (h : NeighborAfter p old out) (hold : old → old') : NeighborAfter p old' out := by
  unfold NeighborAfter at h ⊢
  split
  · rename_i hnone
    rw [hnone] at h
    exact hold h
  · rename_i event hsome
    rw [hsome] at h
    exact h

end HyParView

namespace Topic

/-! ## Forwarding neighbor events -/

section
variable (random : Random R) (blake3 : Bytes → PlumTree.MessageId) (now : Instant)
variable {x : Node PI R} {s : State PI R}
variable (x)

lemma gossip_neighborUp (peer : PI) :
    let after := (Node.gossip blake3 now x (.neighborUp peer)).state.gossip
    (∀ p, after.Linked p → x.state.gossip.Linked p ∨ p = peer) ∧
      after.lazyPushQueue = x.state.gossip.lazyPushQueue ∧
      (x.state.gossip.Disjoint → after.Disjoint) := by
  have hsame := same_started now ⟨x.state.gossip, []⟩
  simp only [Node.gossip, PlumTree.Node.handle, react, Io.modify_state]
  refine ⟨fun p hp => ?_, started_queue now _, fun h => disjoint_addEager (hsame.disjoint h) peer⟩
  unfold PlumTree.State.Linked addEager at hp
  rw [hsame.eager, hsame.lazy] at hp
  cases hp with
  | inl heag =>
    cases Table.mem_insert.mp heag with
    | inl heq => exact .inr heq.1
    | inr hold => exact .inl (.inl hold.2)
  | inr hlazy => exact .inl (.inr (Table.mem_remove.mp hlazy).1)

lemma gossip_neighborDown (peer : PI) :
    let after := (Node.gossip blake3 now x (.neighborDown peer)).state.gossip
    (∀ p, after.Linked p → x.state.gossip.Linked p ∧ p ≠ peer) ∧
      after.lazyPushQueue = x.state.gossip.lazyPushQueue ∧
      (x.state.gossip.Disjoint → after.Disjoint) := by
  have hsame := same_started now ⟨x.state.gossip, []⟩
  simp only [Node.gossip, PlumTree.Node.handle, react, Io.modify_state]
  refine ⟨fun p hp => ?_, started_queue now _,
    fun h => disjoint_onNeighborDown (hsame.disjoint h) peer⟩
  unfold PlumTree.State.Linked onNeighborDown at hp
  rw [hsame.eager, hsame.lazy] at hp
  cases hp with
  | inl heag =>
    obtain ⟨hold, hne⟩ := Table.mem_remove.mp heag
    exact ⟨.inl hold, hne⟩
  | inr hlazy =>
    obtain ⟨hold, hne⟩ := Table.mem_remove.mp hlazy
    exact ⟨.inr hold, hne⟩

lemma frame_forwardNeighbors (events : List (OutEvent PI)) :
    (events.foldl (Node.forwardNeighbor blake3 now) x).state.gossip.lazyPushQueue =
      x.state.gossip.lazyPushQueue ∧
    (x.state.gossip.Disjoint →
      (events.foldl (Node.forwardNeighbor blake3 now) x).state.gossip.Disjoint) := by
  induction events generalizing x with
  | nil => exact ⟨rfl, id⟩
  | cons e events ih =>
    have hfir : (Node.forwardNeighbor blake3 now x e).state.gossip.lazyPushQueue =
        x.state.gossip.lazyPushQueue ∧ (x.state.gossip.Disjoint →
          (Node.forwardNeighbor blake3 now x e).state.gossip.Disjoint) := by
      unfold Node.forwardNeighbor
      split
      · exact (gossip_neighborUp blake3 now x _).2
      · exact (gossip_neighborDown blake3 now x _).2
      · exact ⟨rfl, id⟩
    exact ⟨(ih _).1.trans hfir.1, (ih _).2 ∘ hfir.2⟩

lemma linked_forwardNeighbors (events : List (OutEvent PI)) (p : PI)
    (h : (events.foldl (Node.forwardNeighbor blake3 now) x).state.gossip.Linked p) :
    HyParView.NeighborAfter p (x.state.gossip.Linked p) (events.filterMap OutEvent.toSwarm) := by
  induction events generalizing x with
  | nil => exact h
  | cons e events ih =>
    have hrest := ih _ h
    have hoth : ∀ e' ∈ e.toSwarm, e'.isNeighborEvent = false →
        HyParView.NeighborAfter p (x.state.gossip.Linked p) (events.filterMap OutEvent.toSwarm) →
        HyParView.NeighborAfter p (x.state.gossip.Linked p)
          ((e :: events).filterMap OutEvent.toSwarm) := by
      intro e' he' hnone haft
      rw [filterMap_cons_some he', neighborAfter_cons, neighborOf_eq_none hnone]
      exact haft
    cases e with
    | emitEvent event =>
      cases event with
      | neighborUp q =>
        refine neighborAfter_cons.mpr (hrest.imp fun hlin => ?_)
        by_cases hq : q = p
        · simp only [HyParView.OutEvent.neighborOf, hq, if_true]
        · simp only [HyParView.OutEvent.neighborOf, if_neg hq]
          cases (gossip_neighborUp blake3 now x q).1 p hlin with
          | inl hold => exact hold
          | inr heq => exact absurd heq.symm hq
      | neighborDown q =>
        refine neighborAfter_cons.mpr (hrest.imp fun hlin => ?_)
        obtain ⟨hold, hne⟩ := (gossip_neighborDown blake3 now x q).1 p hlin
        simp only [HyParView.OutEvent.neighborOf, if_neg (Ne.symm hne)]
        exact hold
      | received event => exact hrest
    | sendMessage receiver message =>
      cases message with
      | swarm message => exact hoth _ rfl rfl hrest
      | gossip message => exact hrest
    | scheduleTimer delay timer =>
      cases timer with
      | swarm timer => exact hoth _ rfl rfl hrest
      | gossip timer => exact hrest
    | disconnectPeer peer | peerData peer data => exact hoth _ rfl rfl hrest

variable {x}

/-- What forwarding starts from: the linked peers were active before, and the active view has
changed by the events that are to be forwarded. -/
structure Ready (s : State PI R) (x : Node PI R) : Prop where
  moves : HyParView.Moves random ⟨s.swarm, []⟩ x.membership
  linked : ∀ p, x.state.gossip.Linked p → p ∈ s.swarm.activeView.items
  queue : ∀ row ∈ x.state.gossip.lazyPushQueue.rows, row.1 ∈ x.state.swarm.activeView.items

lemma Ready.within (h : Ready random s x) :
    (x.out.foldl (Node.forwardNeighbor blake3 now) x).state.gossip.Within
      x.state.swarm.activeView.items := by
  have htrac : HyParView.Tracks s.swarm.activeView x.membership :=
    h.moves.tracks fun p => Iff.rfl
  have hlin : ∀ p, (x.out.foldl (Node.forwardNeighbor blake3 now) x).state.gossip.Linked p →
      p ∈ x.state.swarm.activeView.items := by
    intro p hp
    refine (htrac p).mpr ?_
    exact (linked_forwardNeighbors blake3 now x x.out p hp).imp (h.linked p)
  refine ⟨fun row hrow => hlin row.1 (.inl hrow), fun row hrow => hlin row.1 (.inr hrow),
    ?_⟩
  rw [(frame_forwardNeighbors blake3 now x _).1]
  exact h.queue

end

/-! ## Events that keep the layers together -/

/-- The event moves only active peers between the eager and the lazy set, and drops no peer from the
active view that announcements are queued for. All active peers are linked, so a topic cannot be quit
while it has any. -/
def State.Confined (blake3 : Bytes → PlumTree.MessageId) (s : State PI R) :
    InEvent PI × Instant → Prop
  | (.recvMessage sender (.gossip (.gossip message)), now) => message.validate blake3 = true →
    (s.gossip.hasReceived now message.id = true → sender ∈ s.swarm.activeView.items) ∧
    (s.gossip.hasReceived now message.id = false → ∀ p ∈ s.gossip.betterPeer message,
      p ∈ s.swarm.activeView.items ∧ sender ∈ s.swarm.activeView.items)
  | (.recvMessage sender (.gossip .prune), _) => sender ∈ s.swarm.activeView.items
  | (.recvMessage sender (.gossip (.graft _)), _) => sender ∈ s.swarm.activeView.items
  | (.timerExpired (.gossip (.sendGraft id)), now) => s.gossip.hasReceived now id = false →
    ∀ ihaves ∈ s.gossip.missingMessages.get id, ∀ ihave ∈ ihaves.head?,
      ihave.1 ∈ s.swarm.activeView.items
  | (.recvMessage sender (.swarm message), _) => ∀ row ∈ s.gossip.lazyPushQueue.rows,
    s.swarm.mayDrop row.1 (.recvMessage sender message) = false
  | (.peerDisconnected peer, _) => ∀ row ∈ s.gossip.lazyPushQueue.rows, row.1 ≠ peer
  | (.command .quit, _) => s.swarm.activeView.items = []
  | _ => True

instance (blake3 : Bytes → PlumTree.MessageId) (s : State PI R) (event : InEvent PI × Instant) :
    Decidable (s.Confined blake3 event) :=
  match event with
  | (.recvMessage _ (.gossip (.gossip _)), _) => inferInstanceAs (Decidable (_ → _ ∧ _))
  | (.recvMessage _ (.gossip .prune), _) | (.recvMessage _ (.gossip (.graft _)), _) =>
    inferInstanceAs (Decidable (_ ∈ _))
  | (.recvMessage _ (.swarm _), _) | (.peerDisconnected _, _) =>
    inferInstanceAs (Decidable (∀ row ∈ _, _))
  | (.timerExpired (.gossip (.sendGraft _)), _) =>
    inferInstanceAs (Decidable (_ → ∀ ihaves ∈ Table.get _ _, _))
  | (.command .quit, _) => inferInstanceAs (Decidable (_ = _))
  | (.recvMessage _ (.gossip (.iHave _)), _) | (.timerExpired (.gossip .dispatchLazyPush), _)
  | (.timerExpired (.gossip .evictCache), _) | (.timerExpired (.swarm _), _)
  | (.command (.join _), _) | (.command (.broadcast _ _), _) | (.updatePeerData _, _) =>
    inferInstanceAs (Decidable True)

/-- The broadcast layer deals with active peers only, and no peer is both eager and lazy. -/
structure State.Nested (s : State PI R) : Prop where
  within : s.gossip.Within s.swarm.activeView.items
  disjoint : s.gossip.Disjoint

section
variable (random : Random R) (blake3 : Bytes → PlumTree.MessageId) (now : Instant)
variable {x : Node PI R} {s : State PI R}

lemma State.Nested.linked (h : s.Nested) (hp : s.gossip.Linked p) :
    p ∈ s.swarm.activeView.items := by
  cases hp with
  | inl heag => exact h.within.eager _ heag
  | inr hlazy => exact h.within.lazy _ hlazy

variable {event : HyParView.InEvent PI}

lemma ready_swarm (h : s.Nested) (hmov : HyParView.Moves random ⟨s.swarm, []⟩
      (HyParView.Node.handle random ⟨s.swarm, []⟩ event))
    (hqueue : ∀ row ∈ s.gossip.lazyPushQueue.rows, row.1 ∈
      (HyParView.Node.handle random ⟨s.swarm, []⟩ event).state.activeView.items) :
    Ready random s (Node.swarm random ⟨s, []⟩ event) ∧
      (Node.swarm random ⟨s, []⟩ event).state.gossip.Disjoint := by
  refine ⟨⟨?_, fun p => h.linked, hqueue⟩, h.disjoint⟩
  rw [Node.membership_swarm]
  exact hmov

lemma ready_swarm_kept (h : s.Nested) (hval : s.swarm.Valid) (hquit : event ≠ .quit)
    (hkept : ∀ row ∈ s.gossip.lazyPushQueue.rows, s.swarm.mayDrop row.1 event = false) :
    Ready random s (Node.swarm random ⟨s, []⟩ event) ∧
      (Node.swarm random ⟨s, []⟩ event).state.gossip.Disjoint := by
  refine ready_swarm random h (moves_handle random hval hquit) fun row hrow => ?_
  exact handle_kept random (x := ⟨s.swarm, []⟩) (hkept row hrow) (h.within.queue row hrow)

lemma ready_requestJoins (h : s.Nested) (peers : List PI) :
    Ready random s (peers.foldl (fun x peer => Node.swarm random x (.requestJoin peer)) ⟨s, []⟩) ∧
      (peers.foldl (fun x peer => Node.swarm random x (.requestJoin peer))
        ⟨s, []⟩).state.gossip.Disjoint := by
  have hgos := Node.gossip_requestJoins random ⟨s, []⟩ peers
  obtain ⟨hquiet, hmov⟩ := Node.calm_requestJoins random ⟨s, []⟩ peers
  refine ⟨⟨hmov, fun p => ?_, ?_⟩, hgos ▸ h.disjoint⟩
  · rw [hgos]
    exact h.linked
  · rw [hgos]
    intro row hrow
    exact hquiet.active ▸ h.within.queue row hrow

lemma ready_gossip {event : PlumTree.InEvent PI}
    (h : (Node.gossip blake3 now ⟨s, []⟩ event).state.gossip.Tidy (· ∈ s.swarm.activeView.items)) :
    Ready random s (Node.gossip blake3 now ⟨s, []⟩ event) ∧
      (Node.gossip blake3 now ⟨s, []⟩ event).state.gossip.Disjoint := by
  refine ⟨⟨?_, fun p hp => ?_, h.queue⟩, h.disjoint⟩
  · rw [Node.membership_gossip]
    exact .refl
  · cases hp with
    | inl heag => exact h.eager _ heag
    | inr hlazy => exact h.lazy _ hlazy

lemma ready_react (h : s.Nested) {event : PlumTree.InEvent PI} (hreac : ∀ x : PlumTree.Node PI,
      (∀ id, x.state.receivedMessages.containsKey id = s.gossip.hasReceived now id) →
      x.state.missingMessages = s.gossip.missingMessages → x.state.config = s.gossip.config →
      x.state.Tidy (· ∈ s.swarm.activeView.items) →
      (react blake3 now x event).state.Tidy (· ∈ s.swarm.activeView.items)) :
    Ready random s (Node.gossip blake3 now ⟨s, []⟩ event) ∧
      (Node.gossip blake3 now ⟨s, []⟩ event).state.gossip.Disjoint := by
  refine ready_gossip random blake3 now ?_
  have hfram := started_frame now ⟨s.gossip, []⟩
  simp only [Node.gossip, PlumTree.Node.handle]
  exact hreac _ (started_containsKey now ⟨s.gossip, []⟩) hfram.1 hfram.2
    (tidy_started now ⟨h.within.eager, h.within.lazy, h.within.queue, h.disjoint⟩)

lemma ready_process (h : s.Nested) (hval : s.swarm.Valid) {event : InEvent PI}
    (hc : s.Confined blake3 (event, now)) :
    Ready random s (Node.process random blake3 now ⟨s, []⟩ event) ∧
      (Node.process random blake3 now ⟨s, []⟩ event).state.gossip.Disjoint := by
  cases event with
  | recvMessage sender message =>
    cases message with
    | swarm message => exact ready_swarm_kept random h hval (by simp) hc
    | gossip message =>
      refine ready_react random blake3 now h fun x hrec hmis hcon hx => ?_
      cases message with
      | gossip details =>
        refine tidy_onGossip blake3 now hx fun hv => ?_
        rw [hrec, betterPeer_congr hmis hcon]
        exact hc hv
      | prune => exact tidy_addLazy hx hc
      | graft details => exact tidy_onGraft hx hc details
      | iHave details => exact tidy_onIHave hx sender details
  | command command =>
    cases command with
    | join peers => exact ready_requestJoins random h peers
    | broadcast data scope =>
      refine ready_react random blake3 now h fun x _ _ _ hx => ?_
      exact tidy_broadcast blake3 now hx data scope
    | quit =>
      have hemp : s.swarm.activeView.items = [] := hc
      refine ready_swarm random h (moves_handle_quit random hemp) fun row hrow => ?_
      exact absurd (hemp ▸ h.within.queue row hrow) not_mem_nil
  | timerExpired timer =>
    cases timer with
    | swarm timer => exact ready_swarm_kept random h hval (by simp) fun _ _ => rfl
    | gossip timer =>
      refine ready_react random blake3 now h fun x hrec hmis _ hx => ?_
      cases timer with
      | sendGraft id =>
        refine tidy_onSendGraftTimer hx ?_
        rw [hrec, hmis]
        exact hc
      | dispatchLazyPush =>
        simp only [react, state_onDispatchTimer]
        exact ⟨hx.eager, hx.lazy, fun _ hrow => absurd hrow not_mem_nil, hx.disjoint⟩
      | evictCache => exact ⟨hx.eager, hx.lazy, hx.queue, hx.disjoint⟩
  | peerDisconnected peer =>
    have hkept : ∀ row ∈ s.gossip.lazyPushQueue.rows,
        s.swarm.mayDrop row.1 (.peerDisconnected peer) = false :=
      fun row hrow => decide_eq_false (hc row hrow)
    obtain ⟨hread, hdis⟩ : Ready random s (Node.swarm random ⟨s, []⟩ (.peerDisconnected peer)) ∧
        s.gossip.Disjoint :=
      ready_swarm_kept random h hval (by simp) hkept
    have hdown := gossip_neighborDown blake3 now (Node.swarm random ⟨s, []⟩ (.peerDisconnected peer))
      peer
    refine ⟨⟨?_, fun p hp => hread.linked p (hdown.1 p hp).1, ?_⟩, hdown.2.2 hdis⟩
    · rw [Node.process, Node.membership_gossip]
      exact hread.moves
    · rw [Node.process, hdown.2.1]
      exact hread.queue
  | updatePeerData data => exact ready_swarm_kept random h hval (by simp) fun _ _ => rfl

lemma nested_handle (h : s.Nested) (hval : s.swarm.Valid) {event : InEvent PI}
    (hc : s.Confined blake3 (event, now)) : (s.handle random blake3 event now).state.Nested ∧
      (s.handle random blake3 event now).state.swarm.Valid := by
  obtain ⟨hread, hdis⟩ := ready_process random blake3 now h hval hc
  have hswar : (s.handle random blake3 event now).state.swarm =
      (Node.process random blake3 now ⟨s, []⟩ event).state.swarm :=
    congrArg Io.state (membership_handle random blake3 now s event)
  refine ⟨⟨?_, (frame_forwardNeighbors blake3 now _ _).2 hdis⟩, ?_⟩
  · rw [hswar]
    exact hread.within random blake3 now
  · rw [hswar]
    exact hread.moves.valid hval

end

/-! ## Runs -/

def State.step (random : Random R) (blake3 : Bytes → PlumTree.MessageId) (s : State PI R)
    (event : InEvent PI × Instant) : State PI R :=
  (s.handle random blake3 event.1 event.2).state

/-- In every run of confined events, the eager set, the lazy set and the queue of
announcements have active peers only, and no peer is both eager and lazy. -/
theorem layers_within (random : Random R) (blake3 : Bytes → PlumTree.MessageId) (me : PI)
    (meData : Option PeerData) (config : ValidConfig) (rng : R)
    (events : List (InEvent PI × Instant))
    (h : Along (State.step random blake3) (State.Confined blake3)
      (State.withRng me meData config rng) events) :
    Throughout (State.step random blake3) State.Nested
      (State.withRng me meData config rng) events := by
  have hstart : (State.withRng me meData config rng).Nested ∧
      (State.withRng me meData config rng).swarm.Valid :=
    ⟨⟨within_new .., disjoint_new me config.val.broadcast _⟩,
      HyParView.State.valid_new me meData config rng⟩
  have hrun := throughout_of_along (P := fun s => s.Nested ∧ s.swarm.Valid)
    (fun s event hs hc => nested_handle random blake3 event.2 hs.1 hs.2 hc) hstart h
  exact hrun.imp fun s hs => hs.1

/-- A peer joins, sends a message and is pruned, and leaves. -/
theorem layers_within_neighbor :
    Along (State.step .first fun _ => .zero 32) (State.Confined fun _ => .zero 32)
      (State.withRng 0 none .default ()) [(.recvMessage 1 (.swarm (.join none)), 0),
        (.recvMessage 1 (.gossip (.gossip ⟨.zero 32, [7], .swarm ⟨0⟩⟩)), 1),
        (.recvMessage 1 (.gossip .prune), 2), (.peerDisconnected 1, 3)] ∧
    Throughout (State.step .first fun _ => .zero 32) State.Nested
      (State.withRng 0 none .default ()) [(.recvMessage 1 (.swarm (.join none)), 0),
        (.recvMessage 1 (.gossip (.gossip ⟨.zero 32, [7], .swarm ⟨0⟩⟩)), 1),
        (.recvMessage 1 (.gossip .prune), 2), (.peerDisconnected 1, 3)] := by
  refine ⟨?confined, layers_within .first (fun _ => .zero 32) 0 none .default () _ ?confined⟩
  decide +kernel

/-- A peer that is not active is made lazy by its own message. -/
theorem layers_pruned_stranger : ¬ Throughout (State.step .first fun _ => .zero 32) State.Nested
      (State.withRng 0 none .default ()) [(.recvMessage 1 (.gossip .prune), 0)] := by
  intro h
  have hlast := h.2.within.lazy (1, ()) (by decide +kernel)
  revert hlast
  decide +kernel

section
variable (random : Random R) (blake3 : Bytes → PlumTree.MessageId) (me : PI)
  (meData : Option PeerData) (config : ValidConfig) (rng : R) (events : List (InEvent PI × Instant))

lemma State.disjoint_step {s : State PI R} (h : s.gossip.Disjoint) (event : InEvent PI × Instant) :
    (s.step random blake3 event).gossip.Disjoint := by
  refine (frame_forwardNeighbors blake3 event.2 _ _).2 ?_
  fun_cases Node.process random blake3 event.2 ⟨s, []⟩ event.1 with
  | case1 peers =>
    rw [Node.gossip_requestJoins]
    exact h
  | case2 | case5 | case7 | case8 => exact handle_disjoint blake3 event.2 h _
  | case3 | case4 | case6 | case9 => exact h

/-- Whatever the peers send, no run makes a peer both eager and lazy. -/
theorem run_disjoint :
    (run (State.step random blake3) (State.withRng me meData config rng) events).gossip.Disjoint :=
  foldlRecOn (motive := fun s : State PI R => s.gossip.Disjoint) _ _
    (disjoint_new me config.val.broadcast _)
    fun _ h event _ => State.disjoint_step random blake3 h event

/-- In every run, an event makes only its sender an active peer, and closes no connection to a peer
that is active afterwards. -/
theorem run_admits (event : InEvent PI) (now : Instant) :
    let s := run (State.step random blake3) (State.withRng me meData config rng) events
    HyParView.Admits event.sender ⟨s.swarm, []⟩ (s.handle random blake3 event now).membership := by
  refine admits_handle random blake3 now event ?_
  refine foldlRecOn (motive := fun s : State PI R => s.swarm.me ∉ s.swarm.activeView.items) _ _
    not_mem_nil fun s hs event _ hmem => ?_
  have hadm := admits_handle random blake3 event.2 event.1 hs
  cases hadm.active _ hmem with
  | inl hold => exact hs (hadm.me ▸ hold)
  | inr hnew => exact hnew.2 hadm.me

end
end Topic
end Krikos.Gossip
