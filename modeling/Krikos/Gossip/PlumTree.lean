import Krikos.Gossip.Util

/-!
# Gossip.PlumTree

The epidemic broadcast tree of one topic (`proto/plumtree.rs`).

Every handler moves peers between the eager and the lazy set with `addEager` and `addLazy` only.
-/

namespace Krikos.Gossip.PlumTree

open Lib

/-! ## Messages and events -/

abbrev MessageId := FixedBytes 32

/-- The number of hops that a message has taken. -/
structure Round where
  hops : U16
  deriving DecidableEq

namespace Round

def next (r : Round) : Round := if h : r.hops.val + 1 < 2 ^ 16 then ⟨⟨r.hops.val + 1, h⟩⟩ else r

end Round

inductive DeliveryScope where
  | swarm (round : Round)
  | neighbors
  deriving DecidableEq

inductive Scope where
  | swarm
  | neighbors

structure Gossip where
  id : MessageId
  content : Bytes
  scope : DeliveryScope
  deriving DecidableEq

namespace Gossip

def round (g : Gossip) : Option Round :=
  match g.scope with
  | .swarm round => some round
  | .neighbors => none

def nextRound (g : Gossip) : Option Gossip :=
  match g.scope with
  | .neighbors => none
  | .swarm round => some { g with scope := .swarm round.next }

def validate (blake3 : Bytes → MessageId) (g : Gossip) : Bool := blake3 g.content = g.id

end Gossip

structure IHave where
  id : MessageId
  round : Round
  deriving DecidableEq

/-- `IHave::POSTCARD_MAX_SIZE`: the id, and a `u16` of at most three bytes. -/
def IHave.postcardMaxSize : Nat := 32 + 3

structure Graft where
  id : Option MessageId
  round : Round
  deriving DecidableEq

inductive Message where
  | gossip (details : Gossip)
  | prune
  | graft (details : Graft)
  | iHave (details : List IHave)
  deriving DecidableEq

inductive Timer where
  | sendGraft (id : MessageId)
  | dispatchLazyPush
  | evictCache
  deriving DecidableEq

inductive InEvent (PI : Type) where
  | recvMessage (sender : PI) (message : Message)
  | broadcast (data : Bytes) (scope : Scope)
  | timerExpired (timer : Timer)
  | neighborUp (peer : PI)
  | neighborDown (peer : PI)

structure GossipEvent (PI : Type) where
  content : Bytes
  deliveredFrom : PI
  scope : DeliveryScope
  deriving DecidableEq

def GossipEvent.fromMessage {PI : Type} (message : Gossip) (sender : PI) : GossipEvent PI :=
  ⟨message.content, sender, message.scope⟩

inductive Event (PI : Type) where
  | received (event : GossipEvent PI)

inductive OutEvent (PI : Type) where
  | sendMessage (receiver : PI) (message : Message)
  | scheduleTimer (delay : Duration) (timer : Timer)
  | emitEvent (event : Event PI)

/-! ## State -/

structure Config where
  graftTimeout1 : Duration
  graftTimeout2 : Duration
  dispatchTimeout : Duration
  optimizationThreshold : Round
  messageCacheRetention : Duration
  messageIdRetention : Duration
  cacheEvictInterval : Duration

def Config.default : Config where
  graftTimeout1 := 80
  graftTimeout2 := 40
  dispatchTimeout := 5
  optimizationThreshold := ⟨7⟩
  messageCacheRetention := 30000
  messageIdRetention := 90000
  cacheEvictInterval := 1000

abbrev PeerSet (PI : Type) [LinearOrder PI] := Table PI Unit

structure State (PI : Type) [LinearOrder PI] where
  me : PI
  config : Config
  eagerPushPeers : PeerSet PI
  lazyPushPeers : PeerSet PI
  lazyPushQueue : Table PI (List IHave)
  missingMessages : Table MessageId (List (PI × Round))
  receivedMessages : TimeBoundCache MessageId Unit
  cache : TimeBoundCache MessageId Gossip
  graftTimerScheduled : Finset MessageId
  dispatchTimerScheduled : Bool
  init : Bool
  maxMessageSize : Nat

variable {PI : Type} [LinearOrder PI]

def State.new (me : PI) (config : Config) (maxMessageSize : Nat) : State PI where
  me := me
  config := config
  eagerPushPeers := .empty
  lazyPushPeers := .empty
  lazyPushQueue := .empty
  missingMessages := .empty
  receivedMessages := .withCapacity maxDuplicateCacheEntries
  cache := .withCapacity maxCachedMessages
  graftTimerScheduled := ∅
  dispatchTimerScheduled := false
  init := false
  maxMessageSize := maxMessageSize

namespace State
variable (s : State PI) (peer : PI)

def addEager : State PI := { s with
  lazyPushPeers := s.lazyPushPeers.remove peer
  eagerPushPeers := s.eagerPushPeers.insert peer () }

def addLazy : State PI := { s with
  eagerPushPeers := s.eagerPushPeers.remove peer
  lazyPushPeers := s.lazyPushPeers.insert peer () }

def onNeighborDown : State PI := { s with
  missingMessages := s.missingMessages.rows.foldl (fun missing row =>
    let ihaves := row.2.filter fun ihave => ihave.1 ≠ peer
    if ihaves.isEmpty then missing.remove row.1 else missing.insert row.1 ihaves)
      s.missingMessages
  eagerPushPeers := s.eagerPushPeers.remove peer
  lazyPushPeers := s.lazyPushPeers.remove peer }

end State

abbrev Node (PI : Type) [LinearOrder PI] := Io (State PI) (OutEvent PI)

namespace Node
variable (blake3 : Bytes → MessageId) (now : Instant) (x : Node PI)

def onEvictCacheTimer : Node PI :=
  (x.modify fun s => { s with
    cache := s.cache.expireUntil now
    receivedMessages := s.receivedMessages.expireUntil now }).push
      (.scheduleTimer x.state.config.cacheEvictInterval .evictCache)

def chunks {α : Type} (n : Nat) (l : List α) : List (List α) :=
  (List.range ((l.length + n - 1) / n)).map fun i => (l.drop (i * n)).take n

/-- Sends the queued announcements. The length of a chunk is positive in a valid configuration. -/
def onDispatchTimer : Node PI :=
  -- space for the discriminator and the length of the list
  let chunkSize := x.state.maxMessageSize - 1 - 2
  let chunkLen := chunkSize / IHave.postcardMaxSize
  let y := x.state.lazyPushQueue.rows.foldl (fun y row =>
    (chunks chunkLen row.2).foldl (fun y chunk => y.push (.sendMessage row.1 (.iHave chunk))) y) x
  y.modify fun s => { s with lazyPushQueue := .empty, dispatchTimerScheduled := false }

def eagerPush (gossip : Gossip) (sender : PI) : Node PI :=
  (x.state.eagerPushPeers.rows.filter fun row =>
    row.1 ≠ x.state.me ∧ row.1 ≠ sender).foldl
      (fun y row => y.push (.sendMessage row.1 (.gossip gossip))) x

/-- Queues the announcement of a message to the lazy peers. -/
def lazyPush (gossip : Gossip) (sender : PI) : Node PI :=
  match gossip.round with
  | none => x
  | some round =>
    let lazyPushQueue := (x.state.lazyPushPeers.rows.filter fun row => row.1 ≠ sender).foldl
      (fun queues row =>
        let queue := (queues.get row.1).getD []
        queues.insert row.1 (if queue.length < maxLazyQueuePerPeer then
          queue ++ [⟨gossip.id, round⟩] else queue)) x.state.lazyPushQueue
    let y := x.modify fun s => { s with lazyPushQueue := lazyPushQueue }
    if y.state.dispatchTimerScheduled then y
    else (y.push (.scheduleTimer y.state.config.dispatchTimeout .dispatchLazyPush)).modify fun s =>
      { s with dispatchTimerScheduled := true }

def broadcast (content : Bytes) (scope : Scope) : Node PI :=
  let id := blake3 content
  let me := x.state.me
  match scope with
  | .neighbors => eagerPush x ⟨id, content, .neighbors⟩ me
  | .swarm =>
    let message : Gossip := ⟨id, content, .swarm ⟨0⟩⟩
    let y := x.modify fun s => { s with
      receivedMessages := s.receivedMessages.insert id () (now + s.config.messageIdRetention)
      cache := s.cache.insert id message (now + s.config.messageCacheRetention) }
    eagerPush (lazyPush y message me) message me

/-- The announcement with the fewest hops, and the first of these. -/
def bestIHave (ihaves : List (PI × Round)) : Option (PI × Round) :=
  ihaves.foldl (fun best ihave =>
    match best with
    | none => some ihave
    | some b => if ihave.2.hops < b.2.hops then some ihave else some b) none

def optimizeTree (gossipSender : PI) (message : Gossip)
    (previousIHaves : List (PI × Round)) : Node PI :=
  match message.round, bestIHave previousIHaves with
  | some round, some (ihavePeer, ihaveRound) =>
    if ihaveRound.hops < round.hops ∧
        x.state.config.optimizationThreshold.hops ≤ round.hops - ihaveRound.hops then
      let y := if (x.state.eagerPushPeers.get ihavePeer).isSome then x
        else (x.modify fun s => s.addEager ihavePeer).push
          (.sendMessage ihavePeer (.graft ⟨none, ihaveRound⟩))
      (y.modify fun s => s.addLazy gossipSender).push (.sendMessage gossipSender .prune)
    else x
  | _, _ => x

variable (sender : PI)

/-- What `on_gossip` does with a new message of the swarm, whose round is increased already. -/
def forward (message : Gossip) : Node PI :=
  let y := x.modify fun s => { s with
    receivedMessages :=
      s.receivedMessages.insert message.id () (now + s.config.messageIdRetention)
    cache := s.cache.insert message.id message (now + s.config.messageCacheRetention) }
  let y := lazyPush (eagerPush y message sender) message sender
  let previousIHaves := y.state.missingMessages.get message.id
  let y := y.modify fun s => { s with
    graftTimerScheduled := s.graftTimerScheduled.erase message.id
    missingMessages := s.missingMessages.remove message.id }
  match previousIHaves with
  | none => y
  | some ihaves => optimizeTree y sender message ihaves

def onGossip (message : Gossip) : Node PI :=
  if !message.validate blake3 then x
  else if x.state.receivedMessages.containsKey message.id then
    (x.modify fun s => s.addLazy sender).push (.sendMessage sender .prune)
  else
    let y := match message.nextRound with
      | none => x
      | some next => forward now x sender next
    y.push (.emitEvent (.received (.fromMessage message sender)))

/-- One iteration of the loop of `on_ihave`. -/
def onIHaveEntry (sender : PI) (x : Node PI) (ihave : IHave) : Node PI :=
  let s := x.state
  if s.receivedMessages.containsKey ihave.id then x
  else if (s.missingMessages.get ihave.id).isNone ∧
      s.missingMessages.rows.length ≥ maxPendingMessages then x
  else
    let candidates := (s.missingMessages.get ihave.id).getD []
    if candidates.length ≥ maxGraftRetries ∨ candidates.any (fun c => c.1 = sender) then x
    else
      let y := x.modify fun s => { s with
        missingMessages := s.missingMessages.insert ihave.id (candidates ++ [(sender, ihave.round)]) }
      if ihave.id ∈ y.state.graftTimerScheduled then y
      else
        (y.modify fun s => { s with
          graftTimerScheduled := insert ihave.id s.graftTimerScheduled }).push
            (.scheduleTimer s.config.graftTimeout1 (.sendGraft ihave.id))

def onIHave (ihaves : List IHave) : Node PI :=
  (ihaves.take maxIHaveEntries).foldl (onIHaveEntry sender) x

def onSendGraftTimer (id : MessageId) : Node PI :=
  let y := x.modify fun s => { s with graftTimerScheduled := s.graftTimerScheduled.erase id }
  if y.state.receivedMessages.containsKey id then y
  else
    match y.state.missingMessages.get id with
    | some ((peer, round) :: entries) =>
      let y := y.modify fun s =>
        { s with missingMessages := s.missingMessages.insert id entries }.addEager peer
      (y.push (.sendMessage peer (.graft ⟨some id, round⟩))).push
        (.scheduleTimer y.state.config.graftTimeout2 (.sendGraft id))
    | _ => y

def onGraft (details : Graft) : Node PI :=
  let y := x.modify fun s => s.addEager sender
  match details.id with
  | none => y
  | some id =>
    match y.state.cache.get id with
    | none => y
    | some message => y.push (.sendMessage sender (.gossip message))

def handleMessage : Message → Node PI
  | .gossip details => onGossip blake3 now x sender details
  | .prune => x.modify fun s => s.addLazy sender
  | .iHave details => onIHave x sender details
  | .graft details => onGraft x sender details

/-- The caches are evicted before the first event. -/
def started : Node PI :=
  if x.state.init then x else onEvictCacheTimer now (x.modify fun s => { s with init := true })

/-- What is done with an event after that. -/
def react : InEvent PI → Node PI
  | .recvMessage sender message => handleMessage blake3 now x sender message
  | .broadcast data scope => broadcast blake3 now x data scope
  | .neighborUp peer => x.modify fun s => s.addEager peer
  | .neighborDown peer => x.modify fun s => s.onNeighborDown peer
  | .timerExpired .dispatchLazyPush => onDispatchTimer x
  | .timerExpired (.sendGraft id) => onSendGraftTimer x id
  | .timerExpired .evictCache => onEvictCacheTimer now x

def handle (event : InEvent PI) : Node PI := react blake3 now (started now x) event

lemma started_frame : (started now x).state.missingMessages = x.state.missingMessages ∧
      (started now x).state.config = x.state.config := by
  unfold started
  split
  · exact ⟨rfl, rfl⟩
  · exact ⟨rfl, rfl⟩

end Node

/-! ## Eager and lazy peers -/

def State.Disjoint (s : State PI) : Prop :=
  ∀ peer, (peer, ()) ∈ s.eagerPushPeers.rows → (peer, ()) ∉ s.lazyPushPeers.rows

/-- Neither set changes. -/
structure Same (x y : Node PI) : Prop where
  eager : y.state.eagerPushPeers = x.state.eagerPushPeers
  lazy : y.state.lazyPushPeers = x.state.lazyPushPeers

section
variable {x y : Node PI} {s : State PI}

lemma Same.disjoint (h : Same x y) (hx : x.state.Disjoint) : y.state.Disjoint := by
  unfold State.Disjoint
  rw [h.eager, h.lazy]
  exact hx

lemma State.disjoint_new (me : PI) (config : Config) (maxMessageSize : Nat) :
    (State.new me config maxMessageSize).Disjoint := by
  intro peer hpeer
  cases hpeer

lemma State.disjoint_addEager (h : s.Disjoint) (peer : PI) : (s.addEager peer).Disjoint := by
  intro q heag hlazy
  obtain ⟨hlazy, hne⟩ := Table.mem_remove.mp hlazy
  cases Table.mem_insert.mp heag with
  | inl heq => exact hne heq.1
  | inr hold => exact h q hold.2 hlazy

lemma State.disjoint_addLazy (h : s.Disjoint) (peer : PI) : (s.addLazy peer).Disjoint := by
  intro q heag hlazy
  obtain ⟨heag, hne⟩ := Table.mem_remove.mp heag
  cases Table.mem_insert.mp hlazy with
  | inl heq => exact hne heq.1
  | inr hold => exact h q heag hold.2

lemma State.disjoint_onNeighborDown (h : s.Disjoint) (peer : PI) :
    (s.onNeighborDown peer).Disjoint := by
  intro q heag hlazy
  exact h q (Table.mem_remove.mp heag).1 (Table.mem_remove.mp hlazy).1

lemma Node.same_started (now : Instant) (x : Node PI) : Same x (started now x) := by
  unfold started
  split
  · exact ⟨rfl, rfl⟩
  · exact ⟨rfl, rfl⟩

end
end Krikos.Gossip.PlumTree
