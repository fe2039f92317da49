import Krikos.Gossip.PlumTree
import Krikos.Lib.Run

/-!
# Gossip.Delivery

Which messages the broadcast layer hands to the application.

A message of the swarm is delivered when its id is not among the received ones, and then it is
(`react_effect` lists all that an event can do to them). So a message that was delivered, or
broadcast by the node itself, is delivered again only after its id has been forgotten, because it
was due at an eviction or because the cache was full (`delivered_once`).
-/

namespace Krikos.Gossip.PlumTree

open Lib State Node List TimeBoundCache

variable {PI : Type} [LinearOrder PI]

def deliveries (out : List (OutEvent PI)) : List (GossipEvent PI) :=
  out.filterMap fun
    | .emitEvent (.received event) => some event
    | _ => none

def scheduledGrafts (out : List (OutEvent PI)) : List MessageId :=
  out.filterMap fun
    | .scheduleTimer _ (.sendGraft id) => some id
    | _ => none

/-! ## What an event does to the received messages -/

/-- Nothing is delivered, and no message is remembered or forgotten. -/
structure Silent (x y : Node PI) : Prop where
  received : y.state.receivedMessages = x.state.receivedMessages
  config : y.state.config = x.state.config
  init : y.state.init = x.state.init
  deliveries : deliveries y.out = deliveries x.out

/-- Moreover, nothing changes about the missing messages. -/
structure Relays (x y : Node PI) : Prop extends Silent x y where
  missing : y.state.missingMessages = x.state.missingMessages
  scheduled : y.state.graftTimerScheduled = x.state.graftTimerScheduled
  grafts : scheduledGrafts y.out = scheduledGrafts x.out

section
variable {x y z : Node PI} {f : State PI → State PI}

omit [LinearOrder PI] in
lemma deliveries_append (out out' : List (OutEvent PI)) :
    deliveries (out ++ out') = deliveries out ++ deliveries out' := filterMap_append

omit [LinearOrder PI] in
lemma scheduledGrafts_append (out out' : List (OutEvent PI)) :
    scheduledGrafts (out ++ out') = scheduledGrafts out ++ scheduledGrafts out' :=
  filterMap_append

lemma Silent.refl (x : Node PI) : Silent x x := ⟨rfl, rfl, rfl, rfl⟩

lemma Silent.trans (h : Silent x y) (h' : Silent y z) : Silent x z :=
  ⟨h'.received.trans h.received, h'.config.trans h.config, h'.init.trans h.init,
    h'.deliveries.trans h.deliveries⟩

lemma silent_modify (hreceived : (f x.state).receivedMessages = x.state.receivedMessages)
    (hcon : (f x.state).config = x.state.config) (hinit : (f x.state).init = x.state.init) :
    Silent x (x.modify f) :=
  ⟨hreceived, hcon, hinit, rfl⟩

lemma silent_schedule (x : Node PI) (delay : Duration) (timer : Timer) :
    Silent x (x.push (.scheduleTimer delay timer)) :=
  ⟨rfl, rfl, rfl, (deliveries_append _ _).trans (append_nil _)⟩

lemma Relays.refl (x : Node PI) : Relays x x := ⟨.refl x, rfl, rfl, rfl⟩

lemma Relays.trans (h : Relays x y) (h' : Relays y z) : Relays x z :=
  ⟨h.toSilent.trans h'.toSilent, h'.missing.trans h.missing, h'.scheduled.trans h.scheduled,
    h'.grafts.trans h.grafts⟩

lemma relays_send (x : Node PI) (receiver : PI) (message : Message) :
    Relays x (x.push (.sendMessage receiver message)) :=
  ⟨⟨rfl, rfl, rfl, (deliveries_append _ _).trans (append_nil _)⟩, rfl, rfl,
    (scheduledGrafts_append _ _).trans (append_nil _)⟩

lemma relays_scheduleDispatch (x : Node PI) (delay : Duration) :
    Relays x (x.push (.scheduleTimer delay .dispatchLazyPush)) :=
  ⟨silent_schedule x delay _, rfl, rfl, (scheduledGrafts_append _ _).trans (append_nil _)⟩

lemma relays_modify (hreceived : (f x.state).receivedMessages = x.state.receivedMessages)
    (hcon : (f x.state).config = x.state.config) (hinit : (f x.state).init = x.state.init)
    (hmis : (f x.state).missingMessages = x.state.missingMessages)
    (hsched : (f x.state).graftTimerScheduled = x.state.graftTimerScheduled) :
    Relays x (x.modify f) :=
  ⟨silent_modify hreceived hcon hinit, hmis, hsched, rfl⟩

lemma relays_foldl {α : Type} {f : Node PI → α → Node PI} (h : ∀ x a, Relays x (f x a))
    (l : List α) (x : Node PI) : Relays x (l.foldl f x) :=
  foldlRecOn l f (.refl x) fun y hy a _ => hy.trans (h y a)

namespace Node
variable (x)

lemma relays_onDispatchTimer : Relays x (onDispatchTimer x) := by
  unfold onDispatchTimer
  refine Relays.trans ?_ (relays_modify rfl rfl rfl rfl rfl)
  exact relays_foldl (fun y _ => relays_foldl (fun z _ => relays_send z _ _) _ y) _ x

lemma relays_eagerPush (gossip : Gossip) (sender : PI) : Relays x (eagerPush x gossip sender) :=
  relays_foldl (fun y _ => relays_send y _ _) _ x

lemma relays_lazyPush (gossip : Gossip) (sender : PI) : Relays x (lazyPush x gossip sender) := by
  unfold lazyPush
  split
  · exact .refl x
  · simp only
    split
    · exact relays_modify rfl rfl rfl rfl rfl
    · refine Relays.trans ?_ (relays_modify rfl rfl rfl rfl rfl)
      exact Relays.trans (relays_modify rfl rfl rfl rfl rfl) (relays_scheduleDispatch _ _)

lemma relays_optimizeTree (sender : PI) (message : Gossip)
    (ihaves : List (PI × Round)) : Relays x (optimizeTree x sender message ihaves) := by
  unfold optimizeTree
  split
  · split
    · refine Relays.trans (Relays.trans ?_ (relays_modify rfl rfl rfl rfl rfl)) (relays_send _ _ _)
      split
      · exact .refl x
      · exact Relays.trans (relays_modify rfl rfl rfl rfl rfl) (relays_send _ _ _)
    · exact .refl x
  · exact .refl x

lemma relays_onGraft (sender : PI) (details : Graft) : Relays x (onGraft x sender details) := by
  have hadd : Relays x (x.modify fun s => s.addEager sender) := relays_modify rfl rfl rfl rfl rfl
  unfold onGraft
  simp only
  split
  · exact hadd
  · split
    · exact hadd
    · exact hadd.trans (relays_send _ _ _)

lemma silent_onIHave (sender : PI) (ihaves : List IHave) : Silent x (onIHave x sender ihaves) := by
  refine foldlRecOn _ (onIHaveEntry sender) (.refl x) fun y hy ihave _ => hy.trans ?_
  fun_cases onIHaveEntry sender y ihave with
  | case4 => exact silent_modify rfl rfl rfl
  | case5 =>
    refine Silent.trans ?_ (silent_schedule _ _ _)
    exact Silent.trans (silent_modify rfl rfl rfl) (silent_modify rfl rfl rfl)
  | _ => exact .refl y

lemma silent_onSendGraftTimer (id : MessageId) : Silent x (onSendGraftTimer x id) := by
  unfold onSendGraftTimer
  simp only
  split
  · exact silent_modify rfl rfl rfl
  · split
    · refine Silent.trans (Silent.trans ?_ (relays_send _ _ _).toSilent) (silent_schedule _ _ _)
      exact Silent.trans (silent_modify rfl rfl rfl) (silent_modify rfl rfl rfl)
    · exact silent_modify rfl rfl rfl

variable {x}

end Node
end

/-- What an event does to the received messages. -/
inductive Effect (blake3 : Bytes → MessageId) (now : Instant) (x y : Node PI) :
    InEvent PI → Prop
  | silent {event : InEvent PI} (hevent : ∀ content, event ≠ .broadcast content .swarm)
      (h : Silent x y) : Effect blake3 now x y event
  /-- A new message of a neighbor is delivered. -/
  | neighbors {sender : PI} {message : Gossip} (hvalid : message.validate blake3 = true)
      (hnew : x.state.receivedMessages.containsKey message.id = false)
      (hscope : message.scope = .neighbors)
      (hreceived : y.state.receivedMessages = x.state.receivedMessages)
      (hdeliveries : deliveries y.out = deliveries x.out ++ [.fromMessage message sender]) :
      Effect blake3 now x y (.recvMessage sender (.gossip message))
  /-- A new message of the swarm is delivered, and remembered. -/
  | swarm {sender : PI} {message : Gossip} (hvalid : message.validate blake3 = true)
      (hnew : x.state.receivedMessages.containsKey message.id = false)
      {round : Round} (hscope : message.scope = .swarm round)
      (hreceived : y.state.receivedMessages = x.state.receivedMessages.insert message.id ()
        (now + x.state.config.messageIdRetention))
      (hdeliveries : deliveries y.out = deliveries x.out ++ [.fromMessage message sender]) :
      Effect blake3 now x y (.recvMessage sender (.gossip message))
  /-- A message is broadcast in the swarm, and remembered. -/
  | broadcast {content : Bytes}
      (hreceived : y.state.receivedMessages = x.state.receivedMessages.insert (blake3 content) ()
        (now + x.state.config.messageIdRetention))
      (hdeliveries : deliveries y.out = deliveries x.out) :
      Effect blake3 now x y (.broadcast content .swarm)
  | evicted (hreceived : y.state.receivedMessages = x.state.receivedMessages.expireUntil now)
      (hdeliveries : deliveries y.out = deliveries x.out) :
      Effect blake3 now x y (.timerExpired .evictCache)

section
variable (blake3 : Bytes → MessageId) (now : Instant) {x : Node PI}
variable (x)

/-- A message of the swarm is remembered, and everything else is silent. -/
lemma Node.forward_effect (sender : PI) (next : Gossip) :
    (forward now x sender next).state.receivedMessages = x.state.receivedMessages.insert next.id ()
        (now + x.state.config.messageIdRetention) ∧
      (forward now x sender next).state.config = x.state.config ∧
      (forward now x sender next).state.init = x.state.init ∧
      deliveries (forward now x sender next).out = deliveries x.out := by
  obtain ⟨y, hy⟩ : ∃ y, (x.modify fun s => { s with
    receivedMessages := s.receivedMessages.insert next.id () (now + s.config.messageIdRetention)
    cache := s.cache.insert next.id next (now + s.config.messageCacheRetention) }) = y := ⟨_, rfl⟩
  have hsil : Silent y (forward now x sender next) := by
    have hpush : Silent y (lazyPush (eagerPush y next sender) next sender) :=
      ((relays_eagerPush y next sender).trans (relays_lazyPush _ next sender)).toSilent
    unfold forward
    simp only [hy]
    generalize lazyPush (eagerPush y next sender) next sender = z at hpush ⊢
    split
    · exact hpush.trans (silent_modify rfl rfl rfl)
    · exact (hpush.trans (silent_modify rfl rfl rfl)).trans (relays_optimizeTree _ _ _ _).toSilent
  subst hy
  exact ⟨hsil.received, hsil.config, hsil.init, hsil.deliveries⟩

lemma Node.onGossip_effect (sender : PI) (message : Gossip) :
    Effect blake3 now x (onGossip blake3 now x sender message)
        (.recvMessage sender (.gossip message)) ∧
      (onGossip blake3 now x sender message).state.config = x.state.config ∧
      (onGossip blake3 now x sender message).state.init = x.state.init := by
  have hpush : ∀ y : Node PI, deliveries (y.push
      (.emitEvent (.received (.fromMessage message sender)))).out =
        deliveries y.out ++ [.fromMessage message sender] := fun y => deliveries_append _ _
  unfold onGossip
  cases hvalid : message.validate blake3 with
  | false => exact ⟨.silent nofun (.refl x), rfl, rfl⟩
  | true =>
    cases hnew : x.state.receivedMessages.containsKey message.id with
    | true =>
      have hlazy : Silent x ((x.modify fun s => s.addLazy sender).push (.sendMessage sender .prune)) :=
        Silent.trans (silent_modify rfl rfl rfl) (relays_send _ _ _).toSilent
      exact ⟨.silent nofun hlazy, hlazy.config, hlazy.init⟩
    | false =>
      simp only [Bool.not_true, Bool.false_eq_true, if_false]
      cases hscope : message.scope with
      | neighbors =>
        simp only [Gossip.nextRound, hscope]
        exact ⟨.neighbors hvalid hnew hscope rfl (hpush x), rfl, rfl⟩
      | swarm round =>
        simp only [Gossip.nextRound, hscope]
        obtain ⟨hreceived, hcon, hinit, hout⟩ := forward_effect now x sender
          { message with scope := .swarm round.next }
        refine ⟨.swarm hvalid hnew hscope hreceived ?_, hcon, hinit⟩
        rw [hpush, hout]

lemma Node.broadcast_effect (content : Bytes) (scope : Scope) :
    Effect blake3 now x (broadcast blake3 now x content scope) (.broadcast content scope) ∧
      (broadcast blake3 now x content scope).state.config = x.state.config ∧
      (broadcast blake3 now x content scope).state.init = x.state.init := by
  unfold broadcast
  cases scope with
  | neighbors =>
    have hpush := (relays_eagerPush x ⟨blake3 content, content, .neighbors⟩ x.state.me).toSilent
    exact ⟨.silent nofun hpush, hpush.config, hpush.init⟩
  | swarm =>
    simp only
    generalize hy : (x.modify fun s => { s with
      receivedMessages := s.receivedMessages.insert (blake3 content) ()
        (now + s.config.messageIdRetention)
      cache := s.cache.insert (blake3 content) ⟨blake3 content, content, .swarm ⟨0⟩⟩
        (now + s.config.messageCacheRetention) }) = y
    have hpush : Silent y (eagerPush (lazyPush y ⟨blake3 content, content, .swarm ⟨0⟩⟩ x.state.me)
        ⟨blake3 content, content, .swarm ⟨0⟩⟩ x.state.me) :=
      ((relays_lazyPush y _ _).trans (relays_eagerPush _ _ _)).toSilent
    subst hy
    exact ⟨.broadcast hpush.received hpush.deliveries, hpush.config, hpush.init⟩

/-- **Main lemma.** All that an event does to the received messages. -/
lemma Node.react_effect (event : InEvent PI) :
    Effect blake3 now x (react blake3 now x event) event ∧
      (react blake3 now x event).state.config = x.state.config ∧
      (react blake3 now x event).state.init = x.state.init := by
  have hsil : ∀ {y : Node PI} {event : InEvent PI},
      (∀ content, event ≠ .broadcast content .swarm) → Silent x y → Effect blake3 now x y event ∧
        y.state.config = x.state.config ∧ y.state.init = x.state.init :=
    fun hevent h => ⟨.silent hevent h, h.config, h.init⟩
  cases event with
  | recvMessage sender message =>
    cases message with
    | gossip details => exact onGossip_effect blake3 now x sender details
    | prune => exact hsil nofun (silent_modify (f := fun s => s.addLazy sender) rfl rfl rfl)
    | graft details => exact hsil nofun (relays_onGraft x sender details).toSilent
    | iHave details => exact hsil nofun (silent_onIHave x sender details)
  | broadcast data scope => exact broadcast_effect blake3 now x data scope
  | timerExpired timer =>
    cases timer with
    | sendGraft id => exact hsil nofun (silent_onSendGraftTimer x id)
    | dispatchLazyPush => exact hsil nofun (relays_onDispatchTimer x).toSilent
    | evictCache =>
      have hsch := silent_schedule (x.modify fun s => { s with
        cache := s.cache.expireUntil now
        receivedMessages := s.receivedMessages.expireUntil now })
          x.state.config.cacheEvictInterval .evictCache
      exact ⟨.evicted hsch.received hsch.deliveries, rfl, rfl⟩
  | neighborUp peer => exact hsil nofun (silent_modify (f := fun s => s.addEager peer) rfl rfl rfl)
  | neighborDown peer =>
    exact hsil nofun (silent_modify (f := fun s => s.onNeighborDown peer) rfl rfl rfl)

variable {x}

end

/-! ## Runs -/

variable (blake3 : Bytes → MessageId) (s : State PI) (event : InEvent PI × Instant)

def State.step : State PI :=
  (handle blake3 event.2 ⟨s, []⟩ event.1).state

def State.delivered : List (GossipEvent PI) :=
  deliveries (handle blake3 event.2 ⟨s, []⟩ event.1).out

/-- A message is delivered that was sent to the swarm, or broadcast to it by the node itself. -/
def State.remembers (id : MessageId) : Bool :=
  (s.delivered blake3 event).any (fun e => blake3 e.content = id && e.scope != .neighbors) ||
    match event.1 with
    | .broadcast data .swarm => blake3 data = id
    | _ => false

/-- When a message was last remembered in a run, if it was at `time` before. -/
def State.rememberedAt (blake3 : Bytes → MessageId) (id : MessageId) :
    State PI → Instant → List (InEvent PI × Instant) → Instant
  | _, time, [] => time
  | s, time, event :: events =>
    rememberedAt blake3 id (s.step blake3 event)
      (if s.remembers blake3 event id then event.2 else time) events

/-- The reasons to forget a message that was last remembered at `time`: it is due at an eviction, or
another one is remembered while the cache is full. -/
inductive State.Forgets (blake3 : Bytes → MessageId) (id : MessageId) (time : Instant)
    (s : State PI) : InEvent PI × Instant → Prop
  | expired {now : Instant} (h : time + s.config.messageIdRetention ≤ now) :
      Forgets blake3 id time s (.timerExpired .evictCache, now)
  | pushedOut {event : InEvent PI × Instant} {id' : MessageId} (hne : id' ≠ id)
      (h : s.remembers blake3 event id' = true)
      (hfull : s.receivedMessages.capacity ≤ s.receivedMessages.map.rows.length) :
      Forgets blake3 id time s event

/-- In the run, a message that was last remembered at `time` is forgotten for one of the reasons. -/
def State.Forgotten (id : MessageId) (s : State PI) (time : Instant)
    (events : List (InEvent PI × Instant)) : Prop :=
  ∃ before event after, events = before ++ event :: after ∧
    (run (step blake3) s before).receivedMessages.containsKey id = true ∧
    ((run (step blake3) s before).step blake3 event).receivedMessages.containsKey id = false ∧
    (run (step blake3) s before).Forgets blake3 id (s.rememberedAt blake3 id time before) event

section
variable {s : State PI} {id : MessageId} {time : Instant} {event : InEvent PI × Instant}
  {delivery : GossipEvent PI}

lemma Node.started_spec (now : Instant) (s : State PI) :
    deliveries (started now ⟨s, []⟩).out = [] ∧ (started now ⟨s, []⟩).state.config = s.config ∧
      (started now ⟨s, []⟩).state.init = true ∧
      (s.init = true → (started now ⟨s, []⟩).state = s) := by
  unfold started
  cases hinit : s.init with
  | true => exact ⟨rfl, rfl, hinit, fun _ => rfl⟩
  | false => exact ⟨rfl, rfl, rfl, fun h => absurd h Bool.false_ne_true⟩

lemma State.step_frame (s : State PI) (event : InEvent PI × Instant) :
    (s.step blake3 event).init = true ∧ (s.step blake3 event).config = s.config := by
  obtain ⟨-, hconfig, hinit⟩ := react_effect blake3 event.2 (started event.2 ⟨s, []⟩) event.1
  unfold step
  rw [handle, hconfig, hinit]
  exact ⟨(started_spec event.2 s).2.2.1, (started_spec event.2 s).2.1⟩

lemma State.delivered_valid (h : delivery ∈ s.delivered blake3 event) :
    ∃ sender message, event.1 = .recvMessage sender (.gossip message) ∧
      message.validate blake3 = true ∧ delivery = .fromMessage message sender ∧
      (started event.2 ⟨s, []⟩).state.receivedMessages.containsKey message.id = false := by
  obtain ⟨event, now⟩ := event
  have heff := (react_effect blake3 now (started now ⟨s, []⟩) event).1
  have hout := (started_spec now s).1
  unfold delivered at h
  rw [handle] at h
  generalize started now ⟨s, []⟩ = x at heff hout h ⊢
  generalize react blake3 now x event = y at heff h
  have hnone : ∀ {l : List (GossipEvent PI)}, deliveries y.out = deliveries x.out ++ l →
      delivery ∈ l := by
    intro l hl
    rw [hl, hout] at h
    exact h
  cases heff with
  | silent hevent hsil =>
    rw [hsil.deliveries, hout] at h
    cases h
  | neighbors hvalid hnew hscope hreceived hdeliveries
  | swarm hvalid hnew hscope hreceived hdeliveries =>
    exact ⟨_, _, rfl, hvalid, mem_singleton.mp (hnone hdeliveries), hnew⟩
  | broadcast hreceived hdeliveries | evicted hreceived hdeliveries =>
    rw [hdeliveries, hout] at h
    cases h

lemma State.remembers_swarm {sender : PI} {message : Gossip} {now : Instant} {round : Round}
    (hvalid : message.validate blake3 = true) (hscope : message.scope = .swarm round)
    (h : s.delivered blake3 (.recvMessage sender (.gossip message), now) =
      [.fromMessage message sender]) :
    s.remembers blake3 (.recvMessage sender (.gossip message), now) message.id = true := by
  have hid : blake3 message.content = message.id := of_decide_eq_true hvalid
  simp [remembers, h, GossipEvent.fromMessage, hid, hscope]

lemma State.step_remembers (h : s.remembers blake3 event id = true) :
    (s.step blake3 event).receivedMessages.map.get id =
      some (event.2 + s.config.messageIdRetention, ()) := by
  obtain ⟨event, now⟩ := event
  have heff := (react_effect blake3 now (started now ⟨s, []⟩) event).1
  obtain ⟨hout, hcon, -, -⟩ := started_spec now s
  unfold step remembers delivered at *
  rw [handle] at h ⊢
  generalize started now ⟨s, []⟩ = x at heff hout hcon h ⊢
  generalize react blake3 now x event = y at heff h ⊢
  rw [← hcon]
  cases heff with
  | silent hevent hsil =>
    rw [hsil.deliveries, hout] at h
    simp only [any_nil, Bool.false_or] at h
    cases h
  | neighbors hvalid hnew hscope hreceived hdeliveries =>
    rw [hdeliveries, hout] at h
    simp [GossipEvent.fromMessage, hscope] at h
  | swarm hvalid hnew hscope hreceived hdeliveries =>
    rename_i sender message round
    have hid : blake3 message.content = message.id := of_decide_eq_true hvalid
    rw [hdeliveries, hout] at h
    simp only [nil_append, any_cons, GossipEvent.fromMessage, hid, hscope, any_nil,
      Bool.or_false, Bool.and_eq_true, decide_eq_true_eq] at h
    rw [hreceived, ← h.1]
    exact get_insert_self
  | broadcast hreceived hdeliveries =>
    rw [hdeliveries, hout] at h
    simp only [any_nil, Bool.false_or, decide_eq_true_eq] at h
    rw [hreceived, h]
    exact get_insert_self
  | evicted hreceived hdeliveries =>
    rw [hdeliveries, hout] at h
    cases h

lemma State.step_keeps (hinit : s.init = true)
    (hs : s.receivedMessages.map.get id = some (time + s.config.messageIdRetention, ()))
    (h : s.remembers blake3 event id = false) : (s.step blake3 event).receivedMessages.map.get id =
        some (time + s.config.messageIdRetention, ()) ∨
      (s.step blake3 event).receivedMessages.map.get id = none ∧ s.Forgets blake3 id time event := by
  obtain ⟨event, now⟩ := event
  have heff := (react_effect blake3 now (started now ⟨s, []⟩) event).1
  obtain ⟨hout, -, -, hstar⟩ := started_spec now s
  have hx := hstar hinit
  have hdel : s.delivered blake3 (event, now) =
      deliveries (react blake3 now (started now ⟨s, []⟩) event).out :=
    congrArg (fun y : Node PI => deliveries y.out) rfl
  unfold step
  rw [handle]
  generalize started now ⟨s, []⟩ = x at heff hout hx hdel ⊢
  generalize react blake3 now x event = y at heff hdel ⊢
  have hsame : y.state.receivedMessages = x.state.receivedMessages →
      y.state.receivedMessages.map.get id = some (time + s.config.messageIdRetention, ()) := by
    intro hreceived
    rw [hreceived, hx]
    exact hs
  have hins : ∀ {id' : MessageId} {expires : Instant},
      s.remembers blake3 (event, now) id' = true →
      y.state.receivedMessages = x.state.receivedMessages.insert id' () expires →
      y.state.receivedMessages.map.get id = some (time + s.config.messageIdRetention, ()) ∨
        y.state.receivedMessages.map.get id = none ∧ s.Forgets blake3 id time (event, now) := by
    intro id' expires hrem hreceived
    have hne : id' ≠ id := by
      rintro rfl
      exact Bool.false_ne_true (h.symm.trans hrem)
    rw [hreceived, hx, ← hs]
    refine (get_insert_of_ne (Ne.symm hne)).imp_right fun hgone => ?_
    exact ⟨hgone.1, .pushedOut hne hrem hgone.2⟩
  cases heff with
  | silent hevent hsil => exact .inl (hsame hsil.received)
  | neighbors hvalid hnew hscope hreceived hdeliveries => exact .inl (hsame hreceived)
  | swarm hvalid hnew hscope hreceived hdeliveries =>
    rw [hdeliveries, hout] at hdel
    exact hins (remembers_swarm blake3 hvalid hscope hdel) hreceived
  | broadcast hreceived hdeliveries =>
    refine hins ?_ hreceived
    simp only [remembers, decide_true, Bool.or_true]
  | evicted hreceived hdeliveries =>
    rw [hreceived, hx, ← hs]
    refine get_expireUntil.imp_right fun hgone => ?_
    obtain ⟨hnone, entry, hent, hdue⟩ := hgone
    cases hs.symm.trans hent
    exact ⟨hnone, .expired hdue⟩

lemma State.forgotten_between {second : InEvent PI × Instant}
    (mid : List (InEvent PI × Instant)) (hinit : s.init = true)
    (hs : s.receivedMessages.map.get id = some (time + s.config.messageIdRetention, ()))
    (hdelivery : delivery ∈ (run (step blake3) s mid).delivered blake3 second)
    (hid : blake3 delivery.content = id) : s.Forgotten blake3 id time mid := by
  induction mid generalizing s time with
  | nil =>
    obtain ⟨sender, message, -, hvalid, hfrom, hnew⟩ :=
      delivered_valid blake3 (s := s) hdelivery
    have hmes : message.id = id := by
      rw [← hid, hfrom]
      exact (of_decide_eq_true hvalid).symm
    rw [(started_spec second.2 s).2.2.2 hinit, containsKey, hmes, hs] at hnew
    cases hnew
  | cons event mid ih =>
    have hlat : ∀ {time' : Instant}, (s.step blake3 event).receivedMessages.map.get id =
          some (time' + s.config.messageIdRetention, ()) →
        (if s.remembers blake3 event id then event.2 else time) = time' →
        s.Forgotten blake3 id time (event :: mid) := by
      intro time' hget htime
      rw [← (step_frame blake3 s event).2] at hget
      obtain ⟨before, event', after, hmid, hbef, haft, hforg⟩ :=
        ih (step_frame blake3 s event).1 hget hdelivery
      refine ⟨event :: before, event', after, congrArg (cons event) hmid, hbef, haft, ?_⟩
      rw [rememberedAt, htime]
      exact hforg
    cases hrem : s.remembers blake3 event id with
    | true => exact hlat (step_remembers blake3 hrem) (if_pos hrem)
    | false =>
      have htime : (if s.remembers blake3 event id then event.2 else time) = time := by
        rw [hrem]
        rfl
      cases step_keeps blake3 hinit hs hrem with
      | inl hkept => exact hlat hkept htime
      | inr hfor =>
        refine ⟨[], event, mid, rfl, ?_, ?_, hfor.2⟩
        · simp only [run, foldl_nil, containsKey, hs, Option.isSome_some]
        · simp only [run, foldl_nil, containsKey, hfor.1, Option.isSome_none]

/-- If a message of the swarm is delivered or broadcast by the node, and then
delivered, it was forgotten in between: at an eviction when its retention time was over, or because
the cache was full. A message whose id is not that of its content is never delivered. -/
theorem delivered_once (me : PI) (config : Config) (maxMessageSize : Nat) :
    (∀ (pre mid : List (InEvent PI × Instant)) (first second : InEvent PI × Instant)
        (id : MessageId) (delivery : GossipEvent PI),
      (run (step blake3) (new me config maxMessageSize) pre).remembers blake3 first id →
      delivery ∈ (run (step blake3) (new me config maxMessageSize)
        (pre ++ first :: mid)).delivered blake3 second →
      blake3 delivery.content = id →
      (run (step blake3) (new me config maxMessageSize) (pre ++ [first])).Forgotten
        blake3 id first.2 mid) ∧
    ∀ (pre : List (InEvent PI × Instant)) (event : InEvent PI × Instant) (delivery : GossipEvent PI),
      delivery ∈ (run (step blake3) (new me config maxMessageSize) pre).delivered blake3 event →
      ∃ sender message, event.1 = .recvMessage sender (.gossip message) ∧
        blake3 message.content = message.id ∧ delivery = .fromMessage message sender := by
  constructor
  · intro pre mid first second id delivery hfirst hdelivery hid
    rw [run_append] at hdelivery ⊢
    have hget := step_remembers blake3 hfirst
    rw [← (step_frame blake3 _ first).2] at hget
    exact forgotten_between blake3 mid (step_frame blake3 _ first).1 hget hdelivery hid
  · intro pre event delivery hdelivery
    obtain ⟨sender, message, hevent, hvalid, hfrom, -⟩ := delivered_valid blake3 hdelivery
    exact ⟨sender, message, hevent, of_decide_eq_true hvalid, hfrom⟩

end

def arrival : InEvent Nat := .recvMessage 1 (.gossip ⟨.zero 32, [7], .swarm ⟨0⟩⟩)

/-- A message is delivered again after its retention time. -/
theorem delivered_once_evicted :
    (new 0 .default 4096).remembers (fun _ => .zero 32) (arrival, 0) (.zero 32) = true ∧
    (run (step fun _ => .zero 32) (new 0 .default 4096)
      [(arrival, 0), (.timerExpired .evictCache, 90000)]).delivered (fun _ => .zero 32)
        (arrival, 90001) = [⟨[7], 1, .swarm ⟨0⟩⟩] ∧
    (run (step fun _ => .zero 32) (new 0 .default 4096) [(arrival, 0)]).Forgotten
      (fun _ => .zero 32) (.zero 32) 0 [(.timerExpired .evictCache, 90000)] := by
  refine ⟨?first, ?second, (delivered_once (fun _ => .zero 32) 0 .default 4096).1 [] _ _
    (arrival, 90001) _ ⟨[7], 1, .swarm ⟨0⟩⟩ ?first (?second ▸ mem_singleton_self _) rfl⟩
  · decide +kernel
  · decide +kernel

end Krikos.Gossip.PlumTree
