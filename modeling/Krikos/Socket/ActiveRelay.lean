import Krikos.Lib.Run
import Mathlib.Data.Finset.Basic

/-!
# Socket.ActiveRelay

The actor of one relay connection (`actor/connect.rs`, `actor/session.rs`). A poll of the actor
takes the first branch of its `select!` that is ready.

A route that was given up comes back with a datagram only if the datagram before it had another
sender (`answers_routed`). While the actor dials, its deadline moves with every tick of an
interval, also if no datagram was taken (`inactive_after_last_taken`). Between two attempts it waits
for a timer alone, and at the end for its connection to close (`answers_and_stops`).
-/

namespace Krikos.Socket

open Lib

abbrev Millis := Nat

def relayInactiveCleanupTime : Millis := 60 * 1000

variable {E : Type} [DecidableEq E]

/-! ## Messages of the relay -/

/-- Other messages are logged at most. -/
inductive RelayToClientMsg (E : Type) where
  | datagrams (remoteEndpointId : E)
  | endpointGone (endpointId : E)
  | ping
  | pong
  | other

/-- `received` is what came on this connection. -/
structure ConnectedRelayState (E : Type) where
  received : List (RelayToClientMsg E) := []
  endpointsPresent : Finset E := ∅
  lastPacketSrc : Option E := none
  pongPending : Bool := false
  established : Bool := false

namespace ConnectedRelayState

def handleRelayMsg (state : ConnectedRelayState E) (msg : RelayToClientMsg E) :
    ConnectedRelayState E :=
  let state := { state with received := state.received ++ [msg] }
  match msg with
  | .datagrams src =>
    if state.lastPacketSrc = some src then state
    else { state with
      lastPacketSrc := some src
      endpointsPresent := insert src state.endpointsPresent }
  | .endpointGone id => { state with endpointsPresent := state.endpointsPresent.erase id }
  | .ping => { state with pongPending := true }
  | .pong => { state with established := true }
  | .other => state

/-- A datagram of the peer came, and no notice since that it is gone. -/
def Routed (peer : E) (msgs : List (RelayToClientMsg E)) : Prop :=
  ∃ before after, msgs = before ++ .datagrams peer :: after ∧ .endpointGone peer ∉ after

def lastSender (msgs : List (RelayToClientMsg E)) : Option E :=
  (msgs.filterMap fun
    | .datagrams src => some src
    | _ => none).getLast?

/-- The sender of the datagram before a datagram is not gone if it is the sender of this one,
too. -/
def Fresh (msgs : List (RelayToClientMsg E)) : Prop :=
  ∀ before after src, msgs = before ++ .datagrams src :: after → lastSender before = some src →
    Routed src before

variable {peer : E} {msgs : List (RelayToClientMsg E)} {state : ConnectedRelayState E}
  {msg : RelayToClientMsg E}

omit [DecidableEq E] in
lemma routed_concat : Routed peer (msgs ++ [msg]) ↔
    msg = .datagrams peer ∨ Routed peer msgs ∧ msg ≠ .endpointGone peer := by
  constructor
  · rintro ⟨before, after, heq, hgone⟩
    rcases List.eq_nil_or_concat' after with rfl | ⟨init, last, rfl⟩
    · exact .inl (List.singleton_inj.mp (List.append_inj' heq rfl).2)
    · rw [← List.cons_append, ← List.append_assoc] at heq
      obtain ⟨hinit, hlast⟩ := List.append_inj' heq rfl
      cases hlast
      rw [List.mem_append, not_or, List.mem_singleton] at hgone
      exact .inr ⟨⟨before, init, hinit, hgone.1⟩, Ne.symm hgone.2⟩
  · rintro (rfl | ⟨⟨before, after, rfl, hgone⟩, hne⟩)
    · exact ⟨msgs, [], rfl, List.not_mem_nil⟩
    · refine ⟨before, after ++ [msg], by simp, ?_⟩
      simp [hgone, Ne.symm hne]

omit [DecidableEq E] in
lemma Fresh.of_concat (h : Fresh (msgs ++ [msg])) : Fresh msgs := fun before after src heq =>
  h before (after ++ [msg]) src (by rw [heq, List.append_assoc, List.cons_append])

/-- What the state has of the messages. -/
structure Follows (state : ConnectedRelayState E) : Prop where
  last : state.lastPacketSrc = lastSender state.received
  present : Fresh state.received →
    ∀ peer, peer ∈ state.endpointsPresent ↔ Routed peer state.received

omit [DecidableEq E] in
lemma follows_empty : ({} : ConnectedRelayState E).Follows :=
  ⟨rfl, by simp [Routed]⟩

lemma Follows.handleRelayMsg (h : state.Follows) (msg : RelayToClientMsg E) :
    (state.handleRelayMsg msg).Follows := by
  cases msg with
  | datagrams src =>
    simp only [ConnectedRelayState.handleRelayMsg]
    split
    · rename_i hlast
      refine ⟨hlast.trans (by simp [lastSender]), fun hfresh peer => ?_⟩
      have hsrc : Routed src state.received :=
        hfresh state.received [] src rfl (h.last.symm.trans hlast)
      simp only [routed_concat, h.present hfresh.of_concat, RelayToClientMsg.datagrams.injEq]
      grind
    · refine ⟨by simp [lastSender], fun hfresh peer => ?_⟩
      simp [routed_concat, h.present hfresh.of_concat, eq_comm]
  | endpointGone id =>
    refine ⟨h.last.trans (by simp [ConnectedRelayState.handleRelayMsg, lastSender]),
      fun hfresh peer => ?_⟩
    simp [ConnectedRelayState.handleRelayMsg, routed_concat, h.present hfresh.of_concat, eq_comm,
      and_comm]
  | ping | pong | other =>
    refine ⟨h.last.trans (by simp [ConnectedRelayState.handleRelayMsg, lastSender]),
      fun hfresh peer => ?_⟩
    simp [ConnectedRelayState.handleRelayMsg, routed_concat, h.present hfresh.of_concat]

end ConnectedRelayState

/-! ## The actor -/

/-- What a channel has for its receiver. -/
inductive Recv (A : Type) where
  | pending
  | closed
  | msg (a : A)

inductive ActiveRelayMessage where
  | setHomeRelay (isHome : Bool)
  /-- Whether the connection has one of the given local addresses. -/
  | checkConnection (isLocal : Bool)

/-- What the branches find when the actor is polled: the time, the inboxes, whether datagrams to
send are queued, the results of dialing and sending, what the relay has sent (`closed` is an error
as well), the timers that are due, and whether the sink has closed. -/
structure Poll (E : Type) where
  now : Millis
  stop : Bool := false
  prioInbox : Recv E := .pending
  inbox : Recv ActiveRelayMessage := .pending
  datagramsSend : Recv Unit := .pending
  dialed : Option Bool := none
  sent : Option Bool := none
  received : Recv (RelayToClientMsg E) := .pending
  flush : Bool := false
  pingInterval : Bool := false
  pingTimeout : Bool := false
  sendTimeout : Bool := false
  retry : Bool := false
  closed : Bool := false

/-- Of what the actor looks at while it dials or is connected, nothing but the deadline is ready,
and the sink closes at once. -/
structure Poll.Quiet (p : Poll E) : Prop where
  running : p.stop = false
  inboxes : p.prioInbox = .pending ∧ p.inbox = .pending ∧ p.datagramsSend = .pending
  network : p.dialed = none ∧ p.received = .pending ∧ p.closed = true
  timers : p.flush = false ∧ p.pingInterval = false ∧ p.pingTimeout = false

inductive Phase (E : Type) where
  | dialing
  /-- Between two attempts to connect. -/
  | waiting
  | connected (state : ConnectedRelayState E)
  | sending (state : ConnectedRelayState E)
  /-- Waits for the sink of the connection to close, and for nothing else. -/
  | closing
  | exited

/-- `lastTaken` is the start of the actor, or the last time that it took datagrams to send. -/
structure ActiveRelayActor (E : Type) where
  phase : Phase E
  isHomeRelay : Bool
  inactiveTimeout : Millis
  lastTaken : Millis

namespace ActiveRelayActor
open ConnectedRelayState

variable (a : ActiveRelayActor E) (state : ConnectedRelayState E) (p : Poll E)

def new (now : Millis) : ActiveRelayActor E :=
  ⟨.dialing, false, now + relayInactiveCleanupTime, now⟩

def exit : ActiveRelayActor E := { a with phase := .exited }

/-- The end of `run_connected` without an error -/
def close : ActiveRelayActor E := { a with phase := if p.closed then .exited else .closing }

/-- `run`, after an error of the connection or of dialing -/
def fail (established : Bool) : ActiveRelayActor E :=
  { a with phase := if established then .dialing else .waiting }

/-- The start of the loop of `run_connected`, which first sends a pong that is pending. -/
def resume : ActiveRelayActor E :=
  { a with phase := if state.pongPending then .sending { state with pongPending := false }
      else .connected state }

def resetInactiveTimeout : ActiveRelayActor E :=
  { a with inactiveTimeout := p.now + relayInactiveCleanupTime }

def inactive : Bool := !a.isHomeRelay && a.inactiveTimeout ≤ p.now

/-- `run_dialing`; with the answer to a priority message, if there was one -/
def runDialing : ActiveRelayActor E × Option Bool :=
  if p.stop then (a.exit, none)
  else match p.prioInbox with
  | .closed => (a.exit, none)
  | .msg _ => (a, some false)
  | .pending => match p.dialed with
  | some true => (a.resume {}, none)
  | some false => (a.fail false, none)
  | none => match p.inbox with
  | .closed => (a.exit, none)
  | .msg (.setHomeRelay isHome) => ({ a with isHomeRelay := isHome }, none)
  | .msg (.checkConnection _) => (a, none)
  | .pending =>
    if p.flush then
      match p.datagramsSend with
      | .msg _ => ({ a.resetInactiveTimeout p with lastTaken := p.now }, none)
      | .pending | .closed => (a.resetInactiveTimeout p, none)
    else if a.inactive p then (a.exit, none)
    else (a, none)

def runConnected : ActiveRelayActor E × Option Bool :=
  if p.stop then (a.close p, none)
  else match p.prioInbox with
  | .closed => (a.close p, none)
  | .msg peer => (a, some (peer ∈ state.endpointsPresent))
  | .pending =>
    if p.pingTimeout then (a.fail state.established, none)
    else if p.pingInterval then ({ a with phase := .sending state }, none)
    else match p.inbox with
    | .closed => (a.close p, none)
    | .msg (.setHomeRelay isHome) => ({ a with isHomeRelay := isHome }, none)
    | .msg (.checkConnection true) => ({ a with phase := .sending state }, none)
    | .msg (.checkConnection false) => (a.fail state.established, none)
    | .pending => match p.datagramsSend with
    | .closed => (a.close p, none)
    | .msg _ =>
      ({ a.resetInactiveTimeout p with phase := .sending state, lastTaken := p.now }, none)
    | .pending => match p.received with
    | .closed => (a.fail state.established, none)
    | .msg msg => (a.resume (state.handleRelayMsg msg), none)
    | .pending => if a.inactive p then (a.close p, none) else (a, none)

/-- `run_sending`. The loop around it looks at the stop token and the priority inbox first, too. -/
def runSending : ActiveRelayActor E × Option Bool :=
  if p.stop then (a.close p, none)
  else if p.sendTimeout then (a.fail state.established, none)
  else match p.prioInbox with
  | .closed => (a.close p, none)
  | .msg peer => (a, some (peer ∈ state.endpointsPresent))
  | .pending => match p.sent with
  | some true => (a.resume state, none)
  | some false => (a.fail state.established, none)
  | none =>
    if p.pingTimeout then (a.fail state.established, none)
    else match p.received with
    | .closed => (a.fail state.established, none)
    | .msg msg => ({ a with phase := .sending (state.handleRelayMsg msg) }, none)
    | .pending => if a.inactive p then (a.resume state, none) else (a, none)

def poll : ActiveRelayActor E × Option Bool :=
  match a.phase with
  | .dialing => a.runDialing p
  | .waiting => if p.retry then ({ a with phase := .dialing }, none) else (a, none)
  | .connected state => a.runConnected state p
  | .sending state => a.runSending state p
  | .closing => (a.close p, none)
  | .exited => (a, none)

def step : ActiveRelayActor E := (a.poll p).1

/-! ## The deadline -/

/-- The deadline is the fixed time after the datagrams that were taken last. -/
def Timely : Prop := a.inactiveTimeout = a.lastTaken + relayInactiveCleanupTime

/-- At a tick of the interval in which datagrams are dropped there are some to drop. -/
def Drops : Prop := a.phase = .dialing → p.flush = true → p.datagramsSend = .msg ()

variable {a state p}

lemma Timely.step (h : a.Timely) (hdrops : a.Drops p) : (a.step p).Timely := by
  unfold ActiveRelayActor.step poll
  cases hphase : a.phase with
  | dialing =>
    simp only
    fun_cases runDialing a p
    all_goals first
      | exact h
      | exact rfl
      | simp_all [Drops]
  | waiting =>
    simp only
    split
    · exact h
    · exact h
  | connected state =>
    simp only
    fun_cases runConnected a state p
    all_goals first
      | exact h
      | exact rfl
  | sending state =>
    simp only
    fun_cases runSending a state p
    all_goals exact h
  | closing | exited => exact h

lemma exits_when_inactive (hhome : a.isHomeRelay = false)
    (hphase : a.phase = .dialing ∨ ∃ state, a.phase = .connected state)
    (h : a.inactiveTimeout ≤ p.now) (hquiet : p.Quiet) : (a.step p).phase = .exited := by
  obtain ⟨hrunning, ⟨hprio, hinbox, hdatagrams⟩, ⟨hdialed, hreceived, hclosed⟩, hflush, htick,
    htimeout⟩ := hquiet
  unfold step poll
  rcases hphase with hphase | ⟨state, hphase⟩
  · simp [hphase, runDialing, hrunning, hprio, hdialed, hinbox, hflush, inactive, hhome, h, exit]
  · simp [hphase, runConnected, hrunning, hprio, htimeout, htick, hinbox, hdatagrams, hreceived,
      inactive, hhome, h, close, hclosed]

/-- If datagrams are dropped at every tick while the actor dials, then it is inactive after the
fixed time without datagrams, and exits if nothing else is ready. -/
theorem inactive_after_last_taken (start : Millis) {polls : List (Poll E)}
    (h : Along step Drops (new start) polls) :
    Throughout step (fun a => a.Timely ∧ ∀ p : Poll E, a.isHomeRelay = false →
      (a.phase = .dialing ∨ ∃ state, a.phase = .connected state) →
      a.lastTaken + relayInactiveCleanupTime ≤ p.now → p.Quiet → (a.step p).phase = .exited)
      (new start) polls := by
  refine (throughout_of_along (P := Timely) (s := new start) (fun _ _ => Timely.step) rfl h).imp
    fun a htimely => ?_
  refine ⟨htimely, fun p hhome hphase hnow => exits_when_inactive hhome hphase ?_⟩
  exact htimely.trans_le hnow

theorem inactive_after_last_taken_dropped :
    ((run step (new 0 : ActiveRelayActor Nat)
      [{ now := 3000, flush := true, datagramsSend := .msg () }, { now := 4000, dialed := some true },
        { now := 5000, received := .msg (.datagrams 1) }]).step
      { now := 63000, closed := true }).phase = .exited :=
  have h : Along step Drops (new 0 : ActiveRelayActor Nat)
      [{ now := 3000, flush := true, datagramsSend := .msg () }, { now := 4000, dialed := some true },
        { now := 5000, received := .msg (.datagrams 1) }] :=
    ⟨fun _ _ => rfl, nofun, nofun, trivial⟩
  (inactive_after_last_taken 0 h).last.2 { now := 63000, closed := true } rfl (.inr ⟨_, rfl⟩) le_rfl
    ⟨rfl, ⟨rfl, rfl, rfl⟩, ⟨rfl, rfl, rfl⟩, rfl, rfl, rfl⟩

/-- A tick without datagrams moves the deadline: at the old one the actor still dials. And at the
deadline a message from the relay comes first. -/
theorem inactiveTimeout_moved :
    (let a := run step (new 0 : ActiveRelayActor Nat) [{ now := 3000, flush := true }]
    a.lastTaken = 0 ∧ a.inactiveTimeout = 63000 ∧ (a.step { now := 60000 }).phase = .dialing) ∧
    let a := run step (new 0 : ActiveRelayActor Nat) [{ now := 1, dialed := some true }]
    a.inactiveTimeout = 60000 ∧ ∃ state,
      (a.step { now := 60000, received := .msg .other }).phase = .connected state :=
  ⟨⟨rfl, rfl, rfl⟩, rfl, _, rfl⟩

/-! ## Routes -/

/-- The state of the connection, if there is one, is that of its messages. -/
def Tracks (a : ActiveRelayActor E) : Prop :=
  match a.phase with
  | .connected state | .sending state => state.Follows
  | _ => True

section
omit [DecidableEq E]

lemma tracks_fail (established : Bool) : (a.fail established).Tracks := by
  cases established with
  | false | true => trivial

lemma tracks_close : (a.close p).Tracks := by
  unfold close Tracks
  cases p.closed with
  | false | true => trivial

lemma tracks_resume (h : state.Follows) : (a.resume state).Tracks := by
  unfold resume Tracks
  cases state.pongPending with
  | false => exact h
  | true => exact ⟨h.last, h.present⟩

end

lemma Tracks.step (h : a.Tracks) : (a.step p).Tracks := by
  unfold ActiveRelayActor.step poll
  cases hphase : a.phase with
  | dialing =>
    simp only
    fun_cases runDialing a p
    all_goals first
      | exact h
      | exact trivial
      | exact tracks_fail _
      | exact tracks_resume follows_empty
  | waiting =>
    simp only
    split
    · exact trivial
    · exact h
  | connected state =>
    have hstate : state.Follows := by simpa [Tracks, hphase] using h
    simp only
    fun_cases runConnected a state p
    all_goals first
      | exact h
      | exact hstate
      | exact tracks_fail _
      | exact tracks_close
      | exact tracks_resume (hstate.handleRelayMsg _)
  | sending state =>
    have hstate : state.Follows := by simpa [Tracks, hphase] using h
    simp only
    fun_cases runSending a state p
    all_goals first
      | exact h
      | exact hstate.handleRelayMsg _
      | exact tracks_fail _
      | exact tracks_close
      | exact tracks_resume hstate
  | closing => exact tracks_close
  | exited => exact h

lemma tracks_run (start : Millis) (polls : List (Poll E)) : (run step (new start) polls).Tracks := by
  refine List.foldlRecOn polls step ?_ fun a h p _ => h.step
  trivial

variable {start : Millis} {polls : List (Poll E)} {peer : E}

/-- At every point of a run with a connection the actor answers at once, with what the messages
of the connection say, if no datagram came from the last sender after it was gone. -/
theorem answers_routed
    (hphase : (run step (new start) polls).phase = .connected state ∨
      (run step (new start) polls).phase = .sending state ∧ p.sendTimeout = false)
    (hfresh : Fresh state.received) (hstop : p.stop = false) (hprio : p.prioInbox = .msg peer) :
    ∃ answer, ((run step (new start) polls).poll p).2 = some answer ∧
      (answer = true ↔ Routed peer state.received) := by
  have htracks := tracks_run start polls
  generalize run step (new start) polls = a at hphase htracks ⊢
  have hstate : state.Follows := by
    rcases hphase with hphase | ⟨hphase, -⟩
    · simpa [Tracks, hphase] using htracks
    · simpa [Tracks, hphase] using htracks
  refine ⟨decide (peer ∈ state.endpointsPresent), ?_, ?_⟩
  · unfold poll
    rcases hphase with hphase | ⟨hphase, htimeout⟩
    · simp [hphase, runConnected, hstop, hprio]
    · simp [hphase, runSending, hstop, hprio, htimeout]
  · rw [decide_eq_true_eq, hstate.present hfresh]


/-- A connection on which the given messages come. -/
def receiving (msgs : List (RelayToClientMsg Nat)) : ActiveRelayActor Nat :=
  run step (new 0) ({ now := 1, dialed := some true } :: msgs.map fun msg =>
    { now := 2, received := .msg msg })

/-- The first peer is gone, and comes back after the second one. -/
def returns : List (RelayToClientMsg Nat) :=
  [.datagrams 1, .endpointGone 1, .datagrams 2, .datagrams 1]

lemma fresh_returns : Fresh returns := by
  unfold returns
  rintro (_ | ⟨_, _ | ⟨_, _ | ⟨_, _ | ⟨_, before⟩⟩⟩⟩) after src heq hlast
  all_goals
    simp only [List.nil_append, List.cons_append, List.cons.injEq, reduceCtorEq] at heq
    grind [lastSender]

theorem answers_routed_returns :
    ∃ answer, ((receiving returns).poll { now := 3, prioInbox := .msg 1 }).2 = some answer ∧
      (answer = true ↔ Routed 1 returns) := by
  obtain ⟨state, hphase, hreceived⟩ : ∃ state, (receiving returns).phase = .connected state ∧
    state.received = returns := ⟨_, rfl, rfl⟩
  have hanswer := answers_routed (p := { now := 3, prioInbox := .msg 1 }) (.inl hphase)
    (hreceived ▸ fresh_returns) rfl rfl
  rwa [hreceived] at hanswer

/-- The sender of the last datagram is gone, and sends again. -/
theorem route_forgotten :
    let msgs := [.datagrams 1, .endpointGone 1, .datagrams 1]
    ((receiving msgs).poll { now := 3, prioInbox := .msg 1 }).2 = some false ∧ Routed 1 msgs :=
  ⟨rfl, [.datagrams 1, .endpointGone 1], [], rfl, List.not_mem_nil⟩

/-! ## Priority messages and the stop token -/

/-- Where the actor waits for more than a timer or the end of its connection, it stops at once, and
it answers at once unless the time to send is over. -/
theorem answers_and_stops (hwaiting : a.phase ≠ .waiting) (hclosing : a.phase ≠ .closing)
    (hexited : a.phase ≠ .exited) :
    (p.stop = true → (a.step p).phase = .exited ∨ (a.step p).phase = .closing) ∧
      ∀ peer, p.stop = false → p.prioInbox = .msg peer →
        (∀ state, a.phase = .sending state → p.sendTimeout = false) →
        ∃ answer, (a.poll p).2 = some answer := by
  unfold step poll
  have hclose : (a.close p).phase = .exited ∨ (a.close p).phase = .closing := by
    unfold close
    cases p.closed with
    | true => exact .inl rfl
    | false => exact .inr rfl
  cases hphase : a.phase with
  | dialing => simp +contextual [runDialing, exit]
  | connected state => simp +contextual [runConnected, hclose]
  | sending state => simp +contextual [runSending, hclose]
  | waiting => exact absurd hphase hwaiting
  | closing => exact absurd hphase hclosing
  | exited => exact absurd hphase hexited

/-- While it answers a ping, the actor answers a priority message, and then stops. -/
theorem answers_and_stops_sending :
    (∃ answer, ((receiving [.ping]).poll { now := 3, prioInbox := .msg 1 }).2 = some answer) ∧
      (((receiving [.ping]).step { now := 4, stop := true }).phase = .exited ∨
        ((receiving [.ping]).step { now := 4, stop := true }).phase = .closing) := by
  have hphase : (receiving [.ping]).phase = .sending { received := [.ping] } := rfl
  refine ⟨(answers_and_stops ?_ ?_ ?_).2 1 rfl rfl fun _ _ => rfl,
    (answers_and_stops ?_ ?_ ?_).1 rfl⟩
  all_goals simp [hphase]

/-- After a failed attempt neither is looked at, nor while the connection closes. -/
theorem waits_for_retry :
    (let a := run step (new 0 : ActiveRelayActor Nat) [{ now := 1, dialed := some false }]
    a.phase = .waiting ∧ a.poll { now := 2, stop := true, prioInbox := .msg 1 } = (a, none)) ∧
    let a := (receiving []).step { now := 60000 }
    a.phase = .closing ∧ a.poll { now := 60001, stop := true, prioInbox := .msg 1 } = (a, none) :=
  ⟨⟨rfl, rfl⟩, rfl, rfl⟩

end ActiveRelayActor
end Krikos.Socket
