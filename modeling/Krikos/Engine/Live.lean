import Krikos.Engine.State
import Krikos.Lib.Run

/-!
# Engine.Live

The sync sessions of the live actor (`engine/live.rs`, with the results of `net.rs`): dials, accepted
connections, and what happens when they end.

`Tracked` adds to the actor which dials have been superseded by an incoming request. A peer is
running exactly while one session that is not superseded is unfinished, and there is at most one such
session, as long as no session ends in one of four ways (`consistent_iff`): a dial that is not
superseded is refused as already syncing; a superseded dial, or a request that was refused because
the document was not found, ends with an error while another session of the pair runs; or the
document is left while a session runs.
-/

namespace Krikos.Engine

open Lib Docs List NamespaceStates SyncState

def maxActiveDocuments : Nat := 1024

def maxLiveSyncSessions : Nat := 256

/-! ## Results of sessions -/

/-- Details of a finished sync operation. -/
structure SyncFinished where
  ns : NamespaceId
  peer : EndpointId
  outcome : SyncOutcome

inductive ConnectError where
  | connect
  | remoteAbort (reason : Net.AbortReason)
  | sync
  | close

inductive AcceptError where
  | connect
  | openReplica (peer : EndpointId)
  | abort (peer : EndpointId) (ns : NamespaceId) (reason : Net.AbortReason)
  | sync (peer : EndpointId) (ns : Option NamespaceId)
  | close (peer : EndpointId) (ns : Option NamespaceId)
  deriving DecidableEq

namespace AcceptError

def peer : AcceptError → Option EndpointId
  | .connect => none
  | .openReplica peer => some peer
  | .abort peer _ _ => some peer
  | .sync peer _ => some peer
  | .close peer _ => some peer

def ns : AcceptError → Option NamespaceId
  | .connect => none
  | .openReplica _ => none
  | .abort _ ns _ => some ns
  | .sync _ ns => ns
  | .close _ ns => ns

end AcceptError

abbrev TaskId := Nat

/-- A running task of `connect_and_sync`. -/
structure Dial where
  id : TaskId
  ns : NamespaceId
  peer : EndpointId
  reason : SyncReason
  deriving DecidableEq

/-- How far a running task of `handle_connection` has got. -/
inductive Stage where
  /-- The first message has not been read. -/
  | waiting
  | allowed (ns : NamespaceId)
  | rejected (ns : NamespaceId) (reason : Net.AbortReason)
  deriving DecidableEq

/-- A running task of `handle_connection`. -/
structure Incoming where
  id : TaskId
  peer : EndpointId
  stage : Stage
  deriving DecidableEq

/-- The results that `handle_connection` can return. The namespace is set once the request has been
allowed. -/
def Incoming.returns (t : Incoming) : Except AcceptError SyncFinished → Bool
  | .ok finished => t.stage = .allowed finished.ns ∧ finished.peer = t.peer
  | .error e =>
    match t.stage with
    | .waiting => e = .openReplica t.peer ∨ e = .sync t.peer none ∨ e = .close t.peer none
    | .allowed ns => e = .sync t.peer (some ns) ∨ e = .close t.peer (some ns)
    | .rejected ns reason =>
      e = .abort t.peer ns reason ∨ e = .sync t.peer none ∨ e = .close t.peer none

/-! ## The actor -/

structure LiveActor where
  me : EndpointId
  state : NamespaceStates
  runningSyncConnect : List Dial
  runningSyncAccept : List Incoming
  nextTask : TaskId

namespace LiveActor

def new (me : EndpointId) : LiveActor := ⟨me, .empty, [], [], 0⟩

variable (a : LiveActor) (ns : NamespaceId) (peer : EndpointId)

def syncWithPeer (reason : SyncReason) (now : SystemTime) : LiveActor :=
  if a.runningSyncConnect.length ≥ maxLiveSyncSessions then a
  else
    match a.state.startConnect ns peer reason now with
    | (state, false) => { a with state := state }
    | (state, true) => { a with
        state := state
        runningSyncConnect := ⟨a.nextTask, ns, peer, reason⟩ :: a.runningSyncConnect
        nextTask := a.nextTask + 1 }

/-- `pending` says whether content hashes of the namespace are queued. -/
def onSyncFinished (pending : Bool) (now : SystemTime) : LiveActor :=
  match a.state.finish ns peer with
  | (state, none) => { a with state := state }
  | (state, some (_, resync)) =>
    let a := { a with state := state.setMayEmitReady ns pending }
    if resync then a.syncWithPeer ns peer .resync now else a

def onSyncViaConnectFinished (result : Except ConnectError SyncFinished) (pending : Bool)
    (now : SystemTime) : LiveActor :=
  match result with
  | .error (.remoteAbort .alreadySyncing) => a
  | _ => a.onSyncFinished ns peer pending now

def onSyncViaAcceptFinished (a : LiveActor) (result : Except AcceptError SyncFinished)
    (pending : Bool) (now : SystemTime) : LiveActor :=
  match result with
  | .ok finished => a.onSyncFinished finished.ns finished.peer pending now
  -- we aborted the sync: our outgoing sync is in progress
  | .error (.abort _ _ .alreadySyncing) => a
  | .error e =>
    match e.peer, e.ns with
    | some peer, some ns => a.onSyncFinished ns peer pending now
    | _, _ => a

/-- Starts to sync a document. `opened` and `joined` say whether the document could be opened, and
whether the peers are valid and the gossip topic could be joined. -/
def startSync (opened : Bool) (peers : List EndpointId)
    (joined : Bool) (now : SystemTime) : LiveActor :=
  if !a.state.isSyncing ns && decide (a.state.len ≥ maxActiveDocuments) then a
  else if !a.state.isSyncing ns && !opened then a
  else
    let a := { a with state := a.state.insert ns }
    if peers.length > maxPeersPerDocument then a
    else if joined then
      peers.foldl (fun a peer => a.syncWithPeer ns peer .directJoin now) a
    else a

def leave : LiveActor := { a with state := a.state.remove ns }

def onSyncReport (fromPeer : EndpointId) (news : Bool) (now : SystemTime) : LiveActor :=
  if a.state.isSyncing ns && news then a.syncWithPeer ns fromPeer .syncReport now else a

def handleConnection (a : LiveActor) (peer : EndpointId) : LiveActor :=
  if a.runningSyncAccept.length ≥ maxLiveSyncSessions then a
  else { a with
    runningSyncAccept := ⟨a.nextTask, peer, .waiting⟩ :: a.runningSyncAccept
    nextTask := a.nextTask + 1 }

/-- A task that has read its first message asks whether to go on. -/
def acceptSyncRequest (a : LiveActor) (t : Incoming) (ns : NamespaceId) (now : SystemTime) :
    LiveActor :=
  match a.state.acceptRequest a.me ns t.peer now with
  | (state, outcome) =>
    let stage : Stage :=
      match outcome with
      | .allow => .allowed ns
      | .reject reason => .rejected ns reason
    { a with
      state := state
      runningSyncAccept := { t with stage := stage } :: a.runningSyncAccept.erase t }

end LiveActor

inductive LiveEvent where
  | startSync (ns : NamespaceId) (opened : Bool) (peers : List EndpointId) (joined : Bool)
  | leave (ns : NamespaceId)
  | neighborUp (ns : NamespaceId) (peer : EndpointId)
  | syncReport (ns : NamespaceId) (fromPeer : EndpointId) (news : Bool)
  | handleConnection (peer : EndpointId)
  | acceptSyncRequest (t : Incoming) (ns : NamespaceId)
  | connectFinished (d : Dial) (result : Except ConnectError SyncFinished) (pending : Bool)
  | acceptFinished (t : Incoming) (result : Except AcceptError SyncFinished) (pending : Bool)

namespace LiveActor
variable (a : LiveActor)

def endDial (d : Dial) : LiveActor :=
  { a with runningSyncConnect := a.runningSyncConnect.erase d }

def endIncoming (t : Incoming) : LiveActor :=
  { a with runningSyncAccept := a.runningSyncAccept.erase t }

/-- The event can happen: a task that asks or ends is running. -/
def enabled : LiveEvent → Bool
  | .acceptSyncRequest t _ => t ∈ a.runningSyncAccept ∧ t.stage = .waiting
  | .connectFinished d _ _ => d ∈ a.runningSyncConnect
  | .acceptFinished t result _ => t ∈ a.runningSyncAccept ∧ t.returns result = true
  | _ => true

def step (now : SystemTime) : LiveEvent → LiveActor
  | .startSync ns opened peers joined => a.startSync ns opened peers joined now
  | .leave ns => a.leave ns
  | .neighborUp ns peer => a.syncWithPeer ns peer .newNeighbor now
  | .syncReport ns fromPeer news => a.onSyncReport ns fromPeer news now
  | .handleConnection peer => a.handleConnection peer
  | .acceptSyncRequest t ns => a.acceptSyncRequest t ns now
  | .connectFinished d result pending =>
    (a.endDial d).onSyncViaConnectFinished d.ns d.peer result pending now
  | .acceptFinished t result pending =>
    (a.endIncoming t).onSyncViaAcceptFinished result pending now

end LiveActor

/-! ## What the actor does to the state -/

/-- The actor with another dial running. -/
abbrev LiveActor.dialing (a : LiveActor) (state : NamespaceStates) (ns : NamespaceId)
    (peer : EndpointId) (reason : SyncReason) : LiveActor :=
  { a with
    state := state
    runningSyncConnect := ⟨a.nextTask, ns, peer, reason⟩ :: a.runningSyncConnect
    nextTask := a.nextTask + 1 }

/-- A dial is refused, and changes no state, or started, for a pair that is idle. -/
lemma syncWithPeer_cases (a : LiveActor) (ns : NamespaceId) (peer : EndpointId)
    (reason : SyncReason) (now : SystemTime) :
    (∃ state : NamespaceStates, a.syncWithPeer ns peer reason now = { a with state := state } ∧
      ∀ n m, state.syncState n m = a.state.syncState n m) ∨
    (∃ state : NamespaceStates, a.syncWithPeer ns peer reason now = a.dialing state ns peer reason ∧
      a.state.syncState ns peer = .idle ∧
      ∀ n m, state.syncState n m =
        if n = ns ∧ m = peer then .running now (.connect reason) else a.state.syncState n m) := by
  unfold LiveActor.syncWithPeer
  split
  · exact .inl ⟨a.state, rfl, fun _ _ => rfl⟩
  · obtain ⟨hok, hidle, hstat⟩ | ⟨hok, hstat⟩ :=
      startConnect_spec a.state ns peer reason now
    · refine .inr ⟨(a.state.startConnect ns peer reason now).1, ?_, hidle, hstat⟩
      rw [← Prod.mk.eta (p := a.state.startConnect ns peer reason now), hok]
    · refine .inl ⟨(a.state.startConnect ns peer reason now).1, ?_, hstat⟩
      rw [← Prod.mk.eta (p := a.state.startConnect ns peer reason now), hok]

/-- The end of a session makes the pair idle; another dial may follow. -/
lemma onSyncFinished_cases (a : LiveActor) (ns : NamespaceId) (peer : EndpointId)
    (pending : Bool) (now : SystemTime) : ∃ state : NamespaceStates, (∀ n m, state.syncState n m =
        if n = ns ∧ m = peer then .idle else a.state.syncState n m) ∧
      (a.onSyncFinished ns peer pending now = { a with state := state } ∨
        a.onSyncFinished ns peer pending now =
          { a with state := state }.syncWithPeer ns peer .resync now) := by
  have hfin := fun n m => syncState_finish a.state ns n peer m
  unfold LiveActor.onSyncFinished
  split
  · rename_i state heq
    rw [heq] at hfin
    exact ⟨state, hfin, .inl rfl⟩
  · rename_i state start resync heq
    rw [heq] at hfin
    refine ⟨state.setMayEmitReady ns pending, ?_, ?_⟩
    · intro n m
      rw [syncState_setMayEmitReady]
      exact hfin n m
    · cases resync with
      | false => exact .inl rfl
      | true => exact .inr rfl

/-! ## Sessions -/

/-- The actor, and the dials that an incoming request has superseded. -/
structure Tracked where
  actor : LiveActor
  superseded : List Dial

namespace Tracked

def new (me : EndpointId) : Tracked := ⟨.new me, []⟩

/-- A request that is allowed while a dial runs supersedes the dial. -/
def supersedes (a : LiveActor) (now : SystemTime) : LiveEvent → List Dial
  | .acceptSyncRequest t ns =>
    match a.state.syncState ns t.peer, (a.state.acceptRequest a.me ns t.peer now).2 with
    | .running _ (.connect _), .allow =>
      a.runningSyncConnect.filter fun d => d.ns = ns ∧ d.peer = t.peer
    | _, _ => []
  | _ => []

/-- Events of tasks that do not run cannot happen. -/
def step (t : Tracked) : SystemTime × LiveEvent → Tracked
  | (now, e) =>
    if t.actor.enabled e then ⟨t.actor.step now e, t.superseded ++ supersedes t.actor now e⟩ else t

variable (t : Tracked) (ns : NamespaceId) (peer : EndpointId)

/-- The unfinished dials of a pair that are not superseded. -/
def dials : Nat :=
  t.actor.runningSyncConnect.countP fun d => d.ns = ns ∧ d.peer = peer ∧ d ∉ t.superseded

/-- The unfinished accepted sessions of a pair. -/
def accepts : Nat :=
  t.actor.runningSyncAccept.countP fun i => i.peer = peer ∧ i.stage = .allowed ns

/-- The unfinished sessions of a pair that are not superseded. -/
def live : Nat :=
  t.dials ns peer + t.accepts ns peer

def isRunning (t : Tracked) (ns : NamespaceId) (peer : EndpointId) : Bool :=
  (t.actor.state.syncState ns peer).isRunning

/-- Every pair is running exactly while it has an unfinished session that is not superseded, and it
never has two. -/
def Consistent (t : Tracked) : Prop :=
  ∀ ns peer, (t.isRunning ns peer = true ↔ 0 < t.live ns peer) ∧ t.live ns peer ≤ 1

def alreadySyncing : Except ConnectError SyncFinished → Bool
  | .error (.remoteAbort .alreadySyncing) => true
  | _ => false

/-- The condition on an event. A dial is refused as already syncing only if it is superseded. A
superseded dial ends in another way, a request refused for another reason ends, and a document is
left only while no session of the pair runs. -/
def Regular (t : Tracked) : LiveEvent → Prop
  | .connectFinished d result _ =>
    if alreadySyncing result then d ∈ t.superseded
    else d ∈ t.superseded → t.live d.ns d.peer = 0
  | .acceptFinished i result _ =>
    match result with
    | .error (.abort peer ns reason) =>
      i.stage = .rejected ns reason → reason ≠ .alreadySyncing → t.live ns peer = 0
    | _ => True
  | .leave ns => ∀ peer, t.live ns peer = 0
  | _ => True

/-- The event can happen only if it is regular. -/
def Guarded (t : Tracked) (e : SystemTime × LiveEvent) : Prop :=
  t.actor.enabled e.2 = true → t.Regular e.2

end Tracked

/-! ## The invariant -/

/-- The origin of a running state is that of the only session. -/
def Agrees : SyncState → Nat → Nat → Prop
  | .idle, dials, accepts => dials = 0 ∧ accepts = 0
  | .running _ (.connect _), dials, accepts => dials = 1 ∧ accepts = 0
  | .running _ .accept, dials, accepts => dials = 0 ∧ accepts = 1

lemma Agrees.consistent {state : SyncState} {dials accepts : Nat} (h : Agrees state dials accepts) :
    (state.isRunning = true ↔ 0 < dials + accepts) ∧ dials + accepts ≤ 1 := by
  cases state with
  | idle =>
    obtain ⟨rfl, rfl⟩ := h
    simp [isRunning]
  | running start origin =>
    cases origin with
    | connect reason | accept =>
      obtain ⟨rfl, rfl⟩ := h
      simp [isRunning]

/-- Tasks, and the superseded ones among them, have been given their ids. -/
structure Fresh (t : Tracked) : Prop where
  superseded : ∀ d ∈ t.superseded, d.id < t.actor.nextTask
  dials : ∀ d ∈ t.actor.runningSyncConnect, d.id < t.actor.nextTask

structure Sound (t : Tracked) : Prop where
  agrees : ∀ ns peer,
    Agrees (t.actor.state.syncState ns peer) (t.dials ns peer) (t.accepts ns peer)
  fresh : Fresh t

lemma Sound.consistent {t : Tracked} (h : Sound t) : t.Consistent :=
  fun ns peer => (h.agrees ns peer).consistent

lemma sound_new (me : EndpointId) : Sound (.new me) where
  agrees _ _ := ⟨rfl, rfl⟩
  fresh := by
    constructor
    · intro d hd
      cases hd
    · intro d hd
      cases hd

section

open Tracked hiding isRunning

variable {t : Tracked} {a : LiveActor} {superseded : List Dial} {ns n : NamespaceId}
  {peer m : EndpointId} {reason : SyncReason} {now : SystemTime} {pending : Bool}
variable {state : NamespaceStates}

lemma dials_cons (h : ∀ d ∈ superseded, d.id < a.nextTask) :
    dials ⟨a.dialing state ns peer reason, superseded⟩ n m =
      dials ⟨a, superseded⟩ n m + if n = ns ∧ m = peer then 1 else 0 := by
  have hnew : (⟨a.nextTask, ns, peer, reason⟩ : Dial) ∉ superseded :=
    fun hmem => Nat.lt_irrefl _ (h _ hmem)
  simp only [dials, countP_cons, decide_eq_true_eq]
  congr 1
  by_cases hpair : n = ns ∧ m = peer
  · obtain ⟨rfl, rfl⟩ := hpair
    simp [hnew]
  · rw [if_neg hpair, if_neg]
    rintro ⟨rfl, rfl, -⟩
    exact hpair ⟨rfl, rfl⟩

lemma fresh_cons (h : Fresh ⟨a, superseded⟩) :
    Fresh ⟨a.dialing state ns peer reason, superseded⟩ where
  superseded d hd := Nat.lt_succ_of_lt (h.superseded d hd)
  dials d hd := by
    cases mem_cons.mp hd with
    | inl heq =>
      rw [heq]
      exact Nat.lt_succ_self _
    | inr hold => exact Nat.lt_succ_of_lt (h.dials d hold)

lemma Sound.syncWithPeer (h : Sound ⟨a, superseded⟩) :
    Sound ⟨a.syncWithPeer ns peer reason now, superseded⟩ := by
  obtain ⟨state, heq, hstat⟩ | ⟨state, heq, hidle, hstat⟩ :=
    syncWithPeer_cases a ns peer reason now
  · rw [heq]
    refine ⟨fun n m => ?_, ⟨h.fresh.superseded, h.fresh.dials⟩⟩
    simp only [hstat]
    exact h.agrees n m
  · rw [heq]
    refine ⟨fun n m => ?_, fresh_cons h.fresh⟩
    rw [dials_cons h.fresh.superseded]
    simp only [hstat]
    have hold := h.agrees n m
    by_cases hpair : n = ns ∧ m = peer
    · rw [if_pos hpair, if_pos hpair]
      obtain ⟨rfl, rfl⟩ := hpair
      simp only [hidle] at hold
      obtain ⟨hd, ha⟩ := hold
      exact ⟨by rw [hd], ha⟩
    · rw [if_neg hpair, if_neg hpair]
      exact hold

lemma Sound.onSyncFinished (hfres : Fresh ⟨a, superseded⟩)
    (hoth : ∀ n m, ¬ (n = ns ∧ m = peer) → Agrees (a.state.syncState n m)
      (dials ⟨a, superseded⟩ n m) (accepts ⟨a, superseded⟩ n m))
    (hnone : live ⟨a, superseded⟩ ns peer = 0) :
    Sound ⟨a.onSyncFinished ns peer pending now, superseded⟩ := by
  obtain ⟨state, hstat, hcas⟩ := onSyncFinished_cases a ns peer pending now
  have hidle : Sound ⟨{ a with state := state }, superseded⟩ := by
    refine ⟨fun n m => ?_, ⟨hfres.superseded, hfres.dials⟩⟩
    simp only [hstat]
    by_cases hpair : n = ns ∧ m = peer
    · rw [if_pos hpair]
      obtain ⟨rfl, rfl⟩ := hpair
      exact Nat.add_eq_zero_iff.mp hnone
    · rw [if_neg hpair]
      exact hoth n m hpair
  cases hcas with
  | inl heq =>
    rw [heq]
    exact hidle
  | inr heq =>
    rw [heq]
    exact hidle.syncWithPeer

lemma live_onSyncFinished (ns : NamespaceId) (peer : EndpointId) (pending : Bool)
    (now : SystemTime) (hfres : Fresh ⟨a, superseded⟩) :
    live ⟨a.onSyncFinished ns peer pending now, superseded⟩ ns peer =
      live ⟨a, superseded⟩ ns peer +
        if Tracked.isRunning ⟨a.onSyncFinished ns peer pending now, superseded⟩ ns peer
          then 1 else 0 := by
  obtain ⟨state, hstat, hcas⟩ := onSyncFinished_cases a ns peer pending now
  have hidle : state.syncState ns peer = .idle := by rw [hstat, if_pos ⟨rfl, rfl⟩]
  cases hcas with
  | inl heq =>
    rw [heq]
    simp only [Tracked.isRunning, hidle, isRunning]
    rfl
  | inr heq =>
    rw [heq]
    obtain ⟨state', heq', hstat'⟩ | ⟨state', heq', -, hstat'⟩ :=
      syncWithPeer_cases { a with state := state } ns peer .resync now
    · rw [heq']
      simp only [Tracked.isRunning, hstat', hidle, isRunning]
      rfl
    · rw [heq']
      simp only [Tracked.isRunning, live, hstat', isRunning]
      rw [dials_cons (a := { a with state := state }) hfres.superseded]
      simp only [and_self, if_true]
      exact Nat.add_right_comm _ _ _

/-! ## Tasks that end -/

variable {d : Dial}

lemma dials_endDial (hd : d ∈ a.runningSyncConnect) :
    dials ⟨a, superseded⟩ n m = dials ⟨a.endDial d, superseded⟩ n m +
      if d.ns = n ∧ d.peer = m ∧ d ∉ superseded then 1 else 0 := by
  have hperm := (perm_cons_erase hd).countP_eq
    (fun d => decide (d.ns = n ∧ d.peer = m ∧ d ∉ superseded))
  simp only [countP_cons, decide_eq_true_eq] at hperm
  exact hperm

variable {i : Incoming}

lemma accepts_endIncoming (hi : i ∈ a.runningSyncAccept) :
    accepts ⟨a, superseded⟩ n m = accepts ⟨a.endIncoming i, superseded⟩ n m +
      if i.peer = m ∧ i.stage = .allowed n then 1 else 0 := by
  have hperm := (perm_cons_erase hi).countP_eq
    (fun i => decide (i.peer = m ∧ i.stage = .allowed n))
  simp only [countP_cons, decide_eq_true_eq] at hperm
  exact hperm

lemma live_endDial (hd : d ∈ a.runningSyncConnect) : live ⟨a, superseded⟩ d.ns d.peer =
      live ⟨a.endDial d, superseded⟩ d.ns d.peer + if d ∉ superseded then 1 else 0 := by
  unfold live
  rw [dials_endDial hd, Nat.add_right_comm]
  simp only [true_and]
  rfl

lemma live_endIncoming (hi : i ∈ a.runningSyncAccept) :
    live ⟨a, superseded⟩ n m = live ⟨a.endIncoming i, superseded⟩ n m +
      if i.peer = m ∧ i.stage = .allowed n then 1 else 0 := by
  unfold live
  rw [accepts_endIncoming hi, ← Nat.add_assoc]
  rfl

lemma Fresh.endDial (h : Fresh ⟨a, superseded⟩) (d : Dial) : Fresh ⟨a.endDial d, superseded⟩ :=
  ⟨h.superseded, fun d' hd' => h.dials d' (mem_of_mem_erase hd')⟩

lemma Fresh.endIncoming (h : Fresh ⟨a, superseded⟩) (i : Incoming) :
    Fresh ⟨a.endIncoming i, superseded⟩ := ⟨h.superseded, h.dials⟩

variable (h : Sound ⟨a, superseded⟩)

include h

lemma Sound.endDial (hd : d ∈ a.runningSyncConnect)
    (hsup : d ∈ superseded) : Sound ⟨a.endDial d, superseded⟩ := by
  refine ⟨fun n m => ?_, h.fresh.endDial d⟩
  have hagr := h.agrees n m
  rw [dials_endDial hd, if_neg fun hc => hc.2.2 hsup] at hagr
  exact hagr

lemma Sound.endIncoming (hi : i ∈ a.runningSyncAccept) (hstag : ∀ ns, i.stage ≠ .allowed ns) :
    Sound ⟨a.endIncoming i, superseded⟩ := by
  refine ⟨fun n m => ?_, h.fresh.endIncoming i⟩
  have hagr := h.agrees n m
  rw [accepts_endIncoming hi, if_neg fun hc => hstag n hc.2] at hagr
  exact hagr

lemma Sound.finishDial (hd : d ∈ a.runningSyncConnect)
    (hother : d ∈ superseded → live ⟨a, superseded⟩ d.ns d.peer = 0) :
    Sound ⟨(a.endDial d).onSyncFinished d.ns d.peer pending now, superseded⟩ := by
  apply Sound.onSyncFinished (h.fresh.endDial d)
  · intro n m hpair
    have hagr := h.agrees n m
    rw [dials_endDial hd, if_neg fun hc => hpair ⟨hc.1.symm, hc.2.1.symm⟩] at hagr
    exact hagr
  · have hlive : live ⟨a, superseded⟩ d.ns d.peer = _ := live_endDial hd
    by_cases hsup : d ∈ superseded
    · rw [hother hsup] at hlive
      omega
    · rw [if_pos hsup] at hlive
      have hle := (h.consistent d.ns d.peer).2
      omega

lemma Sound.finishIncoming
    (hi : i ∈ a.runningSyncAccept) (hstag : ∀ n, i.stage = .allowed n → n = ns)
    (hother : i.stage ≠ .allowed ns → live ⟨a, superseded⟩ ns i.peer = 0) :
    Sound ⟨(a.endIncoming i).onSyncFinished ns i.peer pending now, superseded⟩ := by
  apply Sound.onSyncFinished (h.fresh.endIncoming i)
  · intro n m hpair
    have hagr := h.agrees n m
    rw [accepts_endIncoming hi, if_neg fun hc => hpair ⟨hstag n hc.2, hc.1.symm⟩] at hagr
    exact hagr
  · have hlive : live ⟨a, superseded⟩ ns i.peer = _ := live_endIncoming hi
    by_cases hall : i.stage = .allowed ns
    · rw [if_pos ⟨rfl, hall⟩] at hlive
      have hle := (h.consistent ns i.peer).2
      omega
    · rw [hother hall] at hlive
      omega

omit h in
/-- If the state is right after the end of a session, the pair had no other one. -/
lemma live_eq_zero_of_consistent (hfres : Fresh ⟨a, superseded⟩)
    (haft : Consistent ⟨a.onSyncFinished ns peer pending now, superseded⟩) :
    live ⟨a, superseded⟩ ns peer = 0 := by
  have hlive := live_onSyncFinished ns peer pending now hfres
  obtain ⟨hiff, hle⟩ := haft ns peer
  split at hlive
  · omega
  · rename_i hidle
    have hnot : ¬ 0 < live ⟨a.onSyncFinished ns peer pending now, superseded⟩ ns peer :=
      fun hpos => hidle (hiff.mpr hpos)
    omega

/-! ## Events -/

variable {result : Except ConnectError SyncFinished}

omit h in
lemma onSyncViaConnectFinished_eq : a.onSyncViaConnectFinished ns peer result pending now =
      if alreadySyncing result then a else a.onSyncFinished ns peer pending now := by
  unfold LiveActor.onSyncViaConnectFinished alreadySyncing
  split
  · rfl
  · rfl

lemma Sound.connectFinished (hd : d ∈ a.runningSyncConnect)
    (hreg : Regular ⟨a, superseded⟩ (.connectFinished d result pending)) :
    Sound ⟨(a.endDial d).onSyncViaConnectFinished d.ns d.peer result pending now, superseded⟩ := by
  simp only [Regular] at hreg
  rw [onSyncViaConnectFinished_eq]
  split at hreg
  · rename_i halr
    rw [if_pos halr]
    exact h.endDial hd hreg
  · rename_i halr
    rw [if_neg halr]
    exact h.finishDial hd hreg

lemma regular_connectFinished (hd : d ∈ a.runningSyncConnect) (haft : Consistent
      ⟨(a.endDial d).onSyncViaConnectFinished d.ns d.peer result pending now, superseded⟩) :
    Regular ⟨a, superseded⟩ (.connectFinished d result pending) := by
  have hlive : live ⟨a, superseded⟩ d.ns d.peer = _ := live_endDial hd
  simp only [Regular]
  rw [onSyncViaConnectFinished_eq] at haft
  split
  · rename_i halr
    rw [if_pos halr] at haft
    by_contra hsup
    rw [if_pos hsup] at hlive
    -- the pair is still running, but its only session has ended
    have hbef := h.consistent d.ns d.peer
    have hrun : Tracked.isRunning ⟨a, superseded⟩ d.ns d.peer = true := by
      rw [hbef.1]
      omega
    have hpos := (haft d.ns d.peer).1.mp hrun
    have hle := hbef.2
    omega
  · rename_i halr
    rw [if_neg halr] at haft
    intro hsup
    rw [if_neg (not_not.mpr hsup)] at hlive
    rw [hlive]
    exact live_eq_zero_of_consistent (h.fresh.endDial d) haft

omit h in
lemma onSyncViaAcceptFinished_abort {ns : NamespaceId} {reason : Net.AbortReason} :
    a.onSyncViaAcceptFinished (.error (.abort peer ns reason)) pending now =
      if reason = .alreadySyncing then a else a.onSyncFinished ns peer pending now := by
  cases reason with
  | notFound | alreadySyncing | internalServerError => rfl

lemma Sound.acceptFinished {result : Except AcceptError SyncFinished} (hi : i ∈ a.runningSyncAccept)
    (hret : i.returns result = true)
    (hreg : Regular ⟨a, superseded⟩ (.acceptFinished i result pending)) :
    Sound ⟨(a.endIncoming i).onSyncViaAcceptFinished result pending now, superseded⟩ := by
  have hall : ∀ {ns}, i.stage = .allowed ns →
      Sound ⟨(a.endIncoming i).onSyncFinished ns i.peer pending now, superseded⟩ := by
    intro ns hstag
    refine h.finishIncoming hi (fun n hn => ?_) fun hne => absurd hstag hne
    rw [hstag] at hn
    cases hn
    rfl
  cases result with
  | ok finished =>
    simp only [Incoming.returns, decide_eq_true_eq] at hret
    obtain ⟨hstag, hpeer⟩ := hret
    simp only [LiveActor.onSyncViaAcceptFinished, hpeer]
    exact hall hstag
  | error e =>
    cases hstag : i.stage with
    | waiting =>
      have hend : Sound ⟨a.endIncoming i, superseded⟩ :=
        h.endIncoming hi fun ns hns => by rw [hstag] at hns; cases hns
      simp only [Incoming.returns, hstag, decide_eq_true_eq] at hret
      obtain rfl | rfl | rfl := hret
      · exact hend
      · exact hend
      · exact hend
    | allowed ns =>
      simp only [Incoming.returns, hstag, decide_eq_true_eq] at hret
      obtain rfl | rfl := hret
      · exact hall hstag
      · exact hall hstag
    | rejected ns reason =>
      have hnot : ∀ n, i.stage ≠ .allowed n := fun n hn => by rw [hstag] at hn; cases hn
      simp only [Incoming.returns, hstag, decide_eq_true_eq] at hret
      obtain rfl | rfl | rfl := hret
      · rw [onSyncViaAcceptFinished_abort]
        split
        · exact h.endIncoming hi hnot
        · rename_i hreas
          exact h.finishIncoming hi (fun n hn => absurd hn (hnot n))
            fun _ => hreg hstag hreas
      · exact h.endIncoming hi hnot
      · exact h.endIncoming hi hnot

lemma regular_acceptFinished {result : Except AcceptError SyncFinished}
    (hi : i ∈ a.runningSyncAccept) (hret : i.returns result = true)
    (haft : Consistent ⟨(a.endIncoming i).onSyncViaAcceptFinished result pending now, superseded⟩) :
    Regular ⟨a, superseded⟩ (.acceptFinished i result pending) := by
  simp only [Regular]
  split
  · rename_i peer ns reason
    intro hstag hreas
    rw [onSyncViaAcceptFinished_abort, if_neg hreas] at haft
    have hend := live_eq_zero_of_consistent (h.fresh.endIncoming i) haft
    rw [live_endIncoming hi, hend, if_neg]
    rintro ⟨-, hall⟩
    rw [hstag] at hall
    cases hall
  · trivial

lemma Sound.leave (hreg : Regular ⟨a, superseded⟩ (.leave ns)) :
    Sound ⟨a.leave ns, superseded⟩ := by
  refine ⟨fun n m => ?_, ⟨h.fresh.superseded, h.fresh.dials⟩⟩
  simp only [LiveActor.leave, syncState_remove]
  split
  · rename_i heq
    subst heq
    exact Nat.add_eq_zero_iff.mp (hreg m)
  · exact h.agrees n m

omit h in
lemma regular_leave (haft : Consistent ⟨a.leave ns, superseded⟩) :
    Regular ⟨a, superseded⟩ (.leave ns) := by
  intro peer
  have hidle : Tracked.isRunning ⟨a.leave ns, superseded⟩ ns peer = false := by
    simp only [Tracked.isRunning, LiveActor.leave, syncState_remove, if_true]
    rfl
  have hiff := (haft ns peer).1
  rw [hidle] at hiff
  have hnot : ¬ 0 < live ⟨a.leave ns, superseded⟩ ns peer := fun hpos => by
    cases hiff.mpr hpos
  exact Nat.eq_zero_of_not_pos hnot

lemma Sound.startSync {opened joined : Bool} {peers : List EndpointId} :
    Sound ⟨a.startSync ns opened peers joined now, superseded⟩ := by
  have hins : Sound ⟨{ a with state := a.state.insert ns }, superseded⟩ := by
    refine ⟨fun n m => ?_, ⟨h.fresh.superseded, h.fresh.dials⟩⟩
    simp only [syncState_insert]
    exact h.agrees n m
  have hdial : ∀ (l : List EndpointId) (b : LiveActor), Sound ⟨b, superseded⟩ →
      Sound ⟨l.foldl (fun a peer => a.syncWithPeer ns peer .directJoin now) b, superseded⟩ := by
    intro l
    induction l with
    | nil => exact fun b hb => hb
    | cons peer l ih => exact fun b hb => ih _ hb.syncWithPeer
  unfold LiveActor.startSync
  split
  · exact h
  · split
    · exact h
    · simp only
      split
      · exact hins
      · split
        · exact hdial peers _ hins
        · exact hins

lemma Sound.handleConnection : Sound ⟨a.handleConnection peer, superseded⟩ := by
  unfold LiveActor.handleConnection
  split
  · exact h
  · refine ⟨fun n m => ?_, ⟨fun d hd => Nat.lt_succ_of_lt (h.fresh.superseded d hd),
      fun d hd => Nat.lt_succ_of_lt (h.fresh.dials d hd)⟩⟩
    have hagr := h.agrees n m
    simp only [accepts, countP_cons, decide_eq_true_eq, reduceCtorEq, and_false,
      if_false, Nat.add_zero]
    exact hagr

variable {superseded' : List Dial}

omit h in
lemma accepts_request (superseded : List Dial) {stage : Stage} (hi : i ∈ a.runningSyncAccept)
    (hwait : i.stage = .waiting) : accepts ⟨{ a with
        state := state
        runningSyncAccept := { i with stage := stage } :: a.runningSyncAccept.erase i },
        superseded'⟩ n m =
      accepts ⟨a, superseded⟩ n m + if i.peer = m ∧ stage = .allowed n then 1 else 0 := by
  have hnot : ¬ (i.peer = m ∧ i.stage = .allowed n) := by
    rintro ⟨-, hstag⟩
    rw [hwait] at hstag
    cases hstag
  rw [accepts_endIncoming hi, if_neg hnot]
  simp only [accepts, countP_cons, decide_eq_true_eq]
  rfl

omit h in
lemma dials_supersede {accepts : List Incoming} :
    dials ⟨{ a with state := state, runningSyncAccept := accepts },
        superseded ++ a.runningSyncConnect.filter fun d => d.ns = ns ∧ d.peer = peer⟩ n m =
      if n = ns ∧ m = peer then 0 else dials ⟨a, superseded⟩ n m := by
  unfold dials
  split
  · rename_i hpair
    obtain ⟨rfl, rfl⟩ := hpair
    rw [countP_eq_zero]
    intro d hd
    simp only [decide_eq_true_eq, mem_append, mem_filter, not_and, not_not]
    intro hns hpeer
    exact .inr ⟨hd, hns, hpeer⟩
  · rename_i hpair
    apply countP_congr
    intro d hd
    simp only [decide_eq_true_eq, mem_append, mem_filter]
    constructor
    · rintro ⟨hns, hpeer, hnot⟩
      exact ⟨hns, hpeer, fun hmem => hnot (.inl hmem)⟩
    · rintro ⟨hns, hpeer, hnot⟩
      refine ⟨hns, hpeer, ?_⟩
      rintro (hmem | ⟨-, hns', hpeer'⟩)
      · exact hnot hmem
      · exact hpair ⟨hns.symm.trans hns', hpeer.symm.trans hpeer'⟩

/-- Once a request is allowed, the accepted session is the only one of its pair. -/
lemma Sound.agrees_accepted (hi : i ∈ a.runningSyncAccept) (hwait : i.stage = .waiting)
    (hstat : ∀ n m, state.syncState n m =
      if n = ns ∧ m = i.peer then .running now .accept else a.state.syncState n m)
    (hdial : ∀ n m, dials ⟨a, superseded'⟩ n m =
      if n = ns ∧ m = i.peer then 0 else dials ⟨a, superseded⟩ n m)
    (hnone : accepts ⟨a, superseded⟩ ns i.peer = 0) (n : NamespaceId) (m : EndpointId) :
    Agrees (state.syncState n m) (dials ⟨a, superseded'⟩ n m) (accepts ⟨{ a with
        state := state
        runningSyncAccept := { i with stage := .allowed ns } :: a.runningSyncAccept.erase i },
        superseded'⟩ n m) := by
  rw [accepts_request superseded hi hwait, hdial, hstat]
  by_cases heq : n = ns ∧ m = i.peer
  · rw [if_pos heq, if_pos heq]
    obtain ⟨rfl, rfl⟩ := heq
    rw [if_pos ⟨rfl, rfl⟩, hnone]
    exact ⟨rfl, rfl⟩
  · rw [if_neg heq, if_neg heq, if_neg]
    · exact h.agrees n m
    · rintro ⟨rfl, hstag⟩
      cases hstag
      exact heq ⟨rfl, rfl⟩

lemma Sound.acceptSyncRequest (hi : i ∈ a.runningSyncAccept) (hwait : i.stage = .waiting) :
    Sound ⟨a.acceptSyncRequest i ns now,
      superseded ++ supersedes a now (.acceptSyncRequest i ns)⟩ := by
  have hpair := h.agrees ns i.peer
  simp only [LiveActor.acceptSyncRequest, supersedes]
  obtain ⟨hallow, hnot, hstat⟩ | ⟨⟨reason, hrej⟩, hstat⟩ :=
    acceptRequest_spec a.state a.me ns i.peer now
  · rw [hallow]
    cases hbef : a.state.syncState ns i.peer with
    | idle =>
      simp only [hbef] at hpair
      simp only [append_nil]
      refine ⟨h.agrees_accepted hi hwait hstat (fun n m => ?_) hpair.2,
        ⟨h.fresh.superseded, h.fresh.dials⟩⟩
      split
      · rename_i heq
        rw [heq.1, heq.2]
        exact hpair.1
      · rfl
    | running start origin =>
      cases origin with
      | accept => exact absurd hbef (hnot start)
      | connect reason =>
        simp only [hbef] at hpair
        simp only
        refine ⟨h.agrees_accepted hi hwait hstat (fun n m => dials_supersede) hpair.2,
          ⟨?_, h.fresh.dials⟩⟩
        intro d hd
        cases mem_append.mp hd with
        | inl hmem => exact h.fresh.superseded d hmem
        | inr hmem => exact h.fresh.dials d (mem_of_mem_filter hmem)
  · rw [hrej]
    have hnone : (match a.state.syncState ns i.peer, AcceptOutcome.reject reason with
        | .running _ (.connect _), .allow =>
          a.runningSyncConnect.filter fun d => d.ns = ns ∧ d.peer = i.peer
        | _, _ => []) = [] := by
      split
      · rename_i hc
        cases hc
      · rfl
    rw [hnone, append_nil]
    refine ⟨fun n m => ?_, ⟨h.fresh.superseded, h.fresh.dials⟩⟩
    rw [accepts_request superseded hi hwait, if_neg]
    · simp only [hstat]
      exact h.agrees n m
    · rintro ⟨-, hstag⟩
      cases hstag

omit h

lemma Sound.step (h : Sound t) {e : SystemTime × LiveEvent} (hguar : t.Guarded e) :
    Sound (t.step e) := by
  obtain ⟨a, superseded⟩ := t
  obtain ⟨now, e⟩ := e
  simp only [Tracked.step]
  split
  · rename_i henab
    have hreg := hguar henab
    cases e with
    | startSync ns opened peers joined =>
      simp only [supersedes, append_nil]
      exact h.startSync
    | leave ns =>
      simp only [supersedes, append_nil]
      exact h.leave hreg
    | neighborUp ns peer =>
      simp only [supersedes, append_nil]
      exact h.syncWithPeer
    | syncReport ns fromPeer news =>
      simp only [supersedes, append_nil, LiveActor.step, LiveActor.onSyncReport]
      split
      · exact h.syncWithPeer
      · exact h
    | handleConnection peer =>
      simp only [supersedes, append_nil]
      exact h.handleConnection
    | acceptSyncRequest i ns =>
      simp only [LiveActor.enabled, decide_eq_true_eq] at henab
      exact h.acceptSyncRequest henab.1 henab.2
    | connectFinished d result pending =>
      simp only [LiveActor.enabled, decide_eq_true_eq] at henab
      simp only [supersedes, append_nil]
      exact h.connectFinished henab hreg
    | acceptFinished i result pending =>
      simp only [LiveActor.enabled, decide_eq_true_eq] at henab
      simp only [supersedes, append_nil]
      exact h.acceptFinished henab.1 henab.2 hreg
  · exact h

/-- An event after which the states are still right was regular. -/
lemma Sound.guarded (h : Sound t) {e : SystemTime × LiveEvent} (haft : (t.step e).Consistent) :
    t.Guarded e := by
  obtain ⟨a, superseded⟩ := t
  obtain ⟨now, e⟩ := e
  intro henab
  rw [Tracked.step, if_pos henab] at haft
  cases e with
  | startSync ns opened peers joined => trivial
  | leave ns =>
    simp only [supersedes, append_nil] at haft
    exact regular_leave haft
  | neighborUp ns peer | syncReport ns fromPeer news | handleConnection peer
  | acceptSyncRequest i ns => trivial
  | connectFinished d result pending =>
    simp only [LiveActor.enabled, decide_eq_true_eq] at henab
    simp only [supersedes, append_nil] at haft
    exact regular_connectFinished h henab haft
  | acceptFinished i result pending =>
    simp only [LiveActor.enabled, decide_eq_true_eq] at henab
    simp only [supersedes, append_nil] at haft
    exact regular_acceptFinished h henab.1 henab.2 haft

end

/-! ## Runs -/

/-- In all states of a run every pair of a document and a peer is running exactly
while one session that is not superseded is unfinished, exactly if all events of the run are
guarded. -/
theorem consistent_iff (me : EndpointId) (events : List (SystemTime × LiveEvent)) :
    Throughout Tracked.step Tracked.Consistent (.new me) events ↔
      Along Tracked.step Tracked.Guarded (.new me) events :=
  throughout_iff_along (fun _ => Sound.consistent) (fun _ _ _ h => h.step) (fun _ _ _ h => h.guarded)
    (sound_new me)

/-- We dial a peer, which refuses because it is syncing already. -/
def refusedDial : Tracked :=
  run Tracked.step (.new (.zero 32)) [(0, .startSync (.zero 32) true [.max 32] true),
    (1, .connectFinished ⟨0, .zero 32, .max 32, .directJoin⟩
      (.error (.remoteAbort .alreadySyncing)) false)]

/-- All sessions have ended, but the pair stays running, and the next dial is not allowed. -/
theorem refusedDial_running :
    refusedDial.actor.runningSyncConnect = [] ∧ refusedDial.actor.runningSyncAccept = [] ∧
      refusedDial.isRunning (.zero 32) (.max 32) = true ∧
      (refusedDial.step (2, .neighborUp (.zero 32) (.max 32))).actor.runningSyncConnect = [] := by
  decide +kernel

end Krikos.Engine
