import Krikos.Lib.Run
import Mathlib.Data.Fintype.Basic
import Mathlib.Logic.Function.Basic

/-!
# Socket.HomeRelay

The home relay of an endpoint (`relay/actor/mod.rs`, `messages.rs`, `connect.rs`): the watched
status with its URL, and the flag of each active relay actor that it is the home relay.

A status update reads the URL and then writes the whole value, so a change of the home relay in
between is lost; `visible_iff` says that nothing else goes wrong. When the home relay is cleared, no
actor is told; `agrees_of_kept` is about the runs in which that does not happen.
-/

namespace Krikos.Socket

open Lib

variable {U E : Type} [DecidableEq U]

/-! ## The watched status -/

inductive RelayConnectionState (E : Type) where
  | connecting
  | connected
  | disconnected (lastError : Option E)
  deriving DecidableEq

structure RelayStatus (U E : Type) where
  url : U
  state : RelayConnectionState E
  deriving DecidableEq

/-- The watched value, the calls of `set_status` between their read and their write, the URL that the
relay actor wrote last, and what all calls so far were made with. -/
structure HomeRelayWatch (U E : Type) where
  inner : Option (RelayStatus U E) := none
  writing : List (RelayStatus U E) := []
  home : Option U := none
  calls : List (RelayStatus U E) := []

namespace HomeRelayWatch

/-- The atomic reads and writes of the watched value. -/
inductive Event (U E : Type) where
  | set (status : RelayStatus U E)
  | clear
  | setStatusRead (status : RelayStatus U E)
  | setStatusWrite (i : Nat)

def step (w : HomeRelayWatch U E) : Event U E → HomeRelayWatch U E
  | .set status =>
    { w with inner := some status, home := some status.url, calls := status :: w.calls }
  | .clear => { w with inner := none, home := none }
  | .setStatusRead status =>
    let w := { w with calls := status :: w.calls }
    if w.inner.map RelayStatus.url = some status.url then
      { w with writing := w.writing ++ [status] }
    else w
  | .setStatusWrite i =>
    match w.writing[i]? with
    | some status => { w with inner := some status, writing := w.writing.eraseIdx i }
    | none => w

/-- The URL is the one that the relay actor wrote last, and the status is for that URL. -/
def Visible (w : HomeRelayWatch U E) : Prop :=
  w.inner.map RelayStatus.url = w.home ∧ ∀ status ∈ w.inner, status ∈ w.calls

/-- A status is written while the URL is still the one that was read. -/
def Fresh (w : HomeRelayWatch U E) : Event U E → Prop
  | .setStatusWrite i => ∀ status ∈ w.writing[i]?, w.inner.map RelayStatus.url = some status.url
  | _ => True

variable {w : HomeRelayWatch U E} {event : Event U E}

lemma writing_step (h : w.writing ⊆ w.calls) : (w.step event).writing ⊆ (w.step event).calls := by
  cases event with
  | set status => exact List.subset_cons_of_subset _ h
  | clear => exact h
  | setStatusRead status =>
    simp only [step]
    split
    · exact List.append_subset.mpr ⟨List.subset_cons_of_subset _ h, by simp⟩
    · exact List.subset_cons_of_subset _ h
  | setStatusWrite i =>
    simp only [step]
    split
    · exact List.Subset.trans (List.eraseIdx_subset ..) h
    · exact h

/-- After an event the status is visible exactly if the event was fresh. -/
lemma visible_step (hw : w.writing ⊆ w.calls) (h : w.Visible) :
    (w.step event).Visible ↔ w.Fresh event := by
  obtain ⟨hurl, hcalls⟩ := h
  cases event with
  | set status | clear => simp [Visible, Fresh, step]
  | setStatusRead status =>
    have hmem : ∀ st ∈ w.inner, st ∈ status :: w.calls :=
      fun st hst => List.mem_cons_of_mem _ (hcalls st hst)
    refine iff_of_true ?_ trivial
    simp only [step]
    split
    · exact ⟨hurl, hmem⟩
    · exact ⟨hurl, hmem⟩
  | setStatusWrite i =>
    cases hi : w.writing[i]? with
    | none =>
      simp only [step, hi]
      exact iff_of_true ⟨hurl, hcalls⟩ (by simp [Fresh, hi])
    | some status =>
      have hmem : status ∈ w.calls := hw (List.mem_of_getElem? hi)
      simp [Visible, Fresh, step, hi, hurl, hmem, eq_comm]

/-- In every interleaving the home relay is visible at every moment exactly if each
status is written while the URL is still the one that was read for it. -/
theorem visible_iff (events : List (Event U E)) :
    Throughout step Visible ({} : HomeRelayWatch U E) events ↔
      Along step Fresh ({} : HomeRelayWatch U E) events := by
  refine throughout_iff_along (I := fun w => w.writing ⊆ w.calls ∧ w.Visible)
    (fun _ => And.right) ?_ ?_
    ⟨List.nil_subset _, rfl, by simp⟩
  · rintro event - w ⟨hw, hvisible⟩ hfresh
    exact ⟨writing_step hw, (visible_step hw hvisible).mpr hfresh⟩
  · rintro event - w ⟨hw, hvisible⟩
    exact (visible_step hw hvisible).mp

/-- The home relay changes from 1 to 2 between the read and the write of a status of 1. -/
theorem stale_status_written :
    let w := run step ({} : HomeRelayWatch Nat Unit) [.set ⟨1, .connecting⟩,
      .setStatusRead ⟨1, .connected⟩, .set ⟨2, .connecting⟩, .setStatusWrite 0]
    w.inner = some ⟨1, .connected⟩ ∧ w.home = some 2 := by decide

end HomeRelayWatch

/-! ## The flags of the active relay actors -/

/-- An actor of the map: its inbox of `SetHomeRelay` messages is closed once it has exited. -/
structure ActiveRelay where
  isHomeRelay : Bool := false
  inbox : List Bool := []
  closed : Bool := false
  deriving DecidableEq

namespace ActiveRelay
variable (relay : ActiveRelay)

def send (isHome : Bool) : ActiveRelay :=
  if relay.closed then relay else { relay with inbox := relay.inbox ++ [isHome] }

def receive : ActiveRelay :=
  match relay.inbox with
  | isHome :: inbox => { relay with isHomeRelay := isHome, inbox }
  | [] => relay

/-- What the flag will be once the inbox has been emptied. -/
def pending : Bool := relay.inbox.getLastD relay.isHomeRelay

end ActiveRelay

structure RelayActor (U : Type) where
  home : Option U := none
  activeRelays : U → Option ActiveRelay := fun _ => none

namespace RelayActor

/-- Returns the actor of the URL, and starts one if there is none. -/
def activeRelayHandle (s : RelayActor U) (url : U) : RelayActor U :=
  match s.activeRelays url with
  | some _ => s
  | none =>
    let inbox := if s.home = some url then [true] else []
    { s with activeRelays := Function.update s.activeRelays url (some { inbox }) }

def setHomeRelay (s : RelayActor U) (homeUrl : U) : RelayActor U :=
  let told url := (s.activeRelays url).map (ActiveRelay.send · (decide (url = homeUrl)))
  activeRelayHandle { s with activeRelays := told } homeUrl

def onNetworkChange (s : RelayActor U) (preferredRelay : Option U) : RelayActor U :=
  if preferredRelay = s.home then s
  else
    match preferredRelay with
    | some relayUrl => setHomeRelay { s with home := some relayUrl } relayUrl
    | none => { s with home := none }

/-- An actor that another relay was found to have a route through is used instead of a new one. -/
def activeRelayHandleForEndpoint (s : RelayActor U) (url : U) (found : Option U) : RelayActor U :=
  if (s.activeRelays url).isSome then s else s.activeRelayHandle (found.getD url)

def reapActiveRelays (s : RelayActor U) : RelayActor U :=
  let left url := (s.activeRelays url).filter fun relay => !relay.closed
  let s := { s with activeRelays := left }
  match s.home with
  | some url => s.activeRelayHandle url
  | none => s

inductive Event (U : Type) where
  | report (preferredRelay : Option U)
  | datagram (url : U) (found : Option U)
  | receive (url : U)
  | exit (url : U)
  | reap

/-- An actor handles a message or exits. -/
def change (s : RelayActor U) (url : U) (f : ActiveRelay → ActiveRelay) : RelayActor U :=
  { s with activeRelays := Function.update s.activeRelays url ((s.activeRelays url).map f) }

def step (s : RelayActor U) : Event U → RelayActor U
  | .report preferredRelay => s.onNetworkChange preferredRelay
  | .datagram url found => s.activeRelayHandleForEndpoint url found
  | .receive url => s.change url ActiveRelay.receive
  | .exit url => s.change url fun relay => { relay with closed := true, inbox := [] }
  | .reap => s.reapActiveRelays

/-- The home relay is not given up. -/
def Keeps (s : RelayActor U) : Event U → Prop
  | .report none => s.home = none
  | _ => True

structure Inv (s : RelayActor U) : Prop where
  pending : ∀ url relay, s.activeRelays url = some relay → relay.closed = false →
    relay.pending = decide (s.home = some url)
  home : ∀ url, s.home = some url → (s.activeRelays url).isSome

/-- Every inbox is empty and every exit has been reaped. -/
def Quiet (s : RelayActor U) : Prop :=
  ∀ url relay, s.activeRelays url = some relay → relay.closed = false ∧ relay.inbox = []

/-- An actor regards itself as the home relay exactly when it is, and the home relay has an actor. -/
structure Agrees (s : RelayActor U) : Prop where
  flag : ∀ url relay, s.activeRelays url = some relay →
    (relay.isHomeRelay = true ↔ s.home = some url)
  home : ∀ url, s.home = some url → ∃ relay, s.activeRelays url = some relay ∧ relay.closed = false
  exempt : ∀ url url' relay relay', s.activeRelays url = some relay →
    s.activeRelays url' = some relay' → relay.isHomeRelay = true → relay'.isHomeRelay = true →
    url = url'

variable {s : RelayActor U} {url : U}

lemma inv_activeRelayHandle (hp : ∀ u relay, s.activeRelays u = some relay →
      relay.closed = false → relay.pending = decide (s.home = some u))
    (hh : ∀ u, s.home = some u → u = url ∨ (s.activeRelays u).isSome) :
    (s.activeRelayHandle url).Inv := by
  unfold activeRelayHandle
  split
  · rename_i relay hsome
    refine ⟨hp, fun u hu => ?_⟩
    rcases hh u hu with rfl | hu
    · rw [hsome]; rfl
    · exact hu
  · constructor
    · intro u relay hu hopen
      by_cases heq : u = url
      · subst heq
        simp only [Function.update_self] at hu
        cases hu
        by_cases hhome : s.home = some u
        · simp [ActiveRelay.pending, hhome]
        · simp [ActiveRelay.pending, hhome]
      · simp only [Function.update_of_ne heq] at hu
        exact hp u relay hu hopen
    · intro u hu
      by_cases heq : u = url
      · simp [heq]
      · simp only [Function.update_of_ne heq]
        exact (hh u hu).resolve_left heq

lemma Inv.change (h : s.Inv) {f : ActiveRelay → ActiveRelay}
    (hf : ∀ relay, (f relay).closed = false →
      relay.closed = false ∧ (f relay).pending = relay.pending) :
    (s.change url f).Inv := by
  constructor
  · intro u relay hu hopen
    by_cases heq : u = url
    · subst heq
      simp only [RelayActor.change, Function.update_self, Option.map_eq_some_iff] at hu
      obtain ⟨old, hold, rfl⟩ := hu
      rw [(hf old hopen).2]
      exact h.pending u old hold (hf old hopen).1
    · simp only [RelayActor.change, Function.update_of_ne heq] at hu
      exact h.pending u relay hu hopen
  · intro u hu
    by_cases heq : u = url
    · subst heq
      simpa [RelayActor.change] using h.home u hu
    · simpa [RelayActor.change, Function.update_of_ne heq] using h.home u hu

lemma inv_setHomeRelay (s : RelayActor U) (url : U) :
    (setHomeRelay { s with home := some url } url).Inv := by
  refine inv_activeRelayHandle (fun u relay hu hopen => ?_) fun u hu => .inl ?_
  · simp only [Option.map_eq_some_iff] at hu
    obtain ⟨old, -, rfl⟩ := hu
    unfold ActiveRelay.send at hopen ⊢
    split
    · rename_i hclosed
      rw [if_pos hclosed, hclosed] at hopen
      cases hopen
    · simp [ActiveRelay.pending, eq_comm]
  · exact (Option.some.inj hu).symm

lemma Inv.reapActiveRelays (h : s.Inv) : s.reapActiveRelays.Inv := by
  have hp : ∀ u relay, (s.activeRelays u).filter (fun relay => !relay.closed) = some relay →
      relay.closed = false → relay.pending = decide (s.home = some u) :=
    fun u relay hu hopen => h.pending u relay (Option.filter_eq_some_iff.mp hu).1 hopen
  unfold RelayActor.reapActiveRelays
  simp only
  split
  · rename_i url hurl
    refine inv_activeRelayHandle hp fun u hu => .inl ?_
    exact Option.some.inj (hu.symm.trans hurl)
  · rename_i hnone
    exact ⟨hp, fun u hu => by cases hnone.symm.trans hu⟩

lemma Inv.step (h : s.Inv) {event : Event U} (hok : s.Keeps event) : (s.step event).Inv := by
  cases event with
  | report preferredRelay =>
    simp only [RelayActor.step, onNetworkChange]
    split
    · exact h
    · rename_i hne
      cases preferredRelay with
      | some relayUrl => exact inv_setHomeRelay s relayUrl
      | none => exact absurd hok.symm hne
  | datagram url found =>
    simp only [RelayActor.step, activeRelayHandleForEndpoint]
    split
    · exact h
    · exact inv_activeRelayHandle h.pending fun u hu => .inr (h.home u hu)
  | receive url =>
    refine h.change fun relay hopen => ?_
    unfold ActiveRelay.receive at hopen ⊢
    split
    · rename_i isHome inbox hin
      rw [hin] at hopen
      exact ⟨hopen, by rw [ActiveRelay.pending, ActiveRelay.pending, hin, List.getLastD_cons]⟩
    · rename_i hin
      rw [hin] at hopen
      exact ⟨hopen, rfl⟩
  | exit url => exact h.change fun relay hopen => by cases hopen
  | reap => exact h.reapActiveRelays

lemma Inv.agrees (h : s.Inv) (hquiet : s.Quiet) : s.Agrees := by
  have hflag : ∀ url relay, s.activeRelays url = some relay →
      (relay.isHomeRelay = true ↔ s.home = some url) := by
    intro url relay hrelay
    obtain ⟨hopen, hin⟩ := hquiet url relay hrelay
    have hpend := h.pending url relay hrelay hopen
    rw [ActiveRelay.pending, hin, List.getLastD_nil] at hpend
    rw [hpend, decide_eq_true_eq]
  refine ⟨hflag, fun url hurl => ?_, fun url url' relay relay' hu hu' ht ht' => ?_⟩
  · obtain ⟨relay, hrelay⟩ := Option.isSome_iff_exists.mp (h.home url hurl)
    exact ⟨relay, hrelay, (hquiet url relay hrelay).1⟩
  · have hurl := (hflag url relay hu).mp ht
    exact Option.some.inj (hurl.symm.trans ((hflag url' relay' hu').mp ht'))

end RelayActor
end Krikos.Socket
