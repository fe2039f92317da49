import Krikos.Lib.Run
import Mathlib.Data.List.Basic

/-!
# Socket.DirectAddr

Direct address updates (`direct_addr.rs`, `actor.rs`). An update holds the lock of the net reporter
while it runs, and beyond that until its notice has been sent; the socket actor starts what was
requested meanwhile when it receives the notice.

The notice may be received before the lock is released: then nothing is started, and nothing will
be. Of the pending requests the last one decides. `updates_in_order` leaves these two out.
-/

namespace Krikos.Socket

open Lib

inductive UpdateReason where
  | none
  | periodic
  | portmapUpdated
  | linkChangeMajor
  | linkChangeMinor
  | relayMapChange
  deriving DecidableEq

def UpdateReason.isMajor : UpdateReason → Bool
  | .linkChangeMajor | .relayMapChange => true
  | _ => false

/-- The task of an update, which ends by sending its notice. -/
structure DirectAddrUpdate where
  why : UpdateReason
  notified : Bool := false
  deriving DecidableEq

/-- The pending update, the lock, the tasks that hold it, the notices that wait in the channel of
eight, and the requests since the last update was started. -/
structure DirectAddrUpdateState where
  wantUpdate : Option UpdateReason := none
  netReporter : Bool := false
  tasks : List DirectAddrUpdate := []
  runDone : Nat := 0
  requests : List UpdateReason := []
  deriving DecidableEq

namespace DirectAddrUpdateState

/-- Starts an update under the lock. -/
def run (s : DirectAddrUpdateState) (why : UpdateReason) : DirectAddrUpdateState :=
  { s with netReporter := true, tasks := s.tasks ++ [{ why }], requests := [] }

def scheduleRun (s : DirectAddrUpdateState) (why : UpdateReason) : DirectAddrUpdateState :=
  if s.netReporter then { s with wantUpdate := some why, requests := s.requests ++ [why] }
  else s.run why

def tryRun (s : DirectAddrUpdateState) : DirectAddrUpdateState :=
  if s.netReporter then s
  else
    match s.wantUpdate with
    | some why => { s with wantUpdate := none }.run why
    | none => s

inductive Event where
  | request (why : UpdateReason)
  | finish (i : Nat)
  | release (i : Nat)
  | receive

def step (s : DirectAddrUpdateState) : Event → DirectAddrUpdateState
  | .request why => s.scheduleRun why
  | .finish i =>
    match s.tasks[i]? with
    | some ⟨why, false⟩ =>
      if s.runDone < 8 then
        { s with tasks := s.tasks.set i ⟨why, true⟩, runDone := s.runDone + 1 }
      else s
    | _ => s
  | .release i =>
    match s.tasks[i]? with
    | some ⟨_, true⟩ => { s with tasks := s.tasks.eraseIdx i, netReporter := false }
    | _ => s
  | .receive => if 0 < s.runDone then { s with runDone := s.runDone - 1 }.tryRun else s

/-- The last notice is received after the lock has been released, and a request does not replace a
pending one that is major by one that is not. -/
def InOrder (s : DirectAddrUpdateState) : Event → Prop
  | .request why => s.netReporter = true → ∀ old ∈ s.wantUpdate, old.isMajor = true →
      why.isMajor = true
  | .receive => ∀ task ∈ s.tasks, task.notified = true → 1 < s.runDone
  | _ => True

/-- At most one update runs, nothing is pending when none runs and no notice waits, and the update
that a notice starts is major after a major request since the last one was started. -/
structure Sound (s : DirectAddrUpdateState) : Prop where
  one : s.tasks.length ≤ 1
  pending : (∀ task ∈ s.tasks, task.notified = true) → s.runDone = 0 → s.wantUpdate = none
  major : ∀ task, (s.step .receive).tasks = s.tasks ++ [task] →
    (∃ why ∈ s.requests, why.isMajor = true) → task.why.isMajor = true

/-- Either the lock is free, or the only task holds it; a notice waits for what is pending. -/
structure Inv (s : DirectAddrUpdateState) : Prop where
  lock : s.tasks = [] ∧ s.netReporter = false ∧ (s.wantUpdate.isSome = true → 0 < s.runDone) ∨
    ∃ task, s.tasks = [task] ∧ s.netReporter = true ∧ (task.notified = true → 0 < s.runDone)
  major : (∃ why ∈ s.requests, why.isMajor = true) → ∃ why ∈ s.wantUpdate, why.isMajor = true

variable {s : DirectAddrUpdateState}

lemma inv_run (htasks : s.tasks = []) (why : UpdateReason) : (s.run why).Inv :=
  ⟨.inr ⟨{ why }, by simp [run, htasks], rfl, nofun⟩, by simp [run]⟩

lemma Inv.scheduleRun (h : s.Inv) {why : UpdateReason} (hok : s.InOrder (.request why)) :
    (s.scheduleRun why).Inv := by
  unfold DirectAddrUpdateState.scheduleRun
  rcases h.lock with ⟨htasks, hfree, -⟩ | ⟨task, htasks, hheld, hsent⟩
  · rw [if_neg (by simp [hfree])]
    exact inv_run htasks why
  · rw [if_pos hheld]
    refine ⟨.inr ⟨task, htasks, hheld, hsent⟩, ?_⟩
    rintro ⟨r, hr, hmajor⟩
    refine ⟨why, rfl, ?_⟩
    rcases List.mem_append.mp hr with hold | hnew
    · obtain ⟨old, hwant, hold⟩ := h.major ⟨r, hold, hmajor⟩
      exact hok hheld old hwant hold
    · exact List.mem_singleton.mp hnew ▸ hmajor

lemma Inv.receive (h : s.Inv) (hok : s.InOrder .receive) : (s.step .receive).Inv := by
  simp only [step]
  split
  · rename_i hpos
    unfold tryRun
    rcases h.lock with ⟨htasks, hfree, hwait⟩ | ⟨task, htasks, hheld, hsent⟩
    · rw [if_neg (by simp [hfree])]
      split
      · apply inv_run
        exact htasks
      · rename_i hnone
        have hnone : s.wantUpdate = none := hnone
        exact ⟨.inl ⟨htasks, hfree, by simp [hnone]⟩, h.major⟩
    · rw [if_pos hheld]
      refine ⟨.inr ⟨task, htasks, hheld, fun hnot => ?_⟩, h.major⟩
      have hlt := hok task (by simp [htasks]) hnot
      exact Nat.sub_pos_of_lt hlt
  · exact h

lemma Inv.step (h : s.Inv) {event : Event} (hok : s.InOrder event) : (s.step event).Inv := by
  cases event with
  | request why => exact h.scheduleRun hok
  | receive => exact h.receive hok
  | finish i =>
    simp only [DirectAddrUpdateState.step]
    split
    · rename_i why htask
      split
      · rcases h.lock with ⟨htasks, -⟩ | ⟨task, htasks, hheld, -⟩
        · simp [htasks] at htask
        · obtain rfl : i = 0 := by
            have hlt := (List.getElem?_eq_some_iff.mp htask).1
            simpa [htasks] using hlt
          exact ⟨.inr ⟨⟨why, true⟩, by simp [htasks], hheld, fun _ => Nat.succ_pos _⟩, h.major⟩
      · exact h
    · exact h
  | release i =>
    simp only [DirectAddrUpdateState.step]
    split
    · rename_i why htask
      rcases h.lock with ⟨htasks, -⟩ | ⟨task, htasks, hheld, hsent⟩
      · simp [htasks] at htask
      · obtain rfl : i = 0 := by
          have hlt := (List.getElem?_eq_some_iff.mp htask).1
          simpa [htasks] using hlt
        have hpos : 0 < s.runDone := hsent (by simp [htasks] at htask; simp [htask])
        exact ⟨.inl ⟨by simp [htasks], rfl, fun _ => hpos⟩, h.major⟩
    · exact h

lemma tasks_receive {why : UpdateReason} (h : s.wantUpdate = some why) :
    (s.step .receive).tasks = s.tasks ∨ (s.step .receive).tasks = s.tasks ++ [⟨why, false⟩] := by
  simp only [step, tryRun, h]
  split
  · split
    · exact .inl rfl
    · exact .inr rfl
  · exact .inl rfl

lemma Inv.sound (h : s.Inv) : s.Sound := by
  refine ⟨?_, fun hall hdone => ?_, fun task htask hmajor => ?_⟩
  · rcases h.lock with ⟨htasks, -⟩ | ⟨task, htasks, -⟩
    · simp [htasks]
    · simp [htasks]
  · rcases h.lock with ⟨-, -, hwait⟩ | ⟨task, htasks, -, hsent⟩
    · cases hwant : s.wantUpdate with
      | none => rfl
      | some why => exact absurd (hwait (by simp [hwant])) (by omega)
    · exact absurd (hsent (hall task (by simp [htasks]))) (by omega)
  · obtain ⟨why, hwant, hwhy⟩ := h.major hmajor
    rcases tasks_receive hwant with hsame | hnew
    · simp [hsame] at htask
    · obtain rfl : ⟨why, false⟩ = task := by simpa [hnew] using htask
      exact hwhy

end DirectAddrUpdateState
end Krikos.Socket
