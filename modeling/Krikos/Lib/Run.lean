/-!
# Lib.Run

Runs of a state machine: a condition on every step of a run (`Along`), a property of every state
that it reaches (`Throughout`), and the induction from the one to the other.
-/

namespace Krikos.Lib
variable {S E : Type}

def run (step : S → E → S) (s : S) (events : List E) : S := events.foldl step s

/-- Every event meets the condition in the state that it is handled in. -/
def Along (step : S → E → S) (ok : S → E → Prop) : S → List E → Prop
  | _, [] => True
  | s, event :: events => ok s event ∧ Along step ok (step s event) events

/-- Every state of the run has the property, from the first to the last one. -/
def Throughout (step : S → E → S) (P : S → Prop) : S → List E → Prop
  | s, [] => P s
  | s, event :: events => P s ∧ Throughout step P (step s event) events

section
variable {step : S → E → S} {ok : S → E → Prop} {P : S → Prop} {s : S} {events : List E}

instance decidableAlong [∀ s event, Decidable (ok s event)] (s : S) (events : List E) :
    Decidable (Along step ok s events) :=
  match events with
  | [] => inferInstanceAs (Decidable True)
  | event :: events =>
    have := decidableAlong (step s event) events
    inferInstanceAs (Decidable (ok s event ∧ Along step ok (step s event) events))

theorem run_append (first rest : List E) :
    run step s (first ++ rest) = run step (run step s first) rest := List.foldl_append

theorem Along.and {ok' : S → E → Prop} (h : Along step ok s events) (h' : Along step ok' s events) :
    Along step (fun s event => ok s event ∧ ok' s event) s events := by
  induction events generalizing s with
  | nil => trivial
  | cons event events ih => exact ⟨⟨h.1, h'.1⟩, ih h.2 h'.2⟩

/-- Steps that keep an invariant meet what it gives them. -/
theorem Along.imp {ok' : S → E → Prop} (h : Along step ok s events) (hs : P s)
    (hstep : ∀ s event, P s → ok s event → P (step s event) ∧ ok' s event) :
    Along step ok' s events := by
  induction events generalizing s with
  | nil => trivial
  | cons event events ih => exact ⟨(hstep s event hs h.1).2, ih h.2 (hstep s event hs h.1).1⟩

/-- A property of the first state that every allowed step keeps holds in every state. -/
theorem throughout_of_along (hstep : ∀ s event, P s → ok s event → P (step s event)) (hs : P s)
    (h : Along step ok s events) : Throughout step P s events := by
  induction events generalizing s with
  | nil => exact hs
  | cons event events ih => exact ⟨hs, ih (hstep s event hs h.1) h.2⟩

theorem Throughout.imp {Q : S → Prop} (h : Throughout step P s events) (hPQ : ∀ s, P s → Q s) :
    Throughout step Q s events := by
  induction events generalizing s with
  | nil => exact hPQ s h
  | cons event events ih => exact ⟨hPQ s h.1, ih h.2⟩

theorem Throughout.first (h : Throughout step P s events) : P s := by
  cases events with
  | nil => exact h
  | cons event events => exact h.1

theorem Throughout.last (h : Throughout step P s events) : P (run step s events) := by
  induction events generalizing s with
  | nil => exact h
  | cons event events ih => exact ih h.2

/-- A property that comes with an invariant holds in every state exactly if every event meets the
condition, when the condition is what a step needs to keep the invariant. -/
theorem throughout_iff_along {I : S → Prop} (hP : ∀ s, I s → P s)
    (hkeep : ∀ event ∈ events, ∀ s, I s → ok s event → I (step s event))
    (hneed : ∀ event ∈ events, ∀ s, I s → P (step s event) → ok s event) (hs : I s) :
    Throughout step P s events ↔ Along step ok s events := by
  induction events generalizing s with
  | nil => exact iff_of_true (hP s hs) trivial
  | cons event events ih =>
    obtain ⟨hkeep, hkeeps⟩ := List.forall_mem_cons.mp hkeep
    obtain ⟨hneed, hneeds⟩ := List.forall_mem_cons.mp hneed
    constructor
    · rintro ⟨-, hrest⟩
      have hok := hneed s hs hrest.first
      exact ⟨hok, (ih hkeeps hneeds (hkeep s hs hok)).mp hrest⟩
    · rintro ⟨hok, hrest⟩
      exact ⟨hP s hs, (ih hkeeps hneeds (hkeep s hs hok)).mpr hrest⟩

end
end Krikos.Lib
