import Mathlib.Data.List.Forall2

/-!
# Lib.Check

Checks that run one after the other and stop at the first failure: a check that rejects, a value
that must be present, and what it means that a chain of checks passes.
-/

namespace Krikos.Lib
variable {ε α β : Type} {f : α → Except ε β}

/-- `if bad { return Err(e) }` -/
def reject (bad : Prop) [Decidable bad] (e : ε) : Except ε Unit :=
  if bad then .error e else .ok ()

def okOr (o : Option α) (e : ε) : Except ε α :=
  match o with
  | some a => .ok a
  | none => .error e

lemma bind_ok {x : Except ε α} {b : β} : (x >>= f) = .ok b ↔ ∃ a, x = .ok a ∧ f a = .ok b := by
  cases x with
  | error e | ok a => simp [bind, Except.bind]

lemma reject_ok {bad : Prop} [Decidable bad] {e : ε} {u : Unit} : reject bad e = .ok u ↔ ¬ bad := by
  by_cases h : bad <;> simp [reject, h]

lemma okOr_ok {o : Option α} {e : ε} {a : α} : okOr o e = .ok a ↔ o = some a := by
  cases o <;> simp [okOr]

lemma pure_ok {a b : α} : (pure a : Except ε α) = .ok b ↔ a = b := by
  simp [pure, Except.pure]

lemma map_ok {x : Except ε α} {f : α → β} {b : β} : x.map f = .ok b ↔ ∃ a, x = .ok a ∧ f a = b := by
  cases x <;> simp [Except.map]

lemma mapM_ok {l : List α} {m : List β} (h : l.mapM f = .ok m) :
    List.Forall₂ (fun a b => f a = .ok b) l m := by
  induction l generalizing m with
  | nil =>
    obtain rfl : [] = m := by simpa [pure, Except.pure] using h
    exact .nil
  | cons a l ih =>
    simp only [List.mapM_cons, bind_ok, pure_ok] at h
    obtain ⟨b, hb, rest, hrest, rfl⟩ := h
    exact .cons hb (ih hrest)

end Krikos.Lib
