/-!
# Lib.Calls

Programs that call a service. A program either ends, fails, or sends a request and goes on with
the answer; it never sees the service's state. `Calls.run` runs a program alone against a service
that is given by what it does to its state for each request.
-/

namespace Krikos.Lib

inductive Calls (Req : Type) (Resp : Req → Type) (ε α : Type) where
  | done (a : α)
  | fail (e : ε)
  | call (req : Req) (k : Resp req → Calls Req Resp ε α)

namespace Calls
variable {Req : Type} {Resp : Req → Type} {ε α β σ : Type}

protected def bind : Calls Req Resp ε α → (α → Calls Req Resp ε β) → Calls Req Resp ε β
  | done a, f => f a
  | fail e, _ => fail e
  | call req k, f => call req fun resp => (k resp).bind f

instance : Monad (Calls Req Resp ε) where
  pure := done
  bind := Calls.bind

theorem bind_assoc {γ : Type} (p : Calls Req Resp ε α) (f : α → Calls Req Resp ε β)
    (g : β → Calls Req Resp ε γ) : p >>= f >>= g = p >>= fun a => f a >>= g := by
  induction p with
  | done a | fail e => rfl
  | call req k ih => exact congrArg (call req) (funext ih)

def ask (req : Req) : Calls Req Resp ε (Resp req) := call req done

/-- The `?` operator: a failed answer ends the program. -/
def check : Except ε α → Calls Req Resp ε α
  | .ok a => done a
  | .error e => fail e

/-- The service's state after the program, and the program's result. -/
def run (handle : (req : Req) → σ → σ × Resp req) : Calls Req Resp ε α → σ → σ × Except ε α
  | done a, s => (s, .ok a)
  | fail e, s => (s, .error e)
  | call req k, s => (k (handle req s).2).run handle (handle req s).1

section
variable {handle : (req : Req) → σ → σ × Resp req} {s : σ}

@[simp] theorem run_pure (a : α) : (pure a : Calls Req Resp ε α).run handle s = (s, .ok a) := rfl

theorem run_bind (p : Calls Req Resp ε α) (f : α → Calls Req Resp ε β) : (p >>= f).run handle s =
      match p.run handle s with
      | (s', .ok a) => (f a).run handle s'
      | (s', .error e) => (s', .error e) := by
  induction p generalizing s with
  | done a | fail e => rfl
  | call req k ih => exact ih _

@[simp] theorem run_ask_bind (req : Req) (f : Resp req → Calls Req Resp ε β) :
    (ask req >>= f).run handle s = (f (handle req s).2).run handle (handle req s).1 := rfl

@[simp] theorem run_check_bind_ok (a : α) (f : α → Calls Req Resp ε β) :
    (check (.ok a) >>= f).run handle s = (f a).run handle s := rfl

end
end Calls
end Krikos.Lib
