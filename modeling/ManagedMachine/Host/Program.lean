import ManagedMachine.Error

/-!
Host code as data. A program ends with a value or an error, or it asks for something and goes on
with the answer; what it may ask for is its request type. The failure of a request is an answer like
any other, which a program may pass on or ignore. `Program.run` gives a program its meaning: a
handler for its requests.
-/

set_option autoImplicit false
set_option relaxedAutoImplicit false

namespace ManagedMachine

/-- Host code as a tree: it ends, it fails, or it asks something and goes on with the answer. -/
inductive Program (Req : Type) (Ans : Req → Type) (α : Type) where
  | done (a : α)
  | fail (e : Error)
  | ask (r : Req) (next : Except Error (Ans r) → Program Req Ans α)

namespace Program

variable {Req : Type} {Ans : Req → Type} {α β σ : Type}

/-- Runs a program, and another one with what it gave. -/
def bind : Program Req Ans α → (α → Program Req Ans β) → Program Req Ans β
  | done a, f => f a
  | fail e, _ => fail e
  | ask r next, f => ask r fun answer => bind (next answer) f

instance : Monad (Program Req Ans) where
  pure := done
  bind := bind

def ofExcept : Except Error α → Program Req Ans α
  | .ok a => done a
  | .error e => fail e

instance : MonadLift (Except Error) (Program Req Ans) := ⟨ofExcept⟩

/-- Continues with a handler where a program fails. -/
def orElse : Program Req Ans α → (Error → Program Req Ans α) → Program Req Ans α
  | done a, _ => done a
  | fail e, handler => handler e
  | ask r next, handler => ask r fun answer => orElse (next answer) handler

instance : MonadExceptOf Error (Program Req Ans) where
  throw := fail
  tryCatch := orElse

/-- Asks for something and ends if that fails. -/
def request (r : Req) : Program Req Ans (Ans r) := ask r ofExcept

/-- Asks for something and goes on whether or not that fails. -/
def attempt (r : Req) : Program Req Ans (Except Error (Ans r)) := ask r done

/-- Runs a program. Only the end of the evaluation bound is no answer to a request. -/
def run (handle : (r : Req) → EStateM Error σ (Ans r)) : Program Req Ans α → EStateM Error σ α
  | done a => pure a
  | fail e => throw e
  | ask r next => fun s =>
    match handle r s with
    | .ok answer s => run handle (next (.ok answer)) s
    | .error .outOfFuel s => .error .outOfFuel s
    | .error e s => run handle (next (.error e)) s

@[simp] theorem bind_done (p : Program Req Ans α) : p.bind done = p := by
  induction p with
  | done a => rfl
  | fail e => rfl
  | ask r next ih => simp [bind, ih]

theorem bind_assoc {γ : Type} (p : Program Req Ans α) (f : α → Program Req Ans β)
    (g : β → Program Req Ans γ) : (p.bind f).bind g = p.bind fun a => (f a).bind g := by
  induction p with
  | done a => rfl
  | fail e => rfl
  | ask r next ih => simp [bind, ih]

end Program

end ManagedMachine
