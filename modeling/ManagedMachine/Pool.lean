import ManagedMachine.Descriptor
import ManagedMachine.Stack

/-!
Interpreters and the pool that lends them. A call from the host borrows an interpreter for its whole
duration, and gives it back with an empty stack. A new interpreter is made only when none is idle.
-/

set_option autoImplicit false
set_option relaxedAutoImplicit false

namespace ManagedMachine

/-- A running frame: its method and the address of the executing instruction. -/
structure Activation where
  method : MethodId
  addr : Nat
  deriving DecidableEq

/-- One interpreter, with its stack and the frames that run on it. -/
structure Interpreter where
  id : Nat
  stack : Stack
  /-- The running frames, innermost first. -/
  frames : List Activation
  deriving Inhabited

namespace Interpreter

def fresh (id capacity : Nat) : Interpreter := ⟨id, .empty capacity, []⟩

/-- An interpreter without operands and without frames. -/
def clear (i : Interpreter) : Interpreter := { i with stack := i.stack.clear, frames := [] }

end Interpreter

/-- The state of an interpreter that a debugger can suspend, in a diagnostic. -/
def Suspension.describe (suspended : Bool) : String :=
  "SuspendHandle \x7b " ++ s!"suspended: {suspended}" ++ " \x7d"

/-- The interpreters of a domain, idle and lent. -/
structure Pool where
  /-- Slots of the stack of a new interpreter. -/
  capacity : Nat
  /-- Interpreters waiting for a call; the one given back last goes out first. -/
  idle : List Interpreter
  created : Nat
  /-- The borrowed interpreters, in ascending order. -/
  live : List Nat
  /-- The interpreters that a debugger has suspended. -/
  suspended : List Nat

namespace Pool

def empty (capacity : Nat) : Pool := ⟨capacity, [], 0, [], []⟩

def insertSorted (id : Nat) : List Nat → List Nat
  | [] => [id]
  | other :: rest => if id ≤ other then id :: other :: rest else other :: insertSorted id rest

/-- Lends an idle interpreter, or a new one. -/
def acquire (p : Pool) : Interpreter × Pool :=
  match p.idle with
  | i :: idle => (i, { p with idle, live := insertSorted i.id p.live })
  | [] =>
    let id := p.created + 1
    (.fresh id p.capacity, { p with created := id, live := insertSorted id p.live })

/-- Takes an interpreter back, cleared. -/
def release (p : Pool) (i : Interpreter) : Pool :=
  { p with idle := i.clear :: p.idle, live := p.live.erase i.id }

/-- Is a borrowed interpreter suspended? -/
def isSuspended? (p : Pool) (id : Nat) : Option Bool :=
  if p.live.contains id then some (p.suspended.contains id) else none

def suspend (p : Pool) (id : Nat) : Pool := { p with suspended := id :: p.suspended }

def resume (p : Pool) (id : Nat) : Pool :=
  { p with suspended := p.suspended.filter (· != id) }

end Pool

end ManagedMachine
