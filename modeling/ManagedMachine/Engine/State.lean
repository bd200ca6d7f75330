import ManagedMachine.Domain.Objects

/-!
The state of a running interpreter, the frame of a method that it executes, and values on their way
from one location to another.
-/

set_option autoImplicit false
set_option relaxedAutoImplicit false

namespace ManagedMachine

/-- A domain, with an interpreter that was borrowed from it. -/
structure Running where
  domain : Domain
  interpreter : Interpreter

/-- Code of the engine, which may fail and leaves the machine as it is then. -/
abbrev RunM := EStateM Error Running

namespace Running

/-- Work on the domain of the machine. -/
def onDomain {α : Type} (x : DomainM α) : RunM α := fun
  | ⟨domain, interpreter⟩ =>
    match x domain with
    | .ok a domain => .ok a ⟨domain, interpreter⟩
    | .error e domain => .error e ⟨domain, interpreter⟩

/-- An operation of the stack of the machine. -/
def onStack {α : Type} (x : StackM α) : RunM α := fun
  | ⟨domain, id, stack, frames⟩ =>
    match x stack with
    | .ok a stack => .ok a ⟨domain, id, stack, frames⟩
    | .error e stack => .error e ⟨domain, id, stack, frames⟩

instance : MonadLift DomainM RunM := ⟨onDomain⟩

instance : MonadLift StackM RunM := ⟨onStack⟩

def stack (r : Running) : Stack := r.interpreter.stack

end Running

namespace Engine

def ofExcept {α : Type} : Except Error α → RunM α
  | .ok a => pure a
  | .error e => throw e

/-- A query of the stack. -/
def ask {α : Type} (query : Stack → α) : RunM α := fun r => .ok (query r.stack) r

/-- A query on the stack. -/
def read {α : Type} (query : Stack → Except Error α) : RunM α := fun r =>
  match query r.stack with
  | .ok a => .ok a r
  | .error e => .error e r

def modifyStack (f : Stack → Stack) : RunM Unit := Running.onStack (modify f)

def stackFault {α : Type} (fault : StackFault) : RunM α := throw (.stack fault)

/-- The descriptor of a type. -/
def descriptor (t : TypeId) : RunM Descriptor := fun r => .ok (r.domain.registry.type t) r

/-- The method at a position. -/
def method (m : MethodId) : RunM Method := fun r => .ok (r.domain.registry.method m) r

def fullName (m : Method) : RunM String := fun r => .ok (r.domain.registry.fullName m) r

end Engine

/-! ### Values in transit -/

/-- What a location holds, on the way to another one. A block stays where it is and is only good as
long as the slot that points at it stays on the stack. -/
inductive Carry where
  /-- A number, null, or the address of a stack slot or a static field. -/
  | slot (s : Slot)
  | value (v : Value)
  | block (header : Nat)
  | fieldRef (object : Value) (field : Nat)
  | elementRef (array : Value) (index : Nat)
  deriving DecidableEq

/-- What the access to an instance field goes through. -/
inductive Target where
  | block (header : Nat)
  | object (id : ObjectId)
  | null
  deriving DecidableEq

/-! ### Frames -/

/-- What happens when the pending finally and fault clauses have run. -/
inductive Resume where
  | leave (target : Nat)
  | catch (clause : Nat) (raised : Raised)
  | propagate (raised : Raised)
  deriving DecidableEq

/-- Finally and fault clauses that are running: the current one and those that follow it. -/
structure Unwind where
  current : Nat
  rest : List Nat
  resume : Resume
  deriving DecidableEq

/-- The frame of an executing method. Its arguments, locals and operands follow each other on the
stack. -/
structure Frame where
  id : MethodId
  method : Method
  body : Body
  home : ModuleId
  argBase : Nat
  argCount : Nat
  localBase : Nat
  localCount : Nat
  evalBase : Nat
  /-- The unwindings under way, innermost first. -/
  unwinds : List Unwind
  /-- The exceptions of the catch clauses being executed, the latest first, with the clause. -/
  caught : List (Nat × Raised)

/-- What the generic parameters of the method are bound to. -/
def Frame.context (f : Frame) : GenericContext := .ofMethod f.method

/-- How control goes on after an instruction. -/
inductive Outcome where
  | next
  | jump (target : Nat)
  /-- An exception that was held back by clauses goes on. -/
  | raise (raised : Raised)
  | ret (value : Option Carry)

/-- Executes a method whose arguments lie on the stack from an address up. -/
abbrev Runner := (method : MethodId) → (argBase : Nat) → RunM (Option Carry)

end ManagedMachine
