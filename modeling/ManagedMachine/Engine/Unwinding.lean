import ManagedMachine.Engine.State

/-!
Exceptions within a frame. A raised exception goes to a catch clause of the frame or out of it, and
a leave goes to its target; both run the finally and fault clauses in between first. The clauses to
run and what comes after them are kept with the frame while the clauses run. Every arrival at a
clause or at the target of a leave finds the operands of the frame gone, but for the exception that
a catch clause receives.
-/

set_option autoImplicit false
set_option relaxedAutoImplicit false

namespace ManagedMachine.Engine

/-- The running frames, innermost first, with their source lines. -/
def traceOf (r : Registry) (frames : List Activation) : List TraceEntry :=
  frames.map fun a =>
    let m := r.method a.method
    let line := m.home?.bind fun (home, token) =>
      home.content.lines.bind fun lines => lines.lineFor? token a.addr
    ⟨r.fullName m, a.addr, line⟩

/-- The frames that are executing, as a trace. -/
def stackTrace : RunM (List TraceEntry) := fun r =>
  .ok (traceOf r.domain.registry r.interpreter.frames) r

/-- Keeps where an exception was raised, unless that is known. -/
def withTrace (raised : Raised) : RunM Raised := do
  if raised.trace.isEmpty then return { raised with trace := ← stackTrace } else return raised

/-- How well a catch clause fits a raised value. -/
def catchFit (fuel : Nat) (f : Frame) (v : Value) (clause : Clause) : RunM (Option CatchFit) := do
  match clause.catchType with
  | none => return some .assignable
  | some token =>
    let caught ← Registry.resolveTypeToken f.home token f.context
    match ← Domain.typeOfValue v with
    | none => return none
    | some thrown =>
      if thrown = caught then return some .exact
      else if ← Registry.isAssignable fuel thrown caught then return some .assignable
      else return none

end Engine

namespace Frame

/-- The clause at this position of the table. -/
def clause (f : Frame) (i : Nat) : Clause := f.body.clauses.getD i default

/-- Gives up the unwindings whose running clause raised the exception, unless the exception is
caught within that clause. -/
def abandon (f : Frame) (addr : Nat) (catcher : Option Nat) : List Unwind → List Unwind
  | [] => []
  | u :: rest =>
    let running := f.clause u.current
    let caughtInside := match catcher with
      | some c => running.handles (f.clause c).tryStart
      | none => false
    if running.handles addr && !caughtInside then f.abandon addr catcher rest else u :: rest

/-- The exceptions of the catch clauses that a leave does not leave. -/
def keptOnLeave (f : Frame) (addr target : Nat) : List (Nat × Raised) :=
  f.caught.filter fun (c, _) => !(f.clause c).handles addr || (f.clause c).handles target

/-- The exception of the innermost catch clause around an address. -/
def rethrown? (f : Frame) (addr : Nat) : Option Raised :=
  (f.caught.find? fun (c, _) => (f.clause c).handles addr).map Prod.snd

end Frame

namespace Engine

/-- Where control goes: to an address of the frame, or on with an exception that no pending clause
holds back any more. -/
inductive Arrival where
  | at (addr : Nat)
  | raise (raised : Raised)

/-- Goes on after the pending clauses. -/
def finish (f : Frame) : Resume → RunM (Arrival × Frame)
  | .leave target => return (.at target, f)
  | .catch c raised => do
    Stack.popTo f.evalBase
    Stack.pushObject raised.value
    return (.at (f.clause c).handlerStart, { f with caught := (c, raised) :: f.caught })
  | .propagate raised => return (.raise raised, f)

/-- Runs clauses, and then goes on. -/
def unwind (f : Frame) (clauses : List Nat) (resume : Resume) : RunM (Arrival × Frame) :=
  match clauses with
  | [] => finish f resume
  | c :: rest =>
    return (.at (f.clause c).handlerStart, { f with unwinds := ⟨c, rest, resume⟩ :: f.unwinds })

/-- Sends an exception raised at `addr` to a catch clause of the frame, or out of it. -/
def handleException (fuel : Nat) (f : Frame) (addr : Nat) (raised : Raised) :
    RunM (Arrival × Frame) := do
  let raised ← withTrace raised
  let catcher ← selectCatch f.body.clauses addr fun _ => catchFit fuel f raised.value
  let f := { f with unwinds := f.abandon addr catcher f.unwinds }
  let clauses := unwindClauses f.body.clauses addr (catcher.map f.clause)
  Stack.popTo f.evalBase
  unwind f clauses (match catcher with | some c => .catch c raised | none => .propagate raised)

/-- Leaves the protected ranges and the catch clauses around `addr` for `target`. -/
def leave (f : Frame) (addr target : Nat) : RunM (Arrival × Frame) := do
  Stack.popTo f.evalBase
  unwind { f with caught := f.keptOnLeave addr target } (leaveClauses f.body.clauses addr target)
    (.leave target)

/-- Ends a finally or fault clause. -/
def endFinally (f : Frame) : RunM (Arrival × Frame) := do
  match f.unwinds with
  | [] => throw (.malformed (.strayEndFinally (← fullName f.method)))
  | ⟨_, c :: rest, resume⟩ :: others => do
    Stack.popTo f.evalBase
    return (.at (f.clause c).handlerStart, { f with unwinds := ⟨c, rest, resume⟩ :: others })
  | ⟨_, [], resume⟩ :: others => finish { f with unwinds := others } resume

/-- Raises the exception of the innermost catch clause again. -/
def rethrow {α : Type} (f : Frame) (addr : Nat) : RunM α :=
  match f.rethrown? addr with
  | some raised => throw (.exception raised)
  | none => throw (.malformed .strayRethrow)

/-- Tells an attached debugger, which lets the interpreter go on at once. -/
def breakpoint : RunM Unit := do
  let trace ← stackTrace
  let id ← (fun r => .ok r.interpreter.id r : RunM Nat)
  Domain.record (.breakpoint id trace true)

end Engine

end ManagedMachine
