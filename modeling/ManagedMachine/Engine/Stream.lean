import ManagedMachine.Engine.Invocation
import ManagedMachine.Host.Literal

/-!
Calls assembled piece by piece. A stream borrows an interpreter, pushes arguments onto its stack,
runs the method on the topmost of them and reads what is left on the stack. References point at
slots that were pushed earlier, so what a method writes through them can be read back.
-/

set_option autoImplicit false
set_option relaxedAutoImplicit false

namespace ManagedMachine

/-- How a slot of the stack is read. -/
inductive Reading where
  | value
  | int32
  | int64
  | single
  | double
  | bool

/-- A call whose arguments are pushed one by one. -/
structure Stream where
  method : MethodId
  /-- Has the method run? -/
  invoked : Bool

/-- What can be asked of a stream. -/
inductive StreamCall where
  /-- Pushes a number or null. -/
  | push (s : Slot)
  /-- Pushes a value with an entry of its own, so that it can be written through a reference. -/
  | pushObject (v : Literal)
  | pushReference (i : Nat)
  | invoke
  | pushed
  | method
  /-- Reads the result. -/
  | read (r : Reading)
  /-- Reads a slot that was pushed. -/
  | readAt (r : Reading) (i : Nat)

namespace Stream

/-- The report of a slot; `value` reads the slot as a value where its kind is another one. -/
def reportSlot (value : RunM Value) (s : Slot) (r : Reading) : RunM Report := do
  match r, s with
  | .value, _ => do (Domain.report (← value) : DomainM Report)
  | .int32, .int32 v => return .int32 v
  | .int32, _ => return .int32 (← Engine.ofExcept (← value).toInt32)
  | .int64, .int64 v => return .int64 v
  | .int64, _ => return .int64 (← Engine.ofExcept (← value).toInt64)
  | .single, .single v => return .single v
  | .single, _ => return .single (← Engine.ofExcept (← value).toSingle)
  | .double, .double v => return .double v
  | .double, _ => return .double (← Engine.ofExcept (← value).toDouble)
  | .bool, .int32 v => return .flag (v != 0)
  | .bool, _ => return .flag (← Engine.ofExcept (← value).toBool)

/-- Runs the method on what was pushed. -/
def invoke (c : Callees) (fuel : Nat) (id : MethodId) : RunM Unit := do
  let m ← Engine.method id
  let found ← Engine.ask Stack.top
  if found < m.argCount then throw (.argumentCount m.argCount found)
  else Engine.callMethod c fuel id (found - m.argCount) m.flags.virtual

/-- The slot of the result, once the method has returned one. -/
def resultSlot (s : Stream) : RunM Slot := do
  let m ← Engine.method s.method
  if !s.invoked || (← Engine.descriptor m.ret).isVoid then
    Engine.stackFault (.noResult (← Engine.fullName m))
  else Engine.read (·.topSlot)

/-- The slot of an argument that was pushed. -/
def pushedSlot (i : Nat) : RunM Slot := do
  let pushed ← Engine.ask Stack.top
  if pushed ≤ i then Engine.stackFault (.slotNotPushed i pushed)
  else Engine.read (·.slotAt i)

/-- The report of one call, and whether the method has run after it. -/
def call (c : Callees) (fuel : Nat) (s : Stream) : StreamCall → RunM (Report × Bool)
  | .push slot => do
    Stack.push slot
    return (.null, s.invoked)
  | .pushObject literal => do
    let v ← Running.onDomain (literal.value.run c.serve)
    let entry ← Stack.pushEntry v
    Stack.push (.object entry)
    return (.null, s.invoked)
  | .pushReference i => do
    let pushed ← Engine.ask Stack.top
    if pushed ≤ i then Engine.stackFault (.referenceToSlot i pushed)
    Stack.push (.stackRef i)
    return (.null, s.invoked)
  | .invoke => do
    invoke c fuel s.method
    return (.null, true)
  | .pushed => do return (.ofNat (← Engine.ask Stack.top), s.invoked)
  | .method => do
    let key ← Domain.ask fun d => d.registry.key (d.registry.method s.method)
    return (.text key, s.invoked)
  | .read r => do
    let slot ← s.resultSlot
    let m ← Engine.method s.method
    return (← reportSlot (Engine.readValue fuel slot m.ret) slot r, s.invoked)
  | .readAt r i => do
    let slot ← pushedSlot i
    let value : RunM Value := do
      Engine.readValue fuel slot (← (Registry.coreType CoreLibrary.objectName : RegistryM TypeId))
    return (← reportSlot value slot r, s.invoked)

/-- The reports of all calls; one that fails leaves what it did and the next one follows. -/
def calls (c : Callees) (fuel : Nat) : Stream → List StreamCall → RunM (List Report)
  | _, [] => pure []
  | s, x :: rest => do
    let (report, invoked) ←
      try
        let (report, invoked) ← s.call c fuel x
        pure (Report.record [("ok", report)], invoked)
      catch e => do
        let report ← (Domain.reportError e : DomainM Report)
        pure (report, s.invoked)
    return report :: (← calls c fuel { s with invoked } rest)

/-- Streams calls to a method on a borrowed interpreter. -/
def run (c : Callees) (fuel : Nat) (method : MethodId) (xs : List StreamCall) :
    DomainM (List Report) :=
  Domain.withInterpreter (calls c fuel ⟨method, false⟩ xs)

end Stream

end ManagedMachine
