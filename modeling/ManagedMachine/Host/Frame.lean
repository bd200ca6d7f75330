import ManagedMachine.Descriptor

/-!
Host code that works on the evaluation stack. A redirection replaces the code of a host method and
reads its arguments from the slots they lie in; a field delegate pushes the value of a field, or
reads the value that is stored to it. Numbers are taken straight from their slots, and only slots of
another kind are read as values.
-/

set_option autoImplicit false
set_option relaxedAutoImplicit false

namespace ManagedMachine

/-! ### Redirections -/

/-- What native code may ask of the frame that it runs in. -/
inductive FrameRequest where
  | domain (r : DomainRequest)
  | argumentSlot (i : Nat)
  | argument (i : Nat)
  | this
  | valueFields (i : Nat)
  | thisFields
  | setThisFields (slots : List Slot)
  | setResult (v : Value)

@[reducible] def FrameRequest.Answer : FrameRequest → Type
  | domain r => r.Answer
  | argumentSlot _ => Slot
  | argument _ => Value
  | this => Value
  | valueFields _ => List Slot
  | thisFields => List Slot
  | setThisFields _ => Unit
  | setResult _ => Unit

abbrev FrameProgram := Program FrameRequest FrameRequest.Answer

def DomainProgram.inFrame {α : Type} : DomainProgram α → FrameProgram α
  | .done a => .done a
  | .fail e => .fail e
  | .ask r next => .ask (.domain r) fun answer => inFrame (next answer)

instance : MonadLift DomainProgram FrameProgram := ⟨DomainProgram.inFrame⟩

namespace Frame

def argumentSlot (i : Nat) : FrameProgram Slot := .request (FrameRequest.argumentSlot i)

def argument (i : Nat) : FrameProgram Value := .request (FrameRequest.argument i)

def this : FrameProgram Value := .request FrameRequest.this

def valueFields (i : Nat) : FrameProgram (List Slot) := .request (FrameRequest.valueFields i)

def thisFields : FrameProgram (List Slot) := .request FrameRequest.thisFields

def setThisFields (slots : List Slot) : FrameProgram Unit :=
  .request (FrameRequest.setThisFields slots)

def setResult (v : Value) : FrameProgram Unit := .request (FrameRequest.setResult v)

def int32 (i : Nat) : FrameProgram Int32 := do
  match ← argumentSlot i with
  | .int32 v => pure v
  | _ => do (← argument i).toInt32

def int64 (i : Nat) : FrameProgram Int64 := do
  match ← argumentSlot i with
  | .int64 v => pure v
  | _ => do (← argument i).toInt64

def single (i : Nat) : FrameProgram Float32 := do
  match ← argumentSlot i with
  | .single v => pure v
  | _ => do (← argument i).toSingle

def double (i : Nat) : FrameProgram Float := do
  match ← argumentSlot i with
  | .double v => pure v
  | _ => do (← argument i).toDouble

def bool (i : Nat) : FrameProgram Bool := do
  match ← argumentSlot i with
  | .int32 v => pure (v != 0)
  | _ => do (← argument i).toBool

/-- The text of a string argument, or nothing for null. -/
def string (i : Nat) : FrameProgram (Option String) := do
  match ← argument i with
  | .string s => pure (some s)
  | .null => pure none
  | other => do
    throw (.invalidCast (← (Host.describe other : DomainProgram String)) CoreLibrary.stringName)

end Frame

/-- The method that a redirection runs for. -/
structure FrameSite where
  key : String
  argCount : Nat

/-- Native code that runs in place of a method. -/
abbrev Redirection := FrameSite → FrameProgram Unit

/-! ### Field delegates -/

/-- What the code of a bound field may ask. -/
inductive AccessRequest where
  | domain (r : DomainRequest)
  | receiver
  | valueSlot
  | value
  | pushInt32 (v : Int32)
  | pushInt64 (v : Int64)
  | pushDouble (v : Float)
  | push (v : Value)

@[reducible] def AccessRequest.Answer : AccessRequest → Type
  | domain r => r.Answer
  | receiver => Value
  | valueSlot => Slot
  | value => Value
  | pushInt32 _ => Unit
  | pushInt64 _ => Unit
  | pushDouble _ => Unit
  | push _ => Unit

abbrev AccessProgram := Program AccessRequest AccessRequest.Answer

def DomainProgram.inAccess {α : Type} : DomainProgram α → AccessProgram α
  | .done a => .done a
  | .fail e => .fail e
  | .ask r next => .ask (.domain r) fun answer => inAccess (next answer)

instance : MonadLift DomainProgram AccessProgram := ⟨DomainProgram.inAccess⟩

namespace Access

def receiver : AccessProgram Value := .request AccessRequest.receiver

def valueSlot : AccessProgram Slot := .request AccessRequest.valueSlot

def value : AccessProgram Value := .request AccessRequest.value

def push (v : Value) : AccessProgram Unit := .request (AccessRequest.push v)

def int32 : AccessProgram Int32 := do
  match ← valueSlot with
  | .int32 v => pure v
  | _ => do (← value).toInt32

def double : AccessProgram Float := do
  match ← valueSlot with
  | .double v => pure v
  | _ => do (← value).toDouble

end Access

/-- Runs for the field that is accessed. -/
abbrev FieldDelegate := Field → AccessProgram Unit

/-- The host code of a bound field. -/
structure FieldDelegates where
  /-- Pushes exactly one value. -/
  copy : FieldDelegate
  /-- Finds the value on top of the stack. -/
  assign : FieldDelegate

end ManagedMachine
