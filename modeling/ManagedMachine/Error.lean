import ManagedMachine.StackFault
import ManagedMachine.Token

/-!
Everything that ends an operation without a result. An interpreted exception is one of the causes:
it carries the raised value and the call chain of the place where it was raised, and the frames it
passes may catch it. The other causes pass through every frame.
-/

set_option autoImplicit false
set_option relaxedAutoImplicit false

namespace ManagedMachine

/-- One interpreted frame of a stack trace. -/
structure TraceEntry where
  method : String
  /-- Address of the executing instruction. -/
  offset : Nat
  line : Option Nat
  deriving DecidableEq

/-- An instruction address as diagnostics write it. -/
def addressText (addr : Nat) : String := "IL_" ++ Text.decimal 4 addr

def TraceEntry.text (entry : TraceEntry) : String :=
  let place := entry.method ++ " " ++ addressText entry.offset
  match entry.line with
  | some line => s!"{place} (line {line})"
  | none => place

/-- A raised value. The trace is empty until the first interpreted frame sees the exception. -/
structure Raised where
  value : Value
  trace : List TraceEntry
  deriving DecidableEq

/-- Defects of a method body, or of the module it refers to. -/
inductive Malformation where
  | emptyBody
  | targetOutside (addr target : Nat)
  | clauseOutside (clause : String)
  | fallsThrough (instruction : String)
  | unknownModule (id : String)
  | pastEnd (method : String) (addr : Nat)
  | strayEndFinally (method : String)
  | strayRethrow
  | noArgument (index : Nat) (method : String)
  | noLocal (index : Nat) (method : String)
  deriving DecidableEq

def Malformation.message : Malformation → String
  | emptyBody => "Method body is empty"
  | targetOutside addr target =>
    s!"{addressText addr}: branch target {addressText target} outside of body"
  | clauseOutside clause => s!"Exception handler {clause} outside of body"
  | fallsThrough instruction => s!"Last instruction {instruction} falls through"
  | unknownModule id => s!"Unknown module {id}"
  | pastEnd method addr => s!"{method} runs past the end of its body at {addr}"
  | strayEndFinally method => s!"endfinally outside of a finally or fault clause in {method}"
  | strayRethrow => "rethrow outside of a catch clause"
  | noArgument index method => s!"argument {index} out of range in {method}"
  | noLocal index method => s!"local {index} out of range in {method}"

/-- All that can stop a run. Only an `exception` can be caught by interpreted code. -/
inductive Error where
  | malformed (cause : Malformation)
  | typeNotFound (name : String)
  | methodNotFound (method declaringType : String) (token : Option Token)
  | fieldNotFound (field declaringType : String)
  | argumentCount (expected found : Nat)
  | argumentType (index : Nat) (expected : String)
  | invalidCast (source target : String)
  | unsupportedReference (shape : String)
  | nullReceiver (method : String)
  | domainDropped
  | exception (raised : Raised)
  | duplicateType (name : String)
  | genericArity (typeName : String) (expected found : Nat)
  | adaptorRegistered (base : String)
  | bindingsFrozen
  | bindingThread (reason : String)
  | unboundNative (key : String)
  | missingBody (method : String)
  | invalidToken (token : Token)
  | stackOverflow
  | callDepth (limit : Nat)
  | stack (fault : StackFault)
  | lock
  /-- A table has no entry where another table says that there is one: the program stops there. -/
  | outOfBounds
  /-- The bound on the evaluation was reached before an answer. -/
  | outOfFuel
  deriving DecidableEq

namespace Error

def tokenText : Option Token → String
  | some token => s!"Some({token.describe})"
  | none => "None"

/-- The text of an error; `describe` is the text of a raised value. -/
def message (describe : Value → String) : Error → String
  | malformed cause => cause.message
  | typeNotFound name => s!"Cannot find type - {name}"
  | methodNotFound method declaringType token =>
    s!"Cannot find method: {method} in type: {declaringType}, token={tokenText token}"
  | fieldNotFound field declaringType => s!"Cannot find field: {field} in type: {declaringType}"
  | argumentCount expected found =>
    s!"Parameter mismatch - expected {expected} arguments, found {found}"
  | argumentType index expected =>
    s!"Parameter type mismatch - argument {index} is not a {expected}"
  | invalidCast source target => s!"Invalid cast from {source} to {target}"
  | unsupportedReference shape => s!"Unsupported reference shape - {shape}"
  | nullReceiver method => s!"Instance method {method} invoked without a receiver"
  | domainDropped => "The domain was dropped"
  | exception raised => describe raised.value
  | duplicateType name => s!"Type {name} is already defined"
  | genericArity typeName expected found =>
    s!"Generic type {typeName} expects {expected} arguments, found {found}"
  | adaptorRegistered base => s!"Adaptor for base type {base} is already added"
  | bindingsFrozen => "Binding tables are frozen"
  | bindingThread reason => s!"Binding thread failed - {reason}"
  | unboundNative key => s!"Native method {key} has no binding and unbound calls are disabled"
  | missingBody method => s!"Method {method} has no body"
  | invalidToken token => s!"Invalid token - {token.text}"
  | stackOverflow => "Evaluation stack overflow"
  | callDepth limit => s!"Call depth limit of {limit} exceeded"
  | stack fault => s!"Invalid stack state - {fault.message}"
  | lock => "Failed to lock target"
  | outOfBounds => "Index out of bounds"
  | outOfFuel => "Evaluation bound reached"

end Error

/-! ### Reading slots and values as numbers -/

namespace Slot

def unexpected {α : Type} (expected : String) (s : Slot) : Except Error α :=
  .error (.stack (.unexpectedSlot expected s.kind))

def toInt32 : Slot → Except Error Int32
  | int32 v => .ok v
  | s => s.unexpected "int32"

def toInt64 : Slot → Except Error Int64
  | int64 v => .ok v
  | s => s.unexpected "int64"

def toSingle : Slot → Except Error Float32
  | single v => .ok v
  | s => s.unexpected "float"

def toDouble : Slot → Except Error Float
  | double v => .ok v
  | s => s.unexpected "double"

end Slot

namespace Value

def mismatch {α : Type} (target : String) (v : Value) : Except Error α :=
  .error (.invalidCast v.kind target)

def toInt32 : Value → Except Error Int32
  | int32 v => .ok v
  | bool v => .ok (if v then 1 else 0)
  | v => v.mismatch "System.Int32"

def toInt64 : Value → Except Error Int64
  | int64 v => .ok v
  | int32 v => .ok v.toInt64
  | v => v.mismatch "System.Int64"

def toSingle : Value → Except Error Float32
  | single v => .ok v
  | v => v.mismatch "System.Single"

def toDouble : Value → Except Error Float
  | double v => .ok v
  | single v => .ok v.toFloat
  | v => v.mismatch "System.Double"

def toBool : Value → Except Error Bool
  | bool v => .ok v
  | int32 v => .ok (v != 0)
  | v => v.mismatch "System.Boolean"

/-- The slot of a value in a location of primitive type. Only numbers fit; 64-bit integers and
doubles are cut down to a narrower location. -/
def slotFor (v : Value) (p : Primitive) : Except Error Slot :=
  match p.slotKind with
  | .int32 =>
    match v with
    | int64 n => .ok (.int32 (p.narrow n.toInt32))
    | _ => v.toInt32.map fun n => .int32 (p.narrow n)
  | .int64 => v.toInt64.map .int64
  | .single =>
    match v with
    | double x => .ok (.single x.toFloat32)
    | _ => v.toSingle.map .single
  | .double => v.toDouble.map .double
  | .void => .ok .null

end Value

end ManagedMachine
