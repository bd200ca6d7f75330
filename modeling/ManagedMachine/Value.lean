import ManagedMachine.Decimal.Shortest
import ManagedMachine.Slot
import ManagedMachine.Text.Quoted

/-!
Values that cross between interpreted and host code. Primitives travel by value, strings by content,
and everything else as a reference to an object of the heap; a struct that leaves the stack is boxed
into an object first.
-/

set_option autoImplicit false
set_option relaxedAutoImplicit false

namespace ManagedMachine

/-- Position of an object in the heap, which is also its identity. -/
structure ObjectId where
  index : Nat
  deriving DecidableEq, Hashable, Inhabited

/-- A value outside of any interpreter stack. -/
inductive Value where
  /-- The null reference, also what a void call gives. -/
  | null
  | bool (v : Bool)
  | int32 (v : Int32)
  | int64 (v : Int64)
  | single (v : Float32)
  | double (v : Float)
  | string (s : String)
  | object (id : ObjectId)
  deriving DecidableEq, Inhabited

namespace Value

def isNull : Value → Bool
  | null => true
  | _ => false

/-- The kind that a failed conversion names. -/
def kind : Value → String
  | null => "null"
  | bool _ => "System.Boolean"
  | int32 _ => "System.Int32"
  | int64 _ => "System.Int64"
  | single _ => "System.Single"
  | double _ => "System.Double"
  | string _ => "System.String"
  | object _ => "object"

def string? : Value → Option String
  | string s => some s
  | _ => none

def object? : Value → Option ObjectId
  | object id => some id
  | _ => none

/-- The stack form of a primitive value when no declared type narrows it. -/
def slot? : Value → Option Slot
  | bool v => some (.int32 (if v then 1 else 0))
  | int32 v => some (.int32 v)
  | int64 v => some (.int64 v)
  | single v => some (.single v)
  | double v => some (.double v)
  | _ => none

/-- Objects are the same when they are one object, other values when they have the same content;
floats compare as numbers. -/
def same : Value → Value → Bool
  | null, null => true
  | bool a, bool b => a == b
  | int32 a, int32 b => a == b
  | int64 a, int64 b => a == b
  | single a, single b => a == b
  | double a, double b => a == b
  | string a, string b => a == b
  | object a, object b => a == b
  | _, _ => false

/-- The value in a diagnostic; `typeName` names the type of an object. -/
def describe (typeName : ObjectId → String) : Value → String
  | null => "Null"
  | bool v => s!"Bool({v})"
  | int32 v => s!"I32({v})"
  | int64 v => s!"I64({v})"
  | single v => s!"F32({Decimal.ofSingle v})"
  | double v => s!"F64({Decimal.ofDouble v})"
  | string s => s!"Str({Text.quote s})"
  | object id => s!"Object({typeName id})"

end Value

/-- The value of a slot read as a location of primitive type, or of some other type. Slots that are
no numbers read as null. -/
def Slot.value (slot : Slot) (primitive : Option Primitive) : Value :=
  match slot with
  | .int32 v =>
    match primitive with
    | some .boolean => .bool (v != 0)
    | some .int64 | some .uint64 => .int64 v.toInt64
    | some .single => .single v.toFloat32
    | some .double => .double v.toFloat
    | some p => .int32 (p.narrow v)
    | none => .int32 v
  | .int64 v =>
    match primitive.map Primitive.slotKind with
    | some .int32 => .int32 v.toInt32
    | _ => .int64 v
  | .single v => if primitive = some .double then .double v.toFloat else .single v
  | .double v => if primitive = some .single then .single v.toFloat32 else .double v
  | _ => .null

end ManagedMachine
