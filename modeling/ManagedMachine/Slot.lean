import ManagedMachine.Primitive

/-!
Stack slots. A slot owns no object: slots that reach an object hold an index into the managed table
of the stack they lie on. References to fields, elements, statics and other slots only name the
location, so a load through one sees every write made in the meantime. A struct is a block: a header
slot with its fields in the slots below, and a slot elsewhere that points at the header.
-/

set_option autoImplicit false
set_option relaxedAutoImplicit false

namespace ManagedMachine

/-- Position of a type descriptor in its registry. -/
structure TypeId where
  index : Nat
  deriving DecidableEq, Hashable, Inhabited

/-- What one place of an interpreter stack holds. -/
inductive Slot where
  | null
  | int32 (v : Int32)
  | int64 (v : Int64)
  | single (v : Float32)
  | double (v : Float)
  /-- A managed entry. -/
  | object (entry : Nat)
  | fieldRef (entry field : Nat)
  | elementRef (entry index : Nat)
  | staticRef (type : TypeId) (field : Nat)
  | stackRef (addr : Nat)
  /-- A struct, by the address of its header. -/
  | block (header : Nat)
  | header (type : TypeId) (fields : Nat)
  deriving DecidableEq, Inhabited

namespace Slot

def kind : Slot → String
  | null => "null"
  | int32 _ => "int32"
  | int64 _ => "int64"
  | single _ => "float"
  | double _ => "double"
  | object _ => "object"
  | fieldRef .. => "field reference"
  | elementRef .. => "element reference"
  | staticRef .. => "static field reference"
  | stackRef _ => "stack reference"
  | block _ => "value type"
  | header .. => "value type descriptor"

/-- The managed entry the slot keeps alive. -/
def entry? : Slot → Option Nat
  | object entry => some entry
  | fieldRef entry _ => some entry
  | elementRef entry _ => some entry
  | _ => none

/-- The four kinds of managed references. -/
def isReference : Slot → Bool
  | fieldRef .. | elementRef .. | staticRef .. | stackRef _ => true
  | _ => false

/-- The kinds arithmetic accepts. -/
def isNumeric : Slot → Bool
  | int32 _ | int64 _ | single _ | double _ => true
  | _ => false

/-- The zero of a primitive location. -/
def zero (p : Primitive) : Slot :=
  match p.slotKind with
  | .int32 => int32 0
  | .int64 => int64 0
  | .single => single 0
  | .double => double 0
  | .void => null

end Slot

end ManagedMachine
