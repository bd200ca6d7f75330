/-!
The primitive types of the core library and how a primitive sits on the evaluation stack: booleans,
characters and the narrow integers travel as 32-bit integers and are narrowed where they are stored.
-/

set_option autoImplicit false
set_option relaxedAutoImplicit false

namespace ManagedMachine

/-- The family of stack slots that carries a primitive. -/
inductive SlotKind where
  | int32
  | int64
  | single
  | double
  | void
  deriving DecidableEq

/-- The primitive types. -/
inductive Primitive where
  | void
  | boolean
  | char
  | sbyte
  | byte
  | int16
  | uint16
  | int32
  | uint32
  | int64
  | uint64
  | single
  | double
  deriving DecidableEq

namespace Primitive

/-- In the order in which the core library defines them. -/
def all : List Primitive :=
  [void, boolean, char, sbyte, byte, int16, uint16, int32, uint32, int64, uint64, single, double]

def name : Primitive → String
  | void => "Void"
  | boolean => "Boolean"
  | char => "Char"
  | sbyte => "SByte"
  | byte => "Byte"
  | int16 => "Int16"
  | uint16 => "UInt16"
  | int32 => "Int32"
  | uint32 => "UInt32"
  | int64 => "Int64"
  | uint64 => "UInt64"
  | single => "Single"
  | double => "Double"

def fullName (p : Primitive) : String := "System." ++ p.name

def ofFullName? (name : String) : Option Primitive := all.find? (·.fullName == name)

/-- The kind of slot that holds a value of the type. -/
def slotKind : Primitive → SlotKind
  | void => .void
  | int64 | uint64 => .int64
  | single => .single
  | double => .double
  | _ => .int32

/-- Cuts a 32-bit stack value down to the width of the primitive. -/
def narrow (p : Primitive) (v : Int32) : Int32 :=
  match p with
  | boolean => if v = 0 then 0 else 1
  | sbyte => v.toInt8.toInt32
  | byte => v &&& 0xff
  | int16 => v.toInt16.toInt32
  | uint16 | char => v &&& 0xffff
  | _ => v

@[simp] theorem ofFullName?_fullName (p : Primitive) : ofFullName? p.fullName = some p := by
  cases p <;> decide

end Primitive

end ManagedMachine
