import ManagedMachine.Error

/-!
Data that the host keeps behind a native object. Host types name the kind of data they stand for, so
that data can be wrapped without naming the type.
-/

set_option autoImplicit false
set_option relaxedAutoImplicit false

namespace ManagedMachine

/-- The kinds of host data. -/
inductive HostKind where
  | unit
  | record
  | point
  | exception
  | integer
  deriving DecidableEq, Hashable

/-- What a host object keeps behind its type. -/
inductive HostData where
  | unit
  /-- A record of values; it grows when a member past its end is written. -/
  | record (values : List Value)
  | point (x : Int32) (y : Float)
  /-- What the exceptions of the core library carry. -/
  | exception (message : Option String)
  | integer (v : Int32)
  deriving DecidableEq, Inhabited

namespace HostData

def kind : HostData → HostKind
  | unit => .unit
  | record _ => .record
  | point .. => .point
  | exception _ => .exception
  | integer _ => .integer

def message? : HostData → Option String
  | exception message => message
  | _ => none

/-- Member `i`; data without that member reads as null. -/
def member (d : HostData) (i : Nat) : Value :=
  match d with
  | record values => values.getD i .null
  | point x y => if i = 0 then .int32 x else .double y
  | _ => .null

/-- Puts a value at position `i`, with nulls before it where there was nothing. -/
def growTo (values : List Value) (i : Nat) (v : Value) : List Value :=
  (values ++ List.replicate (i + 1 - values.length) Value.null).set i v

/-- The data with a coordinate written; data that is no point only checks the number. -/
def setCoordinate (d : HostData) (i : Nat) (v : Value) : Except Error HostData :=
  if i = 0 then
    v.toInt32.map fun x => match d with | point _ y => point x y | d => d
  else
    v.toDouble.map fun y => match d with | point x _ => point x y | d => d

/-- Writes member `i`. Only a record takes values that are no numbers. -/
def setMember (d : HostData) (i : Nat) (v : Value) : Except Error HostData :=
  match d with
  | record values => .ok (.record (growTo values i v))
  | d => d.setCoordinate i v

theorem member_growTo (values : List Value) (i : Nat) (v : Value) :
    (record (growTo values i v)).member i = v := by
  have h : i < (values ++ List.replicate (i + 1 - values.length) Value.null).length := by
    simp
    omega
  simp only [member, growTo, List.getD_eq_getElem?_getD]
  rw [List.getElem?_set_self h]
  rfl

end HostData

end ManagedMachine
