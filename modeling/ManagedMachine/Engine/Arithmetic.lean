import ManagedMachine.Binary
import ManagedMachine.Instruction

/-!
Arithmetic on stack slots. Integers of different widths widen to 64 bits, and anything that meets a
floating-point number becomes one; only two singles stay single. Integers wrap around.
-/

set_option autoImplicit false
set_option relaxedAutoImplicit false

namespace ManagedMachine

/-- The numeric content of a slot; `wide` tells the 64-bit kinds. -/
inductive Number where
  | int (value : Int64) (wide : Bool)
  | float (value : Float) (wide : Bool)

namespace Number

/-- The number in a slot, with its width. -/
def ofSlot : Slot → Except Error Number
  | .int32 v => .ok (int v.toInt64 false)
  | .int64 v => .ok (int v true)
  | .single v => .ok (float v.toFloat false)
  | .double v => .ok (float v true)
  | other => .error (.stack (.notNumeric other.kind))

/-- The number as a floating-point number. -/
def toFloat : Number → Float
  | int v _ => v.toFloat
  | float v _ => v

/-- Whether it is a floating-point number of 32 bits. -/
def isSingle : Number → Bool
  | float _ wide => !wide
  | int .. => false

end Number

namespace Slot

/-- The slot of an integer, cut down if it is not wide. -/
def ofInt (v : Int64) (wide : Bool) : Slot := if wide then .int64 v else .int32 v.toInt32

/-- The slot of a floating-point number, rounded if it is not wide. -/
def ofFloat (v : Float) (wide : Bool) : Slot := if wide then .double v else .single v.toFloat32

end Slot

namespace BinaryOp

/-- Integer arithmetic; only a division by zero has no result. Shifts keep the width of the left
operand and take their count modulo that width. -/
def onInts (op : BinaryOp) (x : Int64) (xWide : Bool) (y : Int64) (yWide : Bool) : Option Slot :=
  let wide := xWide || yWide
  let same (v : Int64) : Option Slot := some (.ofInt v wide)
  let shift (wideOp : Int64 → Int64 → Int64) (narrowOp : Int32 → Int32 → Int32) : Option Slot :=
    some (if xWide then .int64 (wideOp x y) else .int32 (narrowOp x.toInt32 y.toInt32))
  let divide (wideOp : Int64 → Int64 → Int64) (narrowOp : Int32 → Int32 → Int32) : Option Slot :=
    if y = 0 then none
    else some (if wide then .int64 (wideOp x y) else .int32 (narrowOp x.toInt32 y.toInt32))
  match op with
  | add => same (x + y)
  | sub => same (x - y)
  | mul => same (x * y)
  | div => divide (· / ·) (· / ·)
  | rem => divide (· % ·) (· % ·)
  | and => same (x &&& y)
  | or => same (x ||| y)
  | xor => same (x ^^^ y)
  | shl => shift (· <<< ·) (· <<< ·)
  | shr => shift (· >>> ·) (· >>> ·)

/-- The operation on floating-point numbers. -/
def onFloats (op : BinaryOp) (x y : Float) : Except Error Float :=
  match op with
  | add => .ok (x + y)
  | sub => .ok (x - y)
  | mul => .ok (x * y)
  | div => .ok (x / y)
  | rem => .ok (Binary.remainder x y)
  | op => .error (.stack (.bitwiseOnFloats op.title))

/-- The result of an operation; `none` for an integer division by zero. -/
def apply (op : BinaryOp) (left right : Slot) : Except Error (Option Slot) := do
  let a ← Number.ofSlot left
  let b ← Number.ofSlot right
  match a, b with
  | .int x xWide, .int y yWide => return op.onInts x xWide y yWide
  | a, b =>
    let result ← op.onFloats a.toFloat b.toFloat
    return some (.ofFloat result !(a.isSingle && b.isSingle))

end BinaryOp

namespace Slot

/-- The number in a slot with the other sign. -/
def negate (s : Slot) : Except Error Slot := do
  match ← Number.ofSlot s with
  | .int v wide => return .ofInt (-v) wide
  | .float v wide => return .ofFloat (-v) wide

/-- How two numbers compare; numbers that are none do not compare. -/
def order (left right : Slot) : Except Error (Option Ordering) := do
  match ← Number.ofSlot left, ← Number.ofSlot right with
  | .int x _, .int y _ => return some (compare x y)
  | a, b =>
    let (x, y) := (a.toFloat, b.toFloat)
    return if x < y then some .lt else if x == y then some .eq else if y < x then some .gt else none

/-- The number in a slot as one of another type. -/
def convert (s : Slot) (target : Conversion) : Except Error Slot := do
  let n ← Number.ofSlot s
  match target, n with
  | .int32, .int v _ => return .int32 v.toInt32
  | .int32, .float v _ => return .int32 v.toInt32
  | .int64, .int v _ => return .int64 v
  | .int64, .float v _ => return .int64 v.toInt64
  | .single, n => return .single n.toFloat.toFloat32
  | .double, n => return .double n.toFloat

end Slot

/-- Does a comparison hold, given how its operands compare? What does not compare differs. -/
def Comparison.holds (op : Comparison) (o : Option Ordering) : Bool :=
  match op, o with
  | ne, none => true
  | _, none => false
  | eq, some o => o == .eq
  | ne, some o => o != .eq
  | lt, some o => o == .lt
  | le, some o => o != .gt
  | gt, some o => o == .gt
  | ge, some o => o != .lt

end ManagedMachine
