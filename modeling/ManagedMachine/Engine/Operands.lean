import ManagedMachine.Engine.Arithmetic
import ManagedMachine.Engine.Calls

/-!
Instructions that work on the operands of a frame alone: arithmetic, comparisons, arrays and casts.
Operands are read before they are popped, so an instruction that raises an exception leaves them
where they are.
-/

set_option autoImplicit false
set_option relaxedAutoImplicit false

namespace ManagedMachine.Engine

/-- Raises an exception of the core library. -/
def raise {α : Type} (f : CoreLibrary.Fault) (message : String) : RunM α :=
  Running.onDomain (Domain.raise f message)

/-- The operand on top. -/
def top : RunM Slot := read (·.topSlot)

/-- The operand so far below the top. -/
def peek (depth : Nat) : RunM Slot := read (·.peek depth)

/-- Releases the operand on top. -/
def pop : RunM Unit := Stack.pop

/-- Pushes a slot. -/
def push (s : Slot) : RunM Unit := Stack.push s

/-- Replaces `count` operands by one. -/
def replaceBy (count : Nat) (s : Slot) : RunM Unit := do
  Stack.popMany count
  push s

/-! ### Arithmetic and comparisons -/

/-- Two operands give way to the result. -/
def binary (op : BinaryOp) : RunM Unit := do
  let right ← top
  let left ← peek 1
  match ← ofExcept (op.apply left right) with
  | some result => replaceBy 2 result
  | none => raise .divideByZero "Attempted to divide by zero."

/-- The operand on top gives way to the result. -/
def unary (op : Slot → Except Error Slot) : RunM Unit := do
  replaceBy 1 (← ofExcept (op (← top)))

/-- The object or null that a slot stands for. -/
def referenceValue (s : Slot) : RunM Value := do
  match s with
  | .null => return .null
  | .object entry => read (·.entry entry)
  | other => stackFault (.objectExpected other.kind)

/-- How two objects or nulls compare. Boxed numbers compare as numbers; others are ordered only by
whether they are null. -/
def compareReferences (op : Comparison) (a b : Value) : Except Error Bool := do
  match a.slot?, b.slot? with
  | some x, some y => return op.holds (← x.order y)
  | _, _ =>
    match op with
    | .eq => return a.same b
    | .ne => return !a.same b
    | op => return op.holds (some (compare (!a.isNull).toNat (!b.isNull).toNat))

def isObjectSlot : Slot → Bool
  | .null | .object _ => true
  | _ => false

/-- The comparison of two operands, as numbers or by identity. -/
def compareSlots (op : Comparison) (left right : Slot) : RunM Bool := do
  if left.isNumeric && right.isNumeric then return op.holds (← ofExcept (left.order right))
  else if isObjectSlot left && isObjectSlot right then do
    let a ← referenceValue left
    let b ← referenceValue right
    ofExcept (compareReferences op a b)
  else
    match op with
    | .eq => return left = right
    | .ne => return left ≠ right
    | _ => stackFault (.unordered left.kind right.kind)

/-- Compares the two top operands. -/
def compareTop (op : Comparison) : RunM Bool := do
  let left ← peek 1
  compareSlots op left (← top)

/-- Two operands give way to the truth of the comparison. -/
def pushComparison (op : Comparison) : RunM Unit := do
  let holds ← compareTop op
  replaceBy 2 (.int32 (if holds then 1 else 0))

/-- Does a conditional branch take a slot as true? -/
def truthy (s : Slot) : RunM Bool := do
  match s with
  | .null => return false
  | .int32 v => return v != 0
  | .int64 v => return v != 0
  | .single v => return v != 0
  | .double v => return v != 0
  | .object entry => return !(← read (·.entry entry)).isNull
  | _ => return true

/-- Goes on at the target or at the next instruction. -/
def jumpIf (taken : Bool) (target : UInt32) : Outcome := if taken then .jump target.toNat else .next

/-- Branches on the operand on top. -/
def branchIf (expected : Bool) (target : UInt32) : RunM Outcome := do
  let taken := (← truthy (← top)) == expected
  pop
  return jumpIf taken target

/-- Branches on the comparison of two operands. -/
def branchOn (op : Comparison) (target : UInt32) : RunM Outcome := do
  let taken ← compareTop op
  Stack.popMany 2
  return jumpIf taken target

/-! ### Arrays -/

/-- The array `depth` operands below the top one. -/
def arrayAt (depth : Nat) : RunM ObjectId := do
  let v ← referenceValue (← peek depth)
  match v with
  | .null => nullReference
  | .object id => do
    let domain ← (Domain.ask fun d => d : DomainM Domain)
    if (domain.typeOf id).isArray then return id
    else stackFault (.notAnArray (domain.describe v))
  | other => do stackFault (.notAnArray (← Domain.ask fun d => d.describe other))

/-- The element type of an array. -/
def elementType (array : ObjectId) : RunM TypeId := do
  match (← Domain.ask fun d => d.typeOf array).element? with
  | some t => return t
  | none => (Registry.coreType CoreLibrary.objectName : RegistryM TypeId)

/-- An index operand; a negative one is no position. -/
def elementIndex : Slot → Except Error (Option Nat)
  | .int32 v => .ok (if v < 0 then none else some v.toInt.toNat)
  | .int64 v => .ok (if v < 0 then none else some v.toInt.toNat)
  | other => .error (.stack (.arrayIndexSlot other.kind))

/-- The index is outside of the array. -/
def indexFault {α : Type} (index : Slot) : RunM α :=
  raise .indexOutOfRange (match index with
    | .int32 i => s!"Index {i} was outside the bounds of the array."
    | .int64 i => s!"Index {i} was outside the bounds of the array."
    | _ => "Index was outside the bounds of the array.")

/-- The elements of a new array. Elements of a struct type get a box each. -/
def newElements (fuel : Nat) (t : TypeId) (length : Nat) : RunM (List Value) := do
  let d ← descriptor t
  let factory ← Domain.ask fun domain =>
    if d.isNative then domain.bindings.factory? d.name else none
  match factory with
  | some make =>
    let items ← Domain.runHost (make length)
    if items.length ≠ length then stackFault (.factoryCount d.name items.length length)
    else return items
  | none =>
    if d.isStruct && d.primitive?.isNone then
      (List.range length).mapM fun _ => (Domain.defaultValue fuel t : DomainM Value)
    else return List.replicate length (← (Domain.defaultValue fuel t : DomainM Value))

/-- The operand on top, a length, gives way to a new array. -/
def newArray (fuel : Nat) (t : TypeId) : RunM Unit := do
  let length ← match ← top with
    | .int32 v => pure v.toInt
    | .int64 v => pure v.toInt
    | other => stackFault (.arrayLengthSlot other.kind)
  if length < 0 then raise .overflow "Arithmetic operation resulted in an overflow."
  else
    let items ← newElements fuel t length.toNat
    let type ← (Registry.makeArray t 1 : RegistryM TypeId)
    let array ← (Domain.newObject (.array type items.toArray) : DomainM Value)
    pop
    Stack.pushObject array

/-- The operand on top, an array, gives way to its length. -/
def loadLength : RunM Unit := do
  let length ← (Domain.length (← arrayAt 0) : DomainM Nat)
  if length < 0x80000000 then replaceBy 1 (.int32 (Int32.ofNat length))
  else stackFault .arrayTooLong

/-- Array and index give way to the element. -/
def loadElement (fuel : Nat) : RunM Unit := do
  let index ← top
  let array ← arrayAt 1
  let t ← elementType array
  match ← ofExcept (elementIndex index) with
  | none => indexFault index
  | some i =>
    match ← (Domain.element? array i : DomainM (Option Value)) with
    | none => indexFault index
    | some v => do
      Stack.popMany 2
      pushValue fuel v t

/-- Array, index and value are taken off, and the element is set. -/
def storeElement (fuel : Nat) : RunM Unit := do
  let index ← peek 1
  let array ← arrayAt 2
  let t ← elementType array
  let v ← carryValue fuel (← loadTop) t
  let stored ← match ← ofExcept (elementIndex index) with
    | some i => (Domain.setElement array i v : DomainM Bool)
    | none => pure false
  if stored then Stack.popMany 3 else indexFault index

/-- Turns the object operand on top into a reference into it, on the entry that it owns already. -/
def refineTop (object : ObjectId) (reference : Nat → Slot) : RunM Unit := do
  match ← top with
  | .object entry => do Stack.setSlot (← read (·.topAddr)) (reference entry)
  | _ => do
    pop
    let entry ← Stack.pushEntry (.object object)
    push (reference entry)

/-- Array and index give way to the address of the element. -/
def loadElementAddr : RunM Unit := do
  let index ← top
  let array ← arrayAt 1
  match ← ofExcept (elementIndex index) with
  | none => indexFault index
  | some i =>
    if i < (← (Domain.length array : DomainM Nat)) then do
      pop
      refineTop array fun entry => .elementRef entry i
    else indexFault index

/-! ### Structs through addresses -/

def outsideArray {α : Type} : RunM α :=
  raise .indexOutOfRange "Index was outside the bounds of the array."

/-- An address gives way to what it refers to. -/
def loadObject (fuel : Nat) (t : TypeId) : RunM Unit := do
  let carry ← loadThrough fuel (← top)
  pop
  pushCarry fuel carry t

/-- Address and value are taken off, and the value is stored there. -/
def storeObjectThrough (fuel : Nat) (t : TypeId) : RunM Unit := do
  let carry ← loadTop
  if ← storeThrough fuel (← peek 1) carry t then Stack.popMany 2 else outsideArray

/-- Sets what an address refers to back to the default of a type. -/
def initObject (fuel : Nat) (t : TypeId) : RunM Unit := do
  let d ← descriptor t
  let carry ← match d.primitive? with
    | some p => pure (Carry.slot (.zero p))
    | none => do
      if d.isStruct && !(← isInline fuel t) then
        pure (Carry.value (← (Domain.defaultValue fuel t : DomainM Value)))
      else pure (Carry.slot .null)
  if ← storeThrough fuel (← top) carry t then pop else outsideArray

/-! ### Boxes and casts -/

/-- Whether values of the type are copied when they are handed on. -/
def isValueType (d : Descriptor) : Bool := d.isStruct || d.primitive?.isSome

/-- The operand on top, a value of this type, gives way to a box of it. -/
def box (fuel : Nat) (t : TypeId) : RunM Unit := do
  if isValueType (← descriptor t) then do
    let v ← carryValue fuel (← loadTop) t
    pop
    Stack.pushObject v
  else pure ()

/-- Does a value have the form of a boxed value of a type? Numbers need the slot kind only. -/
def boxFits (v : Value) (t : TypeId) : RunM Bool := do
  match (← descriptor t).primitive? with
  | some p => return v.slot?.any fun s => s.kind == (Slot.zero p).kind
  | none =>
    match v with
    | .object id => Domain.ask fun d => decide (d.heap.type id = t)
    | _ => return false

def invalidCast {α : Type} (source target : String) : RunM α :=
  raise .invalidCast s!"Unable to cast object of type '{source}' to type '{target}'."

def nameOfType (t : TypeId) : RunM String := return (← descriptor t).name

/-- The operand on top, a box, gives way to the value in it. -/
def unbox (fuel : Nat) (t : TypeId) : RunM Unit := do
  let v ← referenceValue (← top)
  if v.isNull then nullReference
  else if ← boxFits v t then do
    pop
    pushValue fuel v t
  else
    let source ← match ← (Domain.typeOfValue v : DomainM (Option TypeId)) with
      | some s => nameOfType s
      | none => pure "null"
    invalidCast source (← nameOfType t)

/-- Checks the type of the top operand. One of another type is refused, or replaced by null if the
cast is not strict; null passes. -/
def cast (fuel : Nat) (t : TypeId) (strict : Bool) : RunM Unit := do
  let v ← referenceValue (← top)
  match ← (Domain.typeOfValue v : DomainM (Option TypeId)) with
  | none => pure ()
  | some actual =>
    if ← (Registry.isAssignable fuel actual t : RegistryM Bool) then pure ()
    else if strict then do invalidCast (← nameOfType actual) (← nameOfType t)
    else replaceBy 1 .null

/-- The same, but a reference is only cast. -/
def unboxAny (fuel : Nat) (t : TypeId) : RunM Unit := do
  if isValueType (← descriptor t) then unbox fuel t else cast fuel t true

end ManagedMachine.Engine
