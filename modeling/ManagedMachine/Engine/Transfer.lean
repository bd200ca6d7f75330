import ManagedMachine.Engine.Blocks

/-!
Moving values between operands, locals, blocks and the heap. Every object slot owns its managed
entry: a copy of a slot gets an entry of its own, and a store into a location that owns an entry
overwrites that entry.
-/

set_option autoImplicit false
set_option relaxedAutoImplicit false

namespace ManagedMachine.Engine

/-! ### Loading -/

/-- A fresh copy of a block. -/
def copyOfBlock (fuel d : Nat) : RunM Nat := do
  let (type, _) ← read (·.header d)
  let copy ← allocInline fuel (← typeAt type)
  copyBlock fuel d copy
  return copy

/-- Pushes a copy of the location at `addr`. -/
def pushCopy (fuel addr : Nat) : RunM Unit := do
  match ← read (·.slotAt addr) with
  | .object entry => do Stack.pushObject (← sharedOrCopied fuel (← read (·.entry entry)))
  | .block d => do Stack.push (.block (← copyOfBlock fuel d))
  | .fieldRef entry field => do
    let own ← Stack.pushEntry (← read (·.entry entry))
    Stack.push (.fieldRef own field)
  | .elementRef entry index => do
    let own ← Stack.pushEntry (← read (·.entry entry))
    Stack.push (.elementRef own index)
  | .header .. => stackFault .headerCopied
  | other => Stack.push other

/-- What the slot at `addr` holds. -/
def loadCarry (addr : Nat) : RunM Carry := do
  match ← read (·.slotAt addr) with
  | .object entry => return .value (← read (·.entry entry))
  | .block d => return .block d
  | .fieldRef entry field => return .fieldRef (← read (·.entry entry)) field
  | .elementRef entry index => return .elementRef (← read (·.entry entry)) index
  | .header .. => stackFault .headerAsValue
  | other => return .slot other

/-- The operand on top as a carry. -/
def loadTop : RunM Carry := do loadCarry (← read (·.topAddr))

/-- Makes a carry independent of the stack: a block is boxed. -/
def detach (fuel : Nat) : Carry → RunM Carry
  | .block d => return .value (← snapshot fuel d)
  | other => return other

/-- Pushes a carry as an operand of some type. -/
def pushCarry (fuel : Nat) (c : Carry) (t : TypeId) : RunM Unit := do
  match c with
  | .slot (.int32 v) =>
    match (← descriptor t).primitive? with
    | some p => Stack.push (.int32 (p.narrow v))
    | none => Stack.push (.int32 v)
  | .slot .null =>
    if ← isInline fuel t then do Stack.push (.block (← allocInline fuel t)) else Stack.push .null
  | .slot s => Stack.push s
  | .value v => pushValue fuel v t
  | .block d => do Stack.push (.block (← copyOfBlock fuel d))
  | .fieldRef object field => do
    let entry ← Stack.pushEntry object
    Stack.push (.fieldRef entry field)
  | .elementRef array index => do
    let entry ← Stack.pushEntry array
    Stack.push (.elementRef entry index)

/-- The value of a carry for a heap location of some type. References may not leave the stack. -/
def carryValue (fuel : Nat) (c : Carry) (t : TypeId) : RunM Value := do
  match c with
  | .slot .null => return .null
  | .slot s =>
    if s.isNumeric then return s.value (← descriptor t).primitive?
    else throw (.unsupportedReference s!"{s.kind} stored outside the evaluation stack")
  | .value v => return shownAs v (← descriptor t).primitive?
  | .block d => snapshot fuel d
  | .fieldRef .. | .elementRef .. =>
    throw (.unsupportedReference "managed reference stored outside the evaluation stack")

/-! ### Storing -/

/-- Stores a value into the location at `addr`, which holds `current`. -/
def storeValue (fuel addr : Nat) (current : Slot) (v : Value) : RunM Unit :=
  match current with
  | .block d => writeBoxed fuel d v
  | .object _ | .null => storeObject addr current v
  | _ =>
    match v.slot? with
    | some s => Stack.setSlot addr s
    | none => storeObject addr current v

/-- Stores a carry into the stack location at `addr`. -/
def storeInto (fuel addr : Nat) (c : Carry) : RunM Unit := do
  let current ← read (·.slotAt addr)
  match c with
  | .block d =>
    match current with
    | .block target => copyBlock fuel d target
    | _ => do storeObject addr current (← snapshot fuel d)
  | .value v => storeValue fuel addr current v
  | .slot s =>
    match current, s with
    | .object entry, .null => Stack.setEntry entry .null
    | .block d, .null => writeBoxed fuel d .null
    | _, _ => Stack.setSlot addr s
  | .fieldRef object field => do
    let entry ← Stack.pushEntry object
    Stack.setSlot addr (.fieldRef entry field)
  | .elementRef array index => do
    let entry ← Stack.pushEntry array
    Stack.setSlot addr (.elementRef entry index)

/-- Stores the top operand into the location at `addr` and pops it. -/
def storeTop (fuel addr : Nat) : RunM Unit := do
  storeInto fuel addr (← loadTop)
  Stack.pop

/-! ### Through references -/

/-- What a value refers to, for access to its fields. -/
def targetOfValue : Value → RunM Target
  | .object id => return .object id
  | .null => return .null
  | other => do stackFault (.noFields (← Domain.ask fun d => d.describe other))

/-- What the access to an instance field through a slot reaches. -/
def targetOf : (fuel : Nat) → Slot → RunM Target
  | 0, _ => throw .outOfFuel
  | fuel + 1, s => do
    match s with
    | .null => return .null
    | .object entry => do targetOfValue (← read (·.entry entry))
    | .block d => return .block d
    | .stackRef addr =>
      match ← read (·.slotAt addr) with
      | .header .. => return .block addr
      | inner => targetOf fuel inner
    | .fieldRef .. | .elementRef .. | .staticRef .. => do targetOfValue (← readHeap fuel s)
    | other => stackFault (.noFields other.kind)

/-- What a load through an address gives. -/
def loadThrough (fuel : Nat) (s : Slot) : RunM Carry := do
  match s with
  | .stackRef addr =>
    match ← read (·.slotAt addr) with
    | .header .. => return .block addr
    | _ => loadCarry addr
  | .fieldRef .. | .elementRef .. | .staticRef .. => return .value (← readHeap fuel s)
  | other => stackFault (.addressExpected other.kind)

/-- Stores a carry into the block with header `d`. -/
def storeIntoBlock (fuel d : Nat) : Carry → RunM Unit
  | .block source => copyBlock fuel source d
  | .value v => writeBoxed fuel d v
  | .slot .null => writeBoxed fuel d .null
  | _ => stackFault .intoBlock

/-- Stores a carry through an address. The answer is false for an element that the array does not
have. -/
def storeThrough (fuel : Nat) (s : Slot) (c : Carry) (t : TypeId) : RunM Bool := do
  match s with
  | .stackRef addr => do
    match ← read (·.slotAt addr) with
    | .header .. => storeIntoBlock fuel addr c
    | _ => storeInto fuel addr c
    return true
  | .fieldRef entry field => do
    let v ← carryValue fuel c t
    match ← read (·.entry entry) with
    | .object id => do
      Domain.setField id field v
      return true
    | _ => stackFault .fieldOfNonObject
  | .elementRef entry index => do
    let v ← carryValue fuel c t
    match ← read (·.entry entry) with
    | .object id => Domain.setElement id index v
    | _ => stackFault .elementOfNonArray
  | .staticRef type field => do
    let v ← carryValue fuel c t
    Domain.setStatic fuel (← typeAt type) field v
    return true
  | other => stackFault (.addressExpected other.kind)

end ManagedMachine.Engine
