import ManagedMachine.Error

/-!
The evaluation stack of one interpreter. A fixed number of slots is shared by two regions that grow
towards each other: operands from address 0 up to `top`, and the blocks of inline structs from the
highest address down to `low`. A block is a header with its fields in the slots below.

Objects that slots refer to lie in a table beside the slots, the managed entries. An entry is given
up when the slot that owns it is released while it is the last one, and a block when the slot that
points at it is released while it is the lowest one. Entries below `floor` and blocks at or above
`base` belong to the locals of running frames and stay until their frame ends.
-/

set_option autoImplicit false
set_option relaxedAutoImplicit false

namespace ManagedMachine

/-- The stack of one interpreter: slots that operands fill upwards and blocks downwards, with a
table of managed entries beside them. -/
structure Stack where
  slots : Array Slot
  /-- The address of the next free operand. -/
  top : Nat
  /-- The lowest address that a block uses. -/
  low : Nat
  base : Nat
  floor : Nat
  managed : Array Value

/-- A position to which the stack can be reset. -/
structure Stack.Mark where
  top : Nat
  low : Nat
  base : Nat
  floor : Nat
  entries : Nat
  deriving DecidableEq

/-- The bounds of the storage that belongs to the frames below the running one. -/
structure Stack.Bounds where
  base : Nat
  floor : Nat
  deriving DecidableEq

/-- Stack operations keep what they did before they failed. -/
abbrev StackM := EStateM Error Stack

namespace Stack

def empty (capacity : Nat) : Stack :=
  ⟨Array.replicate capacity .null, 0, capacity, capacity, 0, #[]⟩

instance : Inhabited Stack := ⟨empty 0⟩

def capacity (s : Stack) : Nat := s.slots.size

def entries (s : Stack) : Nat := s.managed.size

def describe (s : Stack) : String :=
  "RuntimeStack \x7b " ++
    s!"capacity: {s.capacity}, esp: {s.top}, vt_ptr: {s.low}, managed: {s.entries}" ++ " \x7d"

/-! ### Frames -/

/-- What a frame has to put back when it is left. -/
def mark (s : Stack) : Mark := ⟨s.top, s.low, s.base, s.floor, s.entries⟩

/-- Gives up everything that was put on the stack since the mark; what was taken off stays off. -/
def reset (m : Mark) (s : Stack) : Stack :=
  { s with
    top := min m.top s.top
    low := min (max m.low s.low) s.slots.size
    base := m.base
    floor := m.floor
    managed := s.managed.shrink m.entries }

/-- Gives up all operands, blocks and entries; the slots keep their content. -/
def clear (s : Stack) : Stack :=
  { s with top := 0, low := s.slots.size, base := s.slots.size, floor := 0, managed := #[] }

def bounds (s : Stack) : Bounds := ⟨s.base, s.floor⟩

/-- Starts a frame, which never gives up an entry made before it. -/
def enterFrame (s : Stack) : Stack := { s with floor := s.managed.size }

/-- Makes every block and entry so far part of the frame's locals. -/
def sealLocals (s : Stack) : Stack := { s with base := s.low, floor := s.managed.size }

/-- Returns to the bounds of the calling frame. -/
def leaveFrame (b : Bounds) (s : Stack) : Stack := { s with base := b.base, floor := b.floor }

/-! ### Slots -/

/-- Work on the stack fails with a fault. -/
def fail {α : Type} (fault : StackFault) : Except Error α := .error (.stack fault)

/-- The slot at an address, which has to be inside the stack. -/
def slotAt (s : Stack) (addr : Nat) : Except Error Slot :=
  match s.slots[addr]? with
  | some slot => .ok slot
  | none => fail (.outsideStack addr)

/-- The address of the operand on top. -/
def topAddr (s : Stack) : Except Error Nat :=
  if s.top = 0 then fail .empty else .ok (s.top - 1)

def topSlot (s : Stack) : Except Error Slot := do s.slotAt (← s.topAddr)

/-- The slot `depth` positions below the top one. -/
def peek (s : Stack) (depth : Nat) : Except Error Slot :=
  if s.top ≤ depth then fail .underflow else s.slotAt (s.top - (depth + 1))

/-- The value of a managed entry. -/
def entry (s : Stack) (i : Nat) : Except Error Value :=
  match s.managed[i]? with
  | some v => .ok v
  | none => fail (.deadEntry i)

/-! ### Blocks -/

/-- The type and the number of fields of the block with header `d`. -/
def header (s : Stack) (d : Nat) : Except Error (TypeId × Nat) := do
  match ← s.slotAt d with
  | .header type fields => .ok (type, fields)
  | other => fail (.noHeader d other.kind)

/-- The address of a field of a block. -/
def fieldAddr (s : Stack) (d i : Nat) : Except Error Nat := do
  let (_, count) ← s.header d
  if count ≤ i then fail (.noField i count) else .ok (d - 1 - i)

/-- The lowest address of the block with header `d` and of the blocks nested in it. -/
def blockLow (s : Stack) (d : Nat) : Except Error Nat := do
  let (_, count) ← s.header d
  (List.range' (d - count) (min count d)).foldlM (fun low addr => do
    match s.slots.getD addr .null with
    | .block nested =>
      if _h : nested < d then return min low (← s.blockLow nested) else return low
    | _ => return low) (d - count)
termination_by d

/-! ### Changing the stack -/

/-- Runs a query on the current stack. -/
def ask {α : Type} (query : Stack → Except Error α) : StackM α := fun s =>
  match query s with
  | .ok a => .ok a s
  | .error e => .error e s

/-- Overwrites a slot without releasing what it held. -/
def setSlot (addr : Nat) (slot : Slot) : StackM Unit := fun s =>
  if addr < s.slots.size then .ok () { s with slots := s.slots.setIfInBounds addr slot }
  else .error (.stack (.outsideStack addr)) s

/-- Pushes an operand, if there is room below the blocks. -/
def push (slot : Slot) : StackM Unit := fun s =>
  if s.low ≤ s.top then .error .stackOverflow s
  else .ok () { s with slots := s.slots.setIfInBounds s.top slot, top := s.top + 1 }

/-- Puts a slot at `addr` and moves the operands from there on up by one. -/
def insert (addr : Nat) (slot : Slot) : StackM Unit := fun s =>
  if s.top < addr then .error (.stack (.outsideStack addr)) s
  else
    match push .null s with
    | .error e s => .error e s
    | .ok () s =>
      let count := s.top - 1 - addr
      let slots := count.fold (fun i _ slots =>
        let target := s.top - 1 - i
        slots.setIfInBounds target (slots.getD (target - 1) .null)) s.slots
      .ok () { s with slots := slots.setIfInBounds addr slot }

/-- A new managed entry on top of the others. -/
def pushEntry (v : Value) : StackM Nat := fun s =>
  .ok s.managed.size { s with managed := s.managed.push v }

def setEntry (i : Nat) (v : Value) : StackM Unit := fun s =>
  if i < s.managed.size then .ok () { s with managed := s.managed.setIfInBounds i v }
  else .error (.stack (.deadEntry i)) s

/-- Gives an entry up if it is the last one and no local's. -/
def releaseEntry (i : Nat) (s : Stack) : Stack :=
  if i + 1 = s.managed.size ∧ s.floor ≤ i then { s with managed := s.managed.pop } else s

/-- `releaseEntry` for the entry that a slot names, if it names one. -/
def releaseSlotEntry (slot : Slot) (s : Stack) : Stack :=
  match slot.entry? with
  | some i => s.releaseEntry i
  | none => s

/-- Gives the block with header `d` up if it is the lowest one and no local's, together with the
entries of its slots. -/
def freeBlock (d : Nat) : StackM Unit := fun s =>
  if s.base ≤ d then .ok () s
  else
    match s.blockLow d with
    | .error e => .error e s
    | .ok low =>
      if low ≠ s.low then .ok () s
      else
        let s := (List.range' low (d - low)).foldl (fun s addr =>
          releaseSlotEntry (s.slots.getD addr .null) s) s
        .ok () { s with low := d + 1 }

/-- Releases what a slot owns. -/
def release (slot : Slot) : StackM Unit := do
  modify (releaseSlotEntry slot)
  match slot with
  | .block d => freeBlock d
  | _ => pure ()

/-- Drops the operand on top together with what it owns. -/
def pop : StackM Unit := fun s =>
  match s.topAddr with
  | .error e => .error e s
  | .ok addr => release (s.slots.getD addr .null) { s with top := addr }

/-- Pops `count` operands. -/
def popMany : (count : Nat) → StackM Unit
  | 0 => pure ()
  | count + 1 => do pop; popMany count

/-- Pops operands until the top is `addr`. -/
def popTo (addr : Nat) : StackM Unit := fun s =>
  if s.top < addr then .error (.stack (.popAbove addr s.top)) s else popMany (s.top - addr) s

/-- Pushes a value that is no struct as an object with an entry of its own; null needs none. -/
def pushObject (v : Value) : StackM Unit := do
  if v.isNull then push .null
  else
    let i ← pushEntry v
    push (.object i)

/-- Sets up a block of null fields below the lowest one; the answer is the address of its header. -/
def allocBlock (type : TypeId) (fields : Nat) : StackM Nat := fun s =>
  if s.low < s.top + fields + 1 then .error .stackOverflow s
  else
    let d := s.low - 1
    let slots := (List.range' (d - fields) fields).foldl (fun slots addr =>
      slots.setIfInBounds addr .null) (s.slots.setIfInBounds d (.header type fields))
    .ok d { s with slots, low := d - fields }

end Stack

end ManagedMachine
