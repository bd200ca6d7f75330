import ManagedMachine.Engine.State

/-!
Inline structs. A location of an interpreted struct type, or of a host struct with a binder, holds a
block on the stack; on the heap such a struct lives in a box of its own. Blocks are copied field by
field and boxes are copied when they are read or written, so no two locations share storage.
-/

set_option autoImplicit false
set_option relaxedAutoImplicit false

namespace ManagedMachine

/-- How a type is stored inline. -/
inductive Inline where
  | struct (layout : FieldLayout)
  | bound (binder : StructBinder)

namespace Engine

/-- How values of the type lie on the stack, if they do. -/
def inlineKind (fuel : Nat) (t : TypeId) : RunM (Option Inline) := do
  let d ← descriptor t
  if !d.isStruct || d.primitive?.isSome then return none
  else
    match ← Domain.ask fun domain => domain.bindings.binder? d.name with
    | some binder => return some (.bound binder)
    | none =>
      if d.isInterpreted then return some (.struct (← Registry.layout fuel t)) else return none

/-- Whether values of the type are blocks of the stack. -/
def isInline (fuel : Nat) (t : TypeId) : RunM Bool := return (← inlineKind fuel t).isSome

def notInline {α : Type} (t : TypeId) : RunM α := do
  stackFault (.notInline (← descriptor t).name)

/-! ### Fresh locations -/

/-- The slot of a fresh location; `alloc` makes inline structs. -/
def freshSlot (alloc : TypeId → RunM Nat) (fuel : Nat) (t : TypeId) : RunM Slot := do
  let d ← descriptor t
  match d.primitive? with
  | some p => return .zero p
  | none =>
    if ← isInline fuel t then return .block (← alloc t)
    else
      let v ← if d.isStruct then (Domain.defaultValue fuel t : DomainM Value) else pure Value.null
      return .object (← Stack.pushEntry v)

/-- Writes field slots from the first field on. -/
def writeFields (d : Nat) (slots : List Slot) : RunM Unit :=
  slots.zipIdx.forM fun (slot, i) => Stack.setSlot (d - 1 - i) slot

/-- Sets the fields of a bound struct to zero, and then to the default of its type if it has one. -/
def resetBound (binder : StructBinder) (t : TypeId) (d : Nat) : RunM Unit := do
  writeFields d (binder.fields.map Slot.zero)
  match (← descriptor t).native?.bind HostType.default with
  | some data => do writeFields d (← ofExcept (binder.write data))
  | none => pure ()

/-- A new block that holds the default of its type. -/
def allocInline : (fuel : Nat) → TypeId → RunM Nat
  | 0, _ => throw .outOfFuel
  | fuel + 1, t => do
    match ← inlineKind fuel t with
    | some (.bound binder) =>
      let d ← Stack.allocBlock t binder.fields.length
      resetBound binder t d
      return d
    | some (.struct l) =>
      let d ← Stack.allocBlock t l.instance_.length
      l.instance_.zipIdx.forM fun (f, i) => do
        let slot ← freshSlot (allocInline fuel) fuel f.type
        Stack.setSlot (d - 1 - i) slot
      return d
    | none => notInline t

/-- The slot that a freshly declared location starts with. -/
def defaultSlot (fuel : Nat) (t : TypeId) : RunM Slot := freshSlot (allocInline fuel) fuel t

/-! ### Copies -/

/-- The slots of a block, from its first field on. -/
def blockFields (d : Nat) : RunM (List Slot) := do
  let (_, count) ← read (·.header d)
  (List.range count).mapM fun i => read (·.slotAt (d - 1 - i))

/-- The value to keep when a value is copied out of a struct: host structs are copied, and
everything else is shared. -/
def sharedOrCopied (fuel : Nat) : Value → DomainM Value
  | .object id => do
    let d ← get
    if (d.typeOf id).isStruct && (d.heap.data? id).isSome then
      return .object (← Domain.copyStruct fuel id)
    else return .object id
  | v => return v

/-- Writes a reference to a location, into the entry that the location owns if it has one. -/
def storeObject (addr : Nat) (current : Slot) (v : Value) : StackM Unit := do
  match current with
  | .object i => Stack.setEntry i v
  | _ =>
    if v.isNull then Stack.setSlot addr .null
    else
      let i ← Stack.pushEntry v
      Stack.setSlot addr (.object i)

/-- The type at a position, which has to be there. -/
def typeAt (t : TypeId) : RunM TypeId := Registry.lift fun r => r.typeAt t.index

/-- The name of a type, or its position if there is no such type. -/
def castName (r : Registry) (t : TypeId) : String :=
  match r.typeAt t.index with
  | .ok t => r.typeName t
  | .error _ => s!"#{t.index}"

/-- A box is not of the type that was asked for. -/
def castMismatch {α : Type} (source target : TypeId) : RunM α := do
  let r ← (Domain.ask (·.registry) : DomainM Registry)
  throw (.invalidCast (castName r source) (castName r target))

/-- Copies field `i` of a block; `copy` copies nested blocks. -/
def copyField (copy : Nat → Nat → RunM Unit) (fuel src dst i : Nat) : RunM Unit := do
  let source ← read (·.slotAt (src - 1 - i))
  let addr := dst - 1 - i
  let current ← read (·.slotAt addr)
  match source, current with
  | .block nested, .block target => copy nested target
  | .block _, _ | _, .block _ => stackFault (.inlineInOne i)
  | .object entry, _ =>
    let v ← sharedOrCopied fuel (← read (·.entry entry))
    storeObject addr current v
  | .null, _ => storeObject addr current .null
  | other, _ => Stack.setSlot addr other

/-- Copies a block into another one, whose fields keep their own entries. -/
def copyBlock : (fuel : Nat) → (src dst : Nat) → RunM Unit
  | 0, _, _ => throw .outOfFuel
  | fuel + 1, src, dst => do
    if src = dst then pure ()
    else
      let (source, count) ← read (·.header src)
      let (target, targetCount) ← read (·.header dst)
      let checked ← Domain.ask fun d => d.config.checkStructCasts
      if source ≠ target && (checked || count ≠ targetCount) then castMismatch source target
      else (List.range count).forM (copyField (copyBlock fuel) fuel src dst)

/-! ### Reading -/

/-- What a location of by-reference type refers to. -/
def referent (t : TypeId) : RunM TypeId := do
  let d ← descriptor t
  return if d.isByRef then d.element?.getD t else t

/-- The value at a heap location. -/
def readHeap (fuel : Nat) (s : Slot) : RunM Value := do
  match s with
  | .fieldRef entry field =>
    match ← read (·.entry entry) with
    | .object id => Domain.field id field
    | _ => stackFault .fieldOfNonObject
  | .elementRef entry index =>
    match ← read (·.entry entry) with
    | .object id =>
      match ← Domain.element? id index with
      | some v => return v
      | none => stackFault (.elementOutOfRange index)
    | _ => stackFault .elementOfNonArray
  | .staticRef type field => Domain.static fuel (← typeAt type) field
  | other => stackFault (.heapReferenceExpected other.kind)

/-- A value as a location of some type shows it: numbers as numbers of a primitive type. -/
def shownAs (v : Value) (p : Option Primitive) : Value :=
  match p, v.slot? with
  | some _, some s => s.value p
  | _, _ => v

mutual

/-- The block as a boxed struct. -/
def snapshot : (fuel : Nat) → (d : Nat) → RunM Value
  | 0, _ => throw .outOfFuel
  | fuel + 1, d => do
    let (type, count) ← read (·.header d)
    let t ← typeAt type
    match ← inlineKind fuel t with
    | some (.bound binder) =>
      let data ← ofExcept (binder.read (← blockFields d))
      Domain.newObject (.native t data)
    | some (.struct l) =>
      let fields ← (l.instance_.take count).zipIdx.mapM fun (f, i) => do
        match ← read (·.slotAt (d - 1 - i)) with
        | .object entry => sharedOrCopied fuel (← read (·.entry entry))
        | s => readValue fuel s f.type
      Domain.newObject (.instance_ t fields.toArray false)
    | none => notInline t

/-- The value of a slot for a location of some type; references are followed and blocks boxed. -/
def readValue : (fuel : Nat) → Slot → TypeId → RunM Value
  | 0, _, _ => throw .outOfFuel
  | fuel + 1, s, t => do
    match s with
    | .null => return .null
    | .int32 _ | .int64 _ | .single _ | .double _ => return s.value (← descriptor t).primitive?
    | .object entry => return shownAs (← read (·.entry entry)) (← descriptor t).primitive?
    | .block d => snapshot fuel d
    | .stackRef addr =>
      match ← read (·.slotAt addr) with
      | .header .. => snapshot fuel addr
      | inner => readValue fuel inner (← referent t)
    | .fieldRef .. | .elementRef .. | .staticRef .. =>
      let v ← readHeap fuel s
      return shownAs v (← descriptor (← referent t)).primitive?
    | .header .. => stackFault .headerAsValue

end

/-! ### Writing -/

/-- The field slots of a value for a bound struct; nothing stands for the default. -/
def boundSlots (binder : StructBinder) (t : TypeId) (id : ObjectId) : RunM (List Slot) := do
  let domain ← (Domain.ask fun d => d : DomainM Domain)
  match domain.heap.data? id with
  | some data => ofExcept (binder.write data)
  | none => throw (.invalidCast (domain.typeOf id).name (domain.registry.typeName t))

/-- Refuses a box of another type, where struct casts are checked. -/
def checkBox (t : TypeId) (id : ObjectId) : RunM Unit := do
  let domain ← (Domain.ask fun d => d : DomainM Domain)
  if domain.config.checkStructCasts && domain.heap.type id ≠ t then
    castMismatch (domain.heap.type id) t

/-- A value that should be a box is none. -/
def notBoxed {α : Type} (v : Value) (t : TypeId) : RunM α := do
  let domain ← (Domain.ask fun d => d : DomainM Domain)
  throw (.invalidCast (domain.describe v) (domain.registry.typeName t))

/-- Writes a value to a location of some type; `box` writes to blocks. -/
def writeLocation (box : Nat → Value → RunM Unit) (fuel addr : Nat) (v : Value) (t : TypeId) :
    RunM Unit := do
  match ← read (·.slotAt addr) with
  | .block d => box d v
  | current =>
    match (← descriptor t).primitive? with
    | some p => do Stack.setSlot addr (← ofExcept (v.slotFor p))
    | none => do storeObject addr current (← sharedOrCopied fuel v)

/-- Overwrites a block with a boxed struct; null stands for the default. -/
def writeBoxed : (fuel : Nat) → (d : Nat) → Value → RunM Unit
  | 0, _, _ => throw .outOfFuel
  | fuel + 1, d, v => do
    let (type, count) ← read (·.header d)
    let t ← typeAt type
    match ← inlineKind fuel t with
    | some (.bound binder) =>
      match v with
      | .null => resetBound binder t d
      | .object id => do
        checkBox t id
        writeFields d (← boundSlots binder t id)
      | other => notBoxed other t
    | some (.struct l) =>
      let fields ← match v with
        | .null => pure none
        | .object id => do
          checkBox t id
          pure (some (← Domain.instanceFields id))
        | other => notBoxed other t
      (l.instance_.take count).zipIdx.forM fun (f, i) => do
        let fieldValue ← match fields with
          | some values => pure (values.getD i .null)
          | none => (Domain.defaultValue fuel f.type : DomainM Value)
        writeLocation (writeBoxed fuel) fuel (d - 1 - i) fieldValue f.type
    | none => notInline t

/-- A new block that holds a value. -/
def materialize (fuel : Nat) (v : Value) (t : TypeId) : RunM Nat := do
  let d ← allocInline fuel t
  writeBoxed fuel d v
  return d

/-- Pushes a value as an operand of some type. -/
def pushValue (fuel : Nat) (v : Value) (t : TypeId) : RunM Unit := do
  let d ← descriptor t
  match d.primitive? with
  | some .void => pure ()
  | some p => do Stack.push (← ofExcept (v.slotFor p))
  | none =>
    if ← isInline fuel t then do Stack.push (.block (← materialize fuel v t))
    else if d.isStruct then do Stack.pushObject (← sharedOrCopied fuel v)
    else Stack.pushObject v

end Engine

end ManagedMachine
