import ManagedMachine.Domain.Basic

/-!
Objects of a domain: their fields and elements, copies of boxed structs, the values that fresh
locations hold, and the static fields of types. Structs may nest, so what follows their fields takes
a bound on the depth.
-/

set_option autoImplicit false
set_option relaxedAutoImplicit false

namespace ManagedMachine.Domain

/-- Adds an object to the heap. -/
def allocate (o : HeapObject) : DomainM ObjectId := fun d =>
  let (id, heap) := d.heap.allocate o
  .ok id { d with heap }

/-- A new object, as a value. -/
def newObject (o : HeapObject) : DomainM Value := return .object (← allocate o)

/-- Replaces an object by another one of the same identity. -/
def putObject (id : ObjectId) (o : HeapObject) : DomainM Unit :=
  modify fun d => { d with heap := d.heap.put id o }

def stackFault {α : Type} (fault : StackFault) : DomainM α := throw (.stack fault)

/-- An operation met an object of another kind than it works on. -/
def notAn {α : Type} (id : ObjectId) (what : String) : DomainM α := do
  stackFault (.notAn (← ask fun d => (d.typeOf id).name) what)

/-- The fields of an object, which has to be an instance. -/
def instanceFields (id : ObjectId) : DomainM (Array Value) := do
  match ← ask fun d => d.heap.object id with
  | .instance_ _ fields _ => return fields
  | _ => notAn id "an interpreted instance"

/-- One field of an instance. -/
def field (id : ObjectId) (i : Nat) : DomainM Value := do
  match (← instanceFields id)[i]? with
  | some v => return v
  | none => stackFault (.noFieldSlot i)

/-- Sets one field of an instance. -/
def setField (id : ObjectId) (i : Nat) (v : Value) : DomainM Unit := do
  match ← ask fun d => d.heap.object id with
  | .instance_ type fields adapted =>
    if i < fields.size then putObject id (.instance_ type (fields.setIfInBounds i v) adapted)
    else stackFault (.noFieldSlot i)
  | _ => notAn id "an interpreted instance"

/-- The items of an object, which has to be an array. -/
def arrayItems (id : ObjectId) : DomainM (Array Value) := do
  match ← ask fun d => d.heap.object id with
  | .array _ items => return items
  | _ => notAn id "an array"

/-- The length of an array. -/
def length (id : ObjectId) : DomainM Nat := return (← arrayItems id).size

/-- An array element, or nothing outside of the array. -/
def element? (id : ObjectId) (i : Nat) : DomainM (Option Value) := return (← arrayItems id)[i]?

/-- Writes an array element; the answer is whether the array has it. -/
def setElement (id : ObjectId) (i : Nat) (v : Value) : DomainM Bool := do
  match ← ask fun d => d.heap.object id with
  | .array type items =>
    if i < items.size then do
      putObject id (.array type (items.setIfInBounds i v))
      return true
    else return false
  | _ => notAn id "an array"

/-- Whether the object is a boxed struct. -/
def isStructObject (id : ObjectId) : DomainM Bool := ask fun d => (d.typeOf id).isStruct

/-- A copy of a boxed struct with copies of the structs in its fields. Everything else, and a host
struct that cannot be copied, stays the object it is. -/
def copyStruct : (fuel : Nat) → ObjectId → DomainM ObjectId
  | 0, _ => throw .outOfFuel
  | fuel + 1, id => do
    if !(← isStructObject id) then return id
    else
      match ← ask fun d => d.heap.object id with
      | .instance_ type fields _ =>
        let copies ← fields.toList.mapM fun
          | .object inner => return Value.object (← copyStruct fuel inner)
          | v => return v
        allocate (.instance_ type copies.toArray false)
      | .native type data =>
        let copy ← ask fun d => (d.registry.type type).native?.bind HostType.copy
        match copy.bind fun copy => copy data with
        | some data => allocate (.native type data)
        | none => return id
      | .array .. => return id

/-- The value to store where structs are kept by value. -/
def copyValue (fuel : Nat) : Value → DomainM Value
  | .object id => return .object (← copyStruct fuel id)
  | v => return v

/-! ### Defaults and statics -/

/-- The default of a primitive type. -/
def primitiveDefault : Primitive → Value
  | .void => .null
  | .boolean => .bool false
  | .int64 | .uint64 => .int64 0
  | .single => .single 0
  | .double => .double 0
  | _ => .int32 0

/-- The value of a fresh location. -/
def defaultValue : (fuel : Nat) → TypeId → DomainM Value
  | 0, _ => throw .outOfFuel
  | fuel + 1, t => do
    let d ← ask fun d => d.registry.type t
    match d.primitive? with
    | some p => return primitiveDefault p
    | none =>
      if !d.isStruct then return .null
      else
        match d.native? with
        | some type =>
          match type.default with
          | some data => newObject (.native t data)
          | none => return .null
        | none =>
          let l ← Registry.layout fuel t
          let fields ← l.instance_.mapM fun f => defaultValue fuel f.type
          newObject (.instance_ t fields.toArray false)

/-- The static fields of a type, which are made when they are first used. -/
def staticsOf (fuel : Nat) (t : TypeId) : DomainM Statics := do
  match ← ask fun d => d.statics[t]? with
  | some s => return s
  | none =>
    let l ← Registry.layout fuel t
    let values ← l.statics.mapM fun f => defaultValue fuel f.type
    let s : Statics := ⟨values.toArray, .untouched⟩
    modify fun d => { d with statics := d.statics.insert t s }
    return s

/-- Replaces the statics of a type. -/
def putStatics (t : TypeId) (s : Statics) : DomainM Unit :=
  modify fun d => { d with statics := d.statics.insert t s }

/-- One static field of a type. -/
def static (fuel : Nat) (t : TypeId) (i : Nat) : DomainM Value := do
  match (← staticsOf fuel t).values[i]? with
  | some v => return v
  | none => stackFault (.noStaticSlot i)

/-- Sets one static field of a type. -/
def setStatic (fuel : Nat) (t : TypeId) (i : Nat) (v : Value) : DomainM Unit := do
  let s ← staticsOf fuel t
  if i < s.values.size then putStatics t { s with values := s.values.setIfInBounds i v }
  else stackFault (.noStaticSlot i)

/-- Claims the type initializer. The answer is true for the one access that has to run it; one that
runs or has run is not run again. -/
def beginInitialization (fuel : Nat) (t : TypeId) : DomainM Bool := do
  let s ← staticsOf fuel t
  match s.state with
  | .untouched => do
    putStatics t { s with state := .running }
    return true
  | _ => return false

/-- The initializer of the type has ended, whatever became of it. -/
def finishInitialization (fuel : Nat) (t : TypeId) : DomainM Unit := do
  let s ← staticsOf fuel t
  putStatics t { s with state := .done }

/-! ### Types of values -/

/-- The type of a value; null has none. -/
def typeOfValue : Value → DomainM (Option TypeId)
  | .null => return none
  | .bool _ => return some (← Registry.primitive .boolean)
  | .int32 _ => return some (← Registry.primitive .int32)
  | .int64 _ => return some (← Registry.primitive .int64)
  | .single _ => return some (← Registry.primitive .single)
  | .double _ => return some (← Registry.primitive .double)
  | .string _ => return some (← Registry.coreType CoreLibrary.stringName)
  | .object id => return some (← ask fun d => d.heap.type id)

/-- An exception of the core library with a message, as the error that it raises. -/
def faultError (f : CoreLibrary.Fault) (message : String) : DomainM Error := do
  let t ← Registry.coreType f.typeName
  return .exception ⟨← newObject (.native t (.exception (some message))), []⟩

/-- Raises an exception of the core library. -/
def raise {α : Type} (f : CoreLibrary.Fault) (message : String) : DomainM α := do
  throw (← faultError f message)

end ManagedMachine.Domain
