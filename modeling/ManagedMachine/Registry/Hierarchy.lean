import ManagedMachine.Registry.Signatures

/-!
Base types and interfaces. Walks along the bases of a type take a bound on their length: nothing
keeps a module from defining a type that derives from itself.
-/

set_option autoImplicit false
set_option relaxedAutoImplicit false

namespace ManagedMachine.Registry

/-- The base type that a definition names, or the one of its kind. -/
def findBase (t : TypeId) (d : Descriptor) : RegistryM (Option TypeId) := do
  match d.shape with
  | .interpreted home token =>
    match (home.content.typeDef token).toOption with
    | none => throw (.typeNotFound d.name)
    | some def_ =>
      match def_.extends_ with
      | some s => return some (← resolveType home.id (.ofType t) s)
      | none =>
        if def_.flags.interface then return none
        else if def_.flags.valueType then return some (← coreType CoreLibrary.valueTypeName)
        else return some (← coreType CoreLibrary.objectName)
  | .native type =>
    match type.base with
    | some base => return some (← resolveIn base (some type.moduleName))
    | none => return none
  | .array .. => return some (← coreType CoreLibrary.arrayName)
  | .byRef _ | .parameter => return none

/-- The base type; the object type, interfaces and stand-ins have none. -/
def baseType (t : TypeId) : RegistryM (Option TypeId) := do
  match ← ask fun r => r.facts.bases[t]? with
  | some base => return base
  | none =>
    let base ← findBase t (← ask (·.type t))
    modify fun r => { r with facts := { r.facts with bases := r.facts.bases.insert t base } }
    return base

/-- The interfaces that a type itself lists. -/
def findInterfaces (t : TypeId) (d : Descriptor) : RegistryM (List TypeId) :=
  match d.shape with
  | .interpreted home token =>
    match (home.content.typeDef token).toOption with
    | some def_ => resolveTypes home.id (.ofType t) def_.implements
    | none => pure []
  | .native type => type.interfaces.mapM fun name => resolveIn name (some type.moduleName)
  | _ => pure []

/-- The interfaces that the type itself declares. -/
def interfaces (t : TypeId) : RegistryM (List TypeId) := do
  match ← ask fun r => r.facts.interfaces[t]? with
  | some found => return found
  | none =>
    let found ← findInterfaces t (← ask (·.type t))
    modify fun r =>
      { r with facts := { r.facts with interfaces := r.facts.interfaces.insert t found } }
    return found

/-! ### Walks along the bases -/

/-- What a walk does at a type. -/
inductive Visit (α : Type) where
  | found (a : α)
  | stop
  | onward

/-- Visits a type and its bases until a visit ends the walk. -/
def walk {α : Type} (visit : TypeId → RegistryM (Visit α)) :
    (fuel : Nat) → TypeId → RegistryM (Option α)
  | 0, _ => throw .outOfFuel
  | fuel + 1, t => do
    match ← visit t with
    | .found a => return some a
    | .stop => return none
    | .onward =>
      match ← baseType t with
      | some base => walk visit fuel base
      | none => return none

/-- A visit that ends at the first type with an answer. -/
def visitWith {α : Type} (find : TypeId → RegistryM (Option α)) (t : TypeId) :
    RegistryM (Visit α) := do
  match ← find t with
  | some a => return .found a
  | none => return .onward

/-- The first host type among a type and its bases. -/
def firstHostBase (fuel : Nat) (t : TypeId) : RegistryM (Option TypeId) :=
  walk (visitWith fun t => ask fun r => if (r.type t).isNative then some t else none) fuel t

/-- Is `target` among a type, its bases and, for an interface, the interfaces of them all? -/
def reaches (target : TypeId) : (fuel : Nat) → TypeId → RegistryM Bool
  | 0, _ => throw .outOfFuel
  | fuel + 1, t => do
    if t = target then return true
    else
      let isInterface ← ask fun r => (r.type target).isInterface
      if ← if isInterface then do (← interfaces t).anyM (reaches target fuel) else pure false then
        return true
      else
        match ← baseType t with
        | some base => reaches target fuel base
        | none => return false

/-- May a value of type `source` be stored where a `target` is expected? -/
def isAssignable (fuel : Nat) (source target : TypeId) : RegistryM Bool := do
  let r ← get
  if source = target then return true
  else if r.typeName target = CoreLibrary.objectName then return !(r.type source).isByRef
  else reaches target fuel source

end ManagedMachine.Registry
