import ManagedMachine.Registry.Basic
import ManagedMachine.TypeName

/-!
Types by name. A composite name is taken apart, its innermost name is looked up and the type is
built up again around it. Host types come into being when their name is first looked up.
-/

set_option autoImplicit false
set_option relaxedAutoImplicit false

namespace ManagedMachine.Registry

/-- The host type of a full name within a scope, if it is in use already. -/
def inScope? (r : Registry) (name : String) (scope : Option String) : Option TypeId :=
  scope.bind fun s => r.scoped_[name ++ ", " ++ s]?

/-- The type of a plain name as it is spelled: a host type in use from that scope, a type of that
name, or a host type not in use yet. -/
def lookup? (name : String) (scope : Option String) : RegistryM (Option TypeId) := do
  let r ← get
  match r.inScope? name scope <|> r.names[name]? with
  | some t => return some t
  | none =>
    match HostLibrary.find? r.host.toList name scope with
    | some type => return some (← ofHostType type)
    | none => return none

/-- The type of a plain name. A name that is not found is tried again with every slash read as the
plus of a nested type. -/
def resolveIn (name : String) (scope : Option String) : RegistryM TypeId := do
  match ← lookup? name scope with
  | some t => return t
  | none =>
    let nested := name.map fun c => if c = '/' then '+' else c
    match ← if name.any (· == '/') then lookup? nested scope else pure none with
    | some t => return t
    | none => throw (.typeNotFound name)

mutual

/-- The type that a parsed name stands for, built up from the inside. -/
def resolveParsed : TypeName → RegistryM TypeId
  | .simple name scope => resolveIn name scope
  | .array element rank => do makeArray (← resolveParsed element) rank
  | .byRef inner => do makeByRef (← resolveParsed inner)
  | .generic head args => do
    let definition ← resolveParsed head
    makeInstance definition (← resolveAllParsed args)

/-- The types of several names, in order. -/
def resolveAllParsed : List TypeName → RegistryM (List TypeId)
  | [] => pure []
  | name :: rest => do
    let t ← resolveParsed name
    return t :: (← resolveAllParsed rest)

end

/-- The type of a composite name, which is remembered under this spelling too. -/
def resolve (name : String) : RegistryM TypeId := do
  match ← ask fun r => r.names[name]? with
  | some t => return t
  | none =>
    match TypeName.parse? name with
    | none => throw (.typeNotFound name)
    | some parsed =>
      let t ← resolveParsed parsed
      addName name t
      return t

/-- A type of the core library. -/
def coreType (name : String) : RegistryM TypeId := resolveIn name (some CoreLibrary.moduleName)

def primitive (p : Primitive) : RegistryM TypeId := coreType p.fullName

/-- The type behind which the host keeps data of a kind. -/
def typeOfData (kind : HostKind) : RegistryM TypeId := do
  let r ← get
  match r.backed[kind]? with
  | some t => return t
  | none =>
    match HostLibrary.findBacked? r.host.toList kind with
    | some type => ofHostType type
    | none => throw (.typeNotFound "host data")

end ManagedMachine.Registry
