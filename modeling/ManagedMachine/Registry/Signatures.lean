import ManagedMachine.Registry.Naming

/-!
Types by signature. A signature may stand for different types in different generic contexts; its
resolution says whether it does, so that only what holds in every context is remembered under a
token.
-/

set_option autoImplicit false
set_option relaxedAutoImplicit false

namespace ManagedMachine

/-- The generic arguments where a signature stands: those of a type and those of a method. -/
structure GenericContext where
  type : Option TypeId
  methodArgs : List Binding

namespace GenericContext

def empty : GenericContext := ⟨none, []⟩

def ofType (t : TypeId) : GenericContext := ⟨some t, []⟩

def ofMethod (m : Method) : GenericContext := ⟨some m.declaring, m.args⟩

/-- What a parameter stands for; the arguments of the type come first. -/
def find? (c : GenericContext) (r : Registry) (name : String) : Option TypeId :=
  (c.type.bind fun t => Binding.find? (r.type t).args name) <|> Binding.find? c.methodArgs name

end GenericContext

/-- The type of a signature, with how far it depends on the context. -/
inductive Resolution where
  /-- The same in every context. -/
  | fixed (t : TypeId)
  /-- Chosen by the context. -/
  | dependent (t : TypeId)
  /-- A parameter that the context does not bind. -/
  | unbound (name : String)
  deriving DecidableEq

namespace Resolution

def type? : Resolution → Option TypeId
  | fixed t | dependent t => some t
  | unbound _ => none

def isFixed : Resolution → Bool
  | fixed _ => true
  | _ => false

def make (t : TypeId) (fixed_ : Bool) : Resolution := if fixed_ then fixed t else dependent t

end Resolution

namespace Registry

mutual

/-- The type that a signature stands for in a context. -/
def resolveSignature (home : ModuleId) (c : GenericContext) : Signature → RegistryM Resolution
  | .definition token => do return .fixed (← definedType home token)
  | .named name scope => do return .fixed (← resolveIn name scope)
  | .parameter name => do
    match ← ask fun r => c.find? r name with
    | some t => return .dependent t
    | none => return .unbound name
  | .byRef inner => do
    match ← resolveSignature home c inner with
    | .fixed t => return .make (← makeByRef t) !inner.isOpen
    | .dependent t => return .dependent (← makeByRef t)
    | .unbound name => return .unbound name
  | .array element rank => do
    match ← resolveSignature home c element with
    | .fixed t => return .make (← makeArray t rank) !element.isOpen
    | .dependent t => return .dependent (← makeArray t rank)
    | .unbound name => return .unbound name
  | .instantiation head args => do
    match ← resolveSignature home c head with
    | .unbound name => return .unbound name
    | .fixed definition | .dependent definition =>
      let (args', fixed_) ← resolveArguments home c args
      let t ← makeInstance definition args'
      return .make t (fixed_ && !(Signature.instantiation head args).isOpen)
  | .pointer inner =>
    let s := Signature.pointer inner
    throw (.unsupportedReference s!"{s.text} ({s.shape})")
  | .functionPointer =>
    let s := Signature.functionPointer
    throw (.unsupportedReference s!"{s.text} ({s.shape})")

/-- The types of generic arguments, with stand-ins for unbound parameters, and whether all of them
are the same in every context. -/
def resolveArguments (home : ModuleId) (c : GenericContext) :
    List Signature → RegistryM (List TypeId × Bool)
  | [] => pure ([], true)
  | s :: rest => do
    let (t, fixed_) ← match ← resolveSignature home c s with
      | .fixed t => pure (t, true)
      | .dependent t => pure (t, false)
      | .unbound name => do pure (← makeParameter name, false)
    let (ts, restFixed) ← resolveArguments home c rest
    return (t :: ts, fixed_ && restFixed)

end

/-- The type of a signature, with a stand-in for a parameter that nothing binds. -/
def resolveType (home : ModuleId) (c : GenericContext) (s : Signature) : RegistryM TypeId := do
  match ← resolveSignature home c s with
  | .fixed t | .dependent t => return t
  | .unbound name => makeParameter name

/-- The types of several signatures, in order. -/
def resolveTypes (home : ModuleId) (c : GenericContext) (signatures : List Signature) :
    RegistryM (List TypeId) :=
  signatures.mapM (resolveType home c)

/-- The type of a type operand. -/
def resolveTypeToken (home : ModuleId) (token : Token) (c : GenericContext) : RegistryM TypeId := do
  let ref : Reference := ⟨home, token⟩
  match ← ask fun r => r.tokens.types[ref]? with
  | some t => return t
  | none =>
    let m ← lift (·.module home)
    let s ← lift fun _ => m.typeSignature token
    match ← resolveSignature home c s with
    | .fixed t =>
      modify fun r => { r with tokens := { r.tokens with types := r.tokens.types.insert ref t } }
      return t
    | .dependent t => return t
    | .unbound name => throw (.typeNotFound ("!" ++ name))

end Registry

end ManagedMachine
