import ManagedMachine.Registry.Layouts
import ManagedMachine.Registry.Methods

/-!
Members by token. A token names a definition of its module, a member of some type by name, or a
generic method with arguments. It is resolved in the generic context of the code that uses it, and
what does not depend on that context is remembered under the token.
-/

set_option autoImplicit false
set_option relaxedAutoImplicit false

namespace ManagedMachine.Registry

/-- The type whose members a definition of its module means: inside an instantiation of an open
type, the instantiation. The answer says whether the context was needed. -/
def contextualOwner (t : TypeId) (c : GenericContext) (r : Registry) : TypeId × Bool :=
  if !(r.type t).isGenericDefinition then (t, false)
  else
    match c.type with
    | some instantiated =>
      if (r.type instantiated).definition = some t then (instantiated, true) else (t, true)
    | none => (t, true)

/-- A signature in one context, or in another one if it is a parameter unbound in the first. -/
def resolveInEither (home : ModuleId) (s : Signature) (primary fallback : GenericContext) :
    RegistryM TypeId := do
  match ← resolveSignature home primary s with
  | .fixed t | .dependent t => return t
  | .unbound _ => resolveType home fallback s

/-- Do the parameters of a reference stand for the given types? -/
def paramsAgree (home : ModuleId) (primary fallback : GenericContext) :
    List Signature → List TypeId → RegistryM Bool
  | s :: signatures, t :: types => do
    if (← resolveInEither home s primary fallback) = t then
      paramsAgree home primary fallback signatures types
    else return false
  | _, _ => return true

/-- The methods among the candidates that a reference fits, by name, shape and parameters. -/
def fitting (home : ModuleId) (ref : MethodRef) (c : GenericContext) :
    List MethodId → RegistryM (List MethodId)
  | [] => pure []
  | id :: rest => do
    let m ← ask (·.method id)
    let fits ←
      if m.name == ref.name && m.params.length == ref.params.length &&
          m.flags.hasThis == ref.hasThis && m.generics.length == ref.arity then
        paramsAgree home (.ofMethod m) c ref.params m.params
      else pure false
    let others ← fitting home ref c rest
    return if fits then id :: others else others

/-- The first of several fitting methods that returns what the reference says. -/
def byReturnType (home : ModuleId) (ref : MethodRef) (c : GenericContext) :
    List MethodId → RegistryM (Option MethodId)
  | [] => pure none
  | id :: rest => do
    let m ← ask (·.method id)
    if (← resolveInEither home ref.ret (.ofMethod m) c) = m.ret then return some id
    else byReturnType home ref c rest

/-- The method that a reference names on one type. -/
def findOn (home : ModuleId) (ref : MethodRef) (c : GenericContext) (t : TypeId) :
    RegistryM (Option MethodId) := do
  match ← fitting home ref c (← methodsOf t) with
  | [] => return none
  | [id] => return some id
  | id :: rest => return some ((← byReturnType home ref c (id :: rest)).getD id)

/-- The method that a reference names on a type or, unless it is a constructor, on its bases. -/
def findReferenced (fuel : Nat) (home : ModuleId) (ref : MethodRef) (c : GenericContext)
    (t : TypeId) : RegistryM (Option MethodId) :=
  walk (fun t => do
    match ← findOn home ref c t with
    | some id => return .found id
    | none => return if ref.isConstructor then .stop else .onward) fuel t

/-- The type that stands in for `declaring` in code of a type that derives from a host type with an
adaptor for both. -/
def adaptorCounterpart (fuel : Nat) (declaring : TypeId) (c : GenericContext) :
    RegistryM (Option TypeId) := do
  match c.type with
  | none => return none
  | some current =>
    match ← firstHostBase fuel current with
    | none => return none
    | some hostBase =>
      let r ← get
      match r.adaptors.find? (r.typeName hostBase) with
      | none => return none
      | some adaptor =>
        if adaptor.bases.contains (r.typeName declaring) then
          return some (← ofHostType adaptor.type)
        else return none

/-- A method by reference, and whether it depends on the context. The constructors of the object and
attribute types that take nothing have nothing to do. -/
def resolveMethodRef (fuel : Nat) (home : ModuleId) (token : Token) (ref : MethodRef)
    (c : GenericContext) : RegistryM (Option MethodId × Bool) := do
  let resolved ← resolveSignature home c ref.on
  match resolved with
  | .unbound name => throw (.typeNotFound ("!" ++ name))
  | .fixed declaring | .dependent declaring =>
    let name ← ask (·.typeName declaring)
    if ref.isConstructor && ref.params.isEmpty &&
        (name == CoreLibrary.objectName || name == CoreLibrary.attributeName) then
      return (none, false)
    else
      match ← findReferenced fuel home ref c declaring with
      | some id => return (some id, !resolved.isFixed)
      | none =>
        let counterpart ← match ← adaptorCounterpart fuel declaring c with
          | some t => findReferenced fuel home ref c t
          | none => pure none
        match counterpart with
        | some id => return (some id, true)
        | none => throw (.methodNotFound ref.name name (some token))

/-- A method by token, and whether it depends on the context. -/
def findMethodToken (home : ModuleId) (c : GenericContext) :
    (fuel : Nat) → Token → RegistryM (Option MethodId × Bool)
  | 0, _ => throw .outOfFuel
  | fuel + 1, token => do
    let m ← lift (·.module home)
    match token.table? with
    | some .methodDef =>
      let row ← lift fun _ => m.methodDef token
      let owner ← definedType home (Module.typeToken row.owner)
      let (declaring, dependent) ← ask (contextualOwner owner c)
      match (← methodsOf declaring)[row.position]? with
      | some id => return (some id, dependent)
      | none => throw (.invalidToken token)
    | some .memberRef =>
      match ← lift fun _ => m.memberRef token with
      | .method ref => resolveMethodRef fuel home token ref c
      | .field .. => throw (.invalidToken token)
    | some .methodSpec =>
      let spec ← lift fun _ => m.methodSpec token
      match ← findMethodToken home c fuel spec.method with
      | (none, dependent) => return (none, dependent)
      | (some generic, dependent) =>
        let (args, fixed_) ← resolveArguments home c spec.args
        return (some (← instantiateMethod generic args), dependent || !fixed_)
    | _ => throw (.invalidToken token)

/-- A method by token; `none` if the call has nothing to do. -/
def resolveMethod (fuel : Nat) (home : ModuleId) (token : Token) (c : GenericContext) :
    RegistryM (Option MethodId) := do
  let ref : Reference := ⟨home, token⟩
  match ← ask fun r => r.tokens.methods[ref]? with
  | some found => return found
  | none =>
    let (found, dependent) ← findMethodToken home c fuel token
    if !dependent then
      modify fun r =>
        { r with tokens := { r.tokens with methods := r.tokens.methods.insert ref found } }
    match found with
    | some id => modify fun r => { r with reached := r.reached.insert id () }
    | none => pure ()
    return found

/-- The type, the name and the kind of the field that a token names, and whether they depend on the
context. -/
def fieldOwner (home : ModuleId) (token : Token) (c : GenericContext) :
    RegistryM (TypeId × String × Option Bool × Bool) := do
  let m ← lift (·.module home)
  match token.table? with
  | some .field =>
    let row ← lift fun _ => m.fieldDef token
    let owner ← definedType home (Module.typeToken row.owner)
    let (declaring, dependent) ← ask (contextualOwner owner c)
    return (declaring, row.row.name, some row.row.isStatic, dependent)
  | some .memberRef =>
    match ← lift fun _ => m.memberRef token with
    | .method _ => throw (.invalidToken token)
    | .field on name =>
      let resolved ← resolveSignature home c on
      match resolved.type? with
      | some declaring => return (declaring, name, none, !resolved.isFixed)
      | none => throw (.typeNotFound on.text)
  | _ => throw (.invalidToken token)

/-- The field behind a token, remembered where no context decides it. -/
def resolveField (fuel : Nat) (home : ModuleId) (token : Token) (c : GenericContext) :
    RegistryM Field := do
  let ref : Reference := ⟨home, token⟩
  match ← ask fun r => r.tokens.fields[ref]? with
  | some field => return field
  | none =>
    let (declaring, name, isStatic, dependent) ← fieldOwner home token c
    let field ← findField fuel declaring name isStatic
    if !dependent then
      modify fun r =>
        { r with tokens := { r.tokens with fields := r.tokens.fields.insert ref field } }
    return field

/-- The text of a string literal, which is interned. -/
def resolveString (home : ModuleId) (token : Token) : RegistryM String := do
  let ref : Reference := ⟨home, token⟩
  let r ← get
  match (r.tokens.strings[ref]?).bind r.strings.get? with
  | some literal => return literal
  | none =>
    let m ← lift (·.module home)
    let literal ← lift fun _ => m.userString token
    let (key, strings) := r.strings.intern literal
    set { r with
      strings
      tokens := { r.tokens with strings := r.tokens.strings.insert ref key } }
    return (strings.get? key).getD literal

end ManagedMachine.Registry
