import ManagedMachine.Registry.Hierarchy

/-!
Methods of types. The methods of an instantiated type are those of its open type with the arguments
filled in; the parameters of a generic method itself stay open until it is instantiated.
-/

set_option autoImplicit false
set_option relaxedAutoImplicit false

namespace ManagedMachine.Registry

/-- A type that the signature of a host method names: an argument of the declaring type or of the
method, a parameter of either, or a type by name. -/
def hostSignature (declaring : TypeId) (type : HostType) (params : List String)
    (args : List Binding) (name : String) : RegistryM TypeId := do
  let bound ← ask fun r => Binding.find? (r.type declaring).args name <|> Binding.find? args name
  match bound with
  | some t => return t
  | none =>
    if type.generics.contains name || params.contains name then makeParameter name
    else
      match TypeName.parse? name with
      | none => throw (.typeNotFound name)
      | some parsed =>
        if parsed.isSimple then resolveIn name (some type.moduleName) else resolve name

/-- Describes the methods of a definition in their order. -/
def addDefinedMethods (home : Home) (t : TypeId) : List (Token × MethodDef) →
    RegistryM (List MethodId)
  | [] => pure []
  | (token, def_) :: rest => do
    let params ← resolveTypes home.id (.ofType t) def_.params
    let ret ← resolveType home.id (.ofType t) def_.ret
    let id ← addMethod ⟨def_.name, t, def_.flags, params, ret, def_.generics, [], none,
      .interpreted home token def_.body⟩
    return id :: (← addDefinedMethods home t rest)

/-- Describes the methods of a host type in their order. -/
def addHostMethods (type : HostType) (t : TypeId) : List HostMethod → RegistryM (List MethodId)
  | [] => pure []
  | m :: rest => do
    let params ← m.params.mapM (hostSignature t type m.generics [])
    let ret ← hostSignature t type m.generics [] m.ret
    let id ← addMethod ⟨m.name, t, m.flags, params, ret, m.generics, [], none, .native m⟩
    return id :: (← addHostMethods type t rest)

/-- The methods that a type declares, in order. -/
def methodsOf (t : TypeId) : RegistryM (List MethodId) := do
  match ← ask fun r => r.facts.methods[t]? with
  | some found => return found
  | none =>
    let found ← match (← ask (·.type t)).shape with
      | .interpreted home token => do
        let rows ← lift fun _ => home.content.methodsOf token
        addDefinedMethods home t rows
      | .native type => addHostMethods type t type.methods
      | _ => pure []
    modify fun r => { r with facts := { r.facts with methods := r.facts.methods.insert t found } }
    return found

/-- The parameter and return types of a generic method with arguments. -/
def instanceSignature (m : Method) (args : List Binding) : RegistryM (List TypeId × TypeId) := do
  match m.origin with
  | .interpreted home token _ =>
    let row ← lift fun _ => home.content.methodDef token
    let c : GenericContext := ⟨some m.declaring, args⟩
    let params ← resolveTypes home.id c row.row.params
    return (params, ← resolveType home.id c row.row.ret)
  | .native host =>
    match (← ask (·.type m.declaring)).native? with
    | none => throw (.typeNotFound (← ask (·.typeName m.declaring)))
    | some type =>
      let resolveOne := hostSignature m.declaring type host.generics args
      let params ← host.params.mapM resolveOne
      return (params, ← resolveOne host.ret)

/-- The instantiation of a generic method; an instantiation counts as its open method. -/
def instantiateMethod (id : MethodId) (args : List TypeId) : RegistryM MethodId := do
  let r ← get
  let definition := (r.method id).definition.getD id
  let m := r.method definition
  if m.generics.length ≠ args.length then
    throw (.genericArity (r.fullName m) m.generics.length args.length)
  else
    let key := (definition, String.intercalate "," (args.map r.typeName))
    match r.facts.instances[key]? with
    | some found => return found
    | none =>
      let bindings := (m.generics.zip args).map fun (name, type) => Binding.mk name type
      let (params, ret) ← instanceSignature m bindings
      let made ← addMethod { m with params, ret, args := bindings, definition := some definition }
      modify fun r =>
        { r with facts := { r.facts with instances := r.facts.instances.insertIfNew key made } }
      ask fun r => (r.facts.instances[key]?).getD made

/-- The first of the methods that has a property. -/
def firstMethod (methods : List MethodId) (p : Method → Bool) : RegistryM (Option MethodId) :=
  ask fun r => methods.find? fun id => p (r.method id)

/-- The first method of a name and number of parameters on a type or its bases. -/
def findMethod (fuel : Nat) (t : TypeId) (name : String) (count : Nat) :
    RegistryM (Option MethodId) :=
  walk (visitWith fun t => do
    firstMethod (← methodsOf t) fun m => m.name == name && m.params.length == count) fuel t

/-- The constructors among the methods of a type. -/
def constructors (t : TypeId) : RegistryM (List MethodId) := do
  let found ← methodsOf t
  ask fun r => found.filter fun id => (r.method id).flags.constructor

/-- The initializer of a type, if it has one. -/
def typeInitializer (t : TypeId) : RegistryM (Option MethodId) := do
  firstMethod (← methodsOf t) fun m => m.flags.typeInitializer

/-- The implementation of a virtual method for a receiver: the first one on the way from the type of
the receiver up to the type that declares the method, or else the method itself. -/
def findOverride (fuel : Nat) (receiver : TypeId) (id : MethodId) : RegistryM MethodId := do
  let m ← ask (·.method id)
  if !m.flags.virtual then return id
  else
    let found ← walk (fun t => do
      if t = m.declaring then return .stop
      else
        visitWith (fun t => do
          firstMethod (← methodsOf t) fun candidate =>
            candidate.flags.virtual && !candidate.flags.abstract && candidate.sameSignature m) t)
      fuel receiver
    return found.getD id

/-- The types of the locals of an interpreted method. -/
def localsOf (id : MethodId) : RegistryM (List TypeId) := do
  let r ← get
  match r.facts.locals[id]? with
  | some types => return types
  | none =>
    let m := r.method id
    match m.body?, m.home? with
    | some body, some (home, _) =>
      let types ← resolveTypes home.id (.ofMethod m) body.locals
      modify fun r => { r with facts := { r.facts with locals := r.facts.locals.insert id types } }
      return types
    | _, _ => throw (.missingBody (r.fullName m))

end ManagedMachine.Registry
