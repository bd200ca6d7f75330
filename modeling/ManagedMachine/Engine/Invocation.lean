import ManagedMachine.Engine.Calls

/-!
Calls and constructions that the host starts with values. The arguments are checked against the
parameter types before an interpreter is borrowed, and the interpreter is given back whatever
becomes of the call.
-/

set_option autoImplicit false
set_option relaxedAutoImplicit false

namespace ManagedMachine.Domain

/-- Runs on a borrowed interpreter. -/
def withInterpreter {α : Type} (x : RunM α) : DomainM α := do
  let i ← acquire
  fun d =>
    match x ⟨d, i⟩ with
    | .ok a ⟨d, i⟩ => (do release i; return a : DomainM α) d
    | .error e ⟨d, i⟩ => (do release i; throw e : DomainM α) d

/-- Whether the value is a box of this primitive type. -/
def isObjectOf (p : Primitive) (v : Value) (d : Domain) : Bool :=
  match v with
  | .object id => (d.typeOf id).primitive? == some p
  | _ => false

/-- May a value be passed as a number of a primitive type? -/
def fitsPrimitive (p : Primitive) : Value → DomainM Bool
  | .bool _ => return p == .boolean
  | .int32 _ => return p.slotKind == .int32
  | .int64 _ => return p.slotKind == .int64
  | .single _ => return p == .single
  | .double _ => return p == .double
  | v => ask (isObjectOf p v)

/-- May a value be passed where a type is expected? -/
def fits (fuel : Nat) (v : Value) (t : TypeId) : DomainM Bool := do
  let expected ← ask fun d => d.registry.type t
  if expected.isByRef then return false
  else if expected.isParameter then return true
  else
    match expected.primitive? with
    | some p => fitsPrimitive p v
    | none =>
      match ← typeOfValue v with
      | none => return !expected.isStruct
      | some source => Registry.isAssignable fuel source t

/-- All arguments fit their parameters, or the first that does not is named. -/
def checkArguments (fuel : Nat) (args : List Value) (params : List TypeId) : DomainM Unit :=
  (args.zip params).zipIdx.forM fun ((v, t), i) => do
    if ← fits fuel v t then pure ()
    else throw (.argumentType i (← ask fun d => d.registry.typeName t))

/-- The receiver of a call, which only instance methods have. -/
def checkReceiver (m : Method) (receiver : Option Value) : DomainM (Option Value) :=
  if !m.flags.hasThis then return none
  else
    match receiver with
    | some .null | none => do throw (.nullReceiver (← ask fun d => d.registry.fullName m))
    | some v => return some v

/-- Calls a method; a virtual one is chosen by the type of the receiver. -/
def invoke (c : Callees) (fuel : Nat) (id : MethodId) (receiver : Option Value)
    (args : List Value) : DomainM (Option Value) := do
  let m ← ask fun d => d.registry.method id
  if args.length ≠ m.params.length then throw (.argumentCount m.params.length args.length)
  let receiver ← checkReceiver m receiver
  checkArguments fuel args m.params
  let target ← match receiver with
    | some (.object object) =>
      if m.flags.virtual then do
        Registry.findOverride fuel (← ask fun d => d.heap.type object) id
      else pure id
    | _ => pure id
  let m ← ask fun d => d.registry.method target
  withInterpreter do
    if !m.flags.hasThis then Engine.ensureInitialized c fuel m.declaring
    Engine.invokeHost c fuel target receiver args

/-- The method of a name and number of parameters on a type or its bases. -/
def findMethod (fuel : Nat) (typeName name : String) (count : Nat) : DomainM MethodId := do
  let t ← Registry.resolve typeName
  match ← Registry.findMethod fuel t name count with
  | some id => return id
  | none => throw (.methodNotFound name typeName none)

/-- A call by the name of the method, with as many parameters as there are arguments. -/
def invokeByName (c : Callees) (fuel : Nat) (typeName name : String) (receiver : Option Value)
    (args : List Value) : DomainM (Option Value) := do
  invoke c fuel (← findMethod fuel typeName name args.length) receiver args

/-- The instantiation of a generic method with types by name. -/
def instantiateMethod (id : MethodId) (typeArgs : List String) : DomainM MethodId := do
  let args ← typeArgs.mapM fun name => (Registry.resolve name : DomainM TypeId)
  Registry.instantiateMethod id args

/-- The same of a generic method, with its type arguments. -/
def invokeGeneric (c : Callees) (fuel : Nat) (typeName name : String) (typeArgs : List String)
    (receiver : Option Value) (args : List Value) : DomainM (Option Value) := do
  let definition ← findMethod fuel typeName name args.length
  invoke c fuel (← instantiateMethod definition typeArgs) receiver args

/-- Makes an object with the first constructor that takes as many arguments. A struct needs none to
be made without arguments. -/
def instantiate (c : Callees) (fuel : Nat) (typeName : String) (args : List Value) :
    DomainM Value := do
  let t ← Registry.resolve typeName
  let candidates ← Registry.constructors t
  match ← Registry.firstMethod candidates fun m => m.params.length == args.length with
  | some id =>
    let m ← ask fun d => d.registry.method id
    checkArguments fuel args m.params
    withInterpreter (Engine.constructHost c fuel id args)
  | none =>
    if args.isEmpty && (← ask fun d => (d.registry.type t).isStruct) then defaultValue fuel t
    else throw (.methodNotFound constructorName typeName none)

/-- Makes an object of the host type that is backed by the kind of the data. -/
def wrap (data : HostData) : DomainM Value := do
  let t ← Registry.typeOfData data.kind
  newObject (.native t data)

end ManagedMachine.Domain
