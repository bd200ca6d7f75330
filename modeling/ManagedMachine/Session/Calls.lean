import ManagedMachine.Session.Basic

/-!
Steps that run code: calls, constructions, streams, prewarming, and the wrappers that an adaptor
keeps for objects of interpreted classes. A wrapper reaches the implementations of the interpreted
part of its object's class.
-/

set_option autoImplicit false
set_option relaxedAutoImplicit false

namespace ManagedMachine.Session

/-- A method by type, name, number of parameters and, if it is generic, type arguments. -/
structure MethodPath where
  type : String
  name : String
  count : Nat
  typeArgs : Option (List String)

namespace MethodPath

/-- The method that a path names. -/
def find (p : MethodPath) : SessionM MethodId := do
  let id ← bounded fun fuel => Domain.findMethod fuel p.type p.name p.count
  match p.typeArgs with
  | some args => within (Domain.instantiateMethod id args)
  | none => return id

end MethodPath

def resultAnswer : Option Value → SessionM Answer
  | some v => valued v
  | none => return text "void"

/-- A receiver, if a call has one. -/
def receiver (this : Option Literal) : SessionM (Option Value) := this.mapM value

/-! ### Calls -/

/-- Calls a method that is found by its name and the arguments. -/
def invoke (type name : String) (this : Option Literal) (args : List Literal) :
    SessionM Answer := do
  let args ← values args
  let this ← receiver this
  resultAnswer (← running fun c fuel => Domain.invokeByName c fuel type name this args)

def invokeGeneric (type name : String) (typeArgs : List String) (this : Option Literal)
    (args : List Literal) : SessionM Answer := do
  let args ← values args
  let this ← receiver this
  resultAnswer (← running fun c fuel => Domain.invokeGeneric c fuel type name typeArgs this args)

def invokeMethod (method : MethodPath) (this : Option Literal) (args : List Literal) :
    SessionM Answer := do
  let args ← values args
  let this ← receiver this
  let id ← method.find
  resultAnswer (← running fun c fuel => Domain.invoke c fuel id this args)

/-- A call that host code builds up step by step. -/
def stream (method : MethodPath) (calls : List StreamCall) : SessionM Answer := do
  let id ← method.find
  return plain (.list (← running fun c fuel => Stream.run c fuel id calls))

/-! ### Objects -/

/-- Keeps the wrapper of an object under a name, if the object has one. -/
def keepWrapper (name : Option String) (v : Value) : SessionM Unit := do
  match name, v with
  | some name, .object id =>
    match (← ask (·.heap)).object id with
    | .instance_ _ _ true => modify fun s => { s with wrappers := (name, ⟨id, []⟩) :: s.wrappers }
    | _ => pure ()
  | _, _ => pure ()

def instantiate (type : String) (args : List Literal) (wrapper : Option String) (discard : Bool) :
    SessionM Answer := do
  let args ← values args
  let v ← running fun c fuel => Domain.instantiate c fuel type args
  keepWrapper wrapper v
  if discard then return text "discarded" else valued v

/-- An object of the host type that stands for the data. -/
def wrap (data : SessionM HostData) : SessionM Answer := do
  let data ← data
  try valued (← within (Domain.wrap data))
  catch e =>
    match e with
    | .typeNotFound _ => return text "type not found"
    | e => throw e

/-- Prewarms a type, and tells how many tokens were resolved. -/
def prewarm (type : String) (methods : Option (List String)) (recursive : Bool) :
    SessionM Answer := do
  let count ← bounded fun fuel =>
    match methods with
    | some names => Domain.prewarmMethods fuel type names recursive
    | none => Domain.prewarm fuel type recursive
  return plain (.ofNat count)

/-! ### Wrappers -/

def wrapper (name : String) : SessionM Wrapper := do
  match (← get).wrappers.lookup name with
  | some w => return w
  | none => throw (.nullReceiver "no adaptor")

/-- What keeps objects: variables, numbered objects, cells and, with the domain, static fields. -/
def roots : SessionM (List ObjectId) := fun s =>
  let h := s.domain.host
  let statics := if s.isLive then s.domain.statics.toList.map Prod.snd else []
  let values := h.stored.map Prod.snd ++ h.cells.map Prod.snd ++
    statics.flatMap fun s => s.values.toList
  .ok (values.filterMap Value.object? ++ h.numbered.toList) s

/-- The object of a wrapper, as long as something keeps it. -/
def adapted (w : Wrapper) : SessionM ObjectId := do
  let roots ← roots
  if (← anyway (Domain.ask (·.heap))).isKept roots w.object then return w.object
  else throw (.nullReceiver "adapted instance")

/-- The implementation in the interpreted part of a class and its bases. -/
def implementation (fuel : Nat) (t : TypeId) (name : String) (count : Nat) :
    RegistryM (Option MethodId) :=
  Registry.walk (fun t => do
    if !(← Registry.ask fun r => (r.type t).isInterpreted) then return .stop
    else
      Registry.visitWith (fun t => do
        Registry.firstMethod (← Registry.methodsOf t) fun m =>
          m.name == name && m.params.length == count && m.flags.hasThis && !m.flags.abstract) t)
    fuel t

/-- The implementation of a member, which is found once for every wrapper. -/
def findMember (wrapperName name : String) (count : Nat) : SessionM (Option MethodId) := do
  let w ← wrapper wrapperName
  match w.members.lookup (name, count) with
  | some found => return found
  | none =>
    requireDomain
    let id ← adapted w
    let t ← ask fun d => d.heap.type id
    let found ← bounded fun fuel => implementation fuel t name count
    let w := { w with members := ((name, count), found) :: w.members }
    modify fun s => { s with wrappers := (wrapperName, w) :: s.wrappers }
    return found

def wrapperFind (wrapperName name : String) (count : Nat) : SessionM Answer := do
  let found ← findMember wrapperName name count
  let key ← anyway (Domain.ask fun d => found.map fun id => d.registry.key (d.registry.method id))
  return plain (.record [("found", .optionalText key), ("overridden", .flag found.isSome)])

def wrapperInvoke (wrapperName name : String) (args : List Literal) : SessionM Answer := do
  let args ← values args
  let id ← adapted (← wrapper wrapperName)
  match ← findMember wrapperName name args.length with
  | some method =>
    let result ← running fun c fuel => Domain.invoke c fuel method (some (.object id)) args
    let report ← match result with
      | some v => anyway (Domain.report v)
      | none => pure .null
    return plain (.record [("result", report)])
  | none => do
    let typeName ← anyway (Domain.ask fun d => (d.typeOf id).name)
    throw (.methodNotFound name typeName none)

def wrapperInstance (wrapperName : String) : SessionM Answer := do
  let id ← adapted (← wrapper wrapperName)
  return plain (← anyway (Domain.report (.object id)))

def wrapperDomain (wrapperName : String) : SessionM Answer := do
  let _ ← wrapper wrapperName
  requireDomain
  return plain (.flag true)

end ManagedMachine.Session
