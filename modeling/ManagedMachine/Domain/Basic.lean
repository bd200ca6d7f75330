import ManagedMachine.Bindings
import ManagedMachine.Config
import ManagedMachine.Pool
import ManagedMachine.Registry.Members

/-!
The state of a domain: its registry, its heap, the static fields of its types, the bindings, the
pool of interpreters, and the host around it. The parts are separate, so an operation on one of them
leaves the others as they are.
-/

set_option autoImplicit false
set_option relaxedAutoImplicit false

namespace ManagedMachine

/-- How far the type initializer of a type has come. -/
inductive InitState where
  | untouched
  | running
  | done
  deriving DecidableEq

/-- The static fields of a type. -/
structure Statics where
  values : Array Value
  state : InitState

/-- What an attached debugger is told. -/
inductive Event where
  | moduleLoaded (id : ModuleId) (name : String)
  | started (interpreter : Nat)
  | stopped (interpreter : Nat)
  | breakpoint (interpreter : Nat) (trace : List TraceEntry) (suspended : Bool)

/-- The host around a domain: named cells that host code shares, the values and objects that the
host holds on to, and a log. -/
structure HostWorld where
  cells : List (String × Value)
  stored : List (String × Value)
  /-- Objects that reports have mentioned; the position of an object is its number. -/
  numbered : Array ObjectId
  log : Array Report

/-- An execution domain: types, objects, statics, bindings and interpreters. -/
structure Domain where
  config : Config
  registry : Registry
  heap : Heap
  statics : Std.HashMap TypeId Statics
  /-- The methods whose bodies were resolved ahead of time, with the types that they reach. -/
  prewarmed : Std.HashMap MethodId (List TypeId)
  bindings : Bindings
  pool : Pool
  host : HostWorld
  /-- The events for an attached debugger, if one is attached. -/
  events : Option (Array Event)

/-- Work on a domain, which may fail half way. -/
abbrev DomainM := EStateM Error Domain

def HostWorld.empty : HostWorld := ⟨[], [], #[], #[]⟩

namespace Domain

/-- A new domain, with nothing but the core library. -/
def make (config : Config) (debug : Bool) : Domain where
  config
  registry := .empty
  heap := .empty
  statics := {}
  prewarmed := {}
  bindings := .empty
  pool := .empty config.stackCapacity
  host := .empty
  events := if debug then some #[] else none

instance : Inhabited Domain := ⟨make .standard false⟩

/-! ### Working on a part -/

def ask {α : Type} (query : Domain → α) : DomainM α := fun d => .ok (query d) d

/-- Work on the registry of the domain. -/
def inRegistry {α : Type} (x : RegistryM α) : DomainM α := fun
  | ⟨config, registry, heap, statics, prewarmed, bindings, pool, host, events⟩ =>
    match x registry with
    | .ok a registry =>
      .ok a ⟨config, registry, heap, statics, prewarmed, bindings, pool, host, events⟩
    | .error e registry =>
      .error e ⟨config, registry, heap, statics, prewarmed, bindings, pool, host, events⟩

/-- Work on the bindings of the domain. -/
def inBindings {α : Type} (x : BindingsM α) : DomainM α := fun d =>
  match x d.bindings with
  | .ok a bindings => .ok a { d with bindings }
  | .error e bindings => .error e { d with bindings }

def ofExcept {α : Type} : Except Error α → DomainM α
  | .ok a => pure a
  | .error e => throw e

instance : MonadLift RegistryM DomainM := ⟨inRegistry⟩

/-- The type of an object, as it is described. -/
def typeOf (d : Domain) (id : ObjectId) : Descriptor := d.registry.type (d.heap.type id)

/-- Tells an attached debugger of an event. -/
def record (e : Event) : DomainM Unit :=
  modify fun d => { d with events := d.events.map (·.push e) }

/-! ### Interpreters -/

/-- Borrows an interpreter from the pool, and makes one if none is idle. -/
def acquire : DomainM Interpreter := do
  let d ← get
  let (i, pool) := d.pool.acquire
  set { d with pool }
  record (.started i.id)
  return i

/-- Gives an interpreter back. -/
def release (i : Interpreter) : DomainM Unit := do
  modify fun d => { d with pool := d.pool.release i }
  record (.stopped i.id)

/-! ### Texts -/

/-- The name of the type of a value, as exceptions show it. -/
def raisedTypeName (d : Domain) : Value → String
  | .object id => (d.typeOf id).name
  | .string _ => CoreLibrary.stringName
  | _ => "null"

/-- The message of an exception, if the object has one. -/
def raisedMessage? (d : Domain) (v : Value) : Option String := v.object?.bind d.heap.message?

/-- A raised value as text: its type, and its message if it has one. -/
def describeRaised (d : Domain) (v : Value) : String :=
  match d.raisedMessage? v with
  | some message => s!"{d.raisedTypeName v}: {message}"
  | none => d.raisedTypeName v

/-- How a value is named in messages. -/
def describe (d : Domain) (v : Value) : String := v.describe fun id => (d.typeOf id).name

/-- The text of an error, with the exceptions in it described. -/
def message (d : Domain) (e : Error) : String := e.message d.describeRaised

/-- An object with what it holds, in a diagnostic. -/
def describeObject (d : Domain) (id : ObjectId) : String :=
  let values (vs : Array Value) : String := String.intercalate ", " (vs.toList.map d.describe)
  let inside := match d.heap.object id with
    | .instance_ _ fields _ => "fields: [" ++ values fields ++ "]"
    | .array _ items => "items: [" ++ values items ++ "]"
    | .native .. => ".."
  (d.typeOf id).name ++ " \x7b " ++ inside ++ " \x7d"

end Domain

end ManagedMachine
