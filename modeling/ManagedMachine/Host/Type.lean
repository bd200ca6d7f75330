import ManagedMachine.Host.Request
import ManagedMachine.Key
import ManagedMachine.Module.Rows

/-!
Types that the host offers to interpreted code. Members name the types they mention by full name and
carry the code that serves them. A struct may say how its data is copied and what its default is.
-/

set_option autoImplicit false
set_option relaxedAutoImplicit false

namespace ManagedMachine

/-- Reads a field; an instance field gets the receiver. -/
abbrev HostGetter := Option Value → HostProgram Value

/-- Writes a field; an instance field gets the receiver. -/
abbrev HostSetter := Option Value → Value → HostProgram Unit

/-- A call that reaches the code of a host method. -/
structure HostCall where
  /-- The key and the full name of the method. -/
  key : String
  fullName : String
  declaring : TypeId
  /-- The receiver, also when a constructor runs for an object that exists. -/
  receiver : Option Value
  args : List Value

namespace HostCall

def arg (c : HostCall) (i : Nat) : Except Error Value :=
  match c.args[i]? with
  | some v => .ok v
  | none => .error (.argumentCount (i + 1) c.args.length)

def this (c : HostCall) : Except Error Value :=
  match c.receiver with
  | some .null | none => .error (.nullReceiver c.fullName)
  | some v => .ok v

/-- A new object of the declaring type. -/
def construct (c : HostCall) (d : HostData) : DomainProgram Value :=
  Host.allocate (.native c.declaring d)

end HostCall

structure HostField where
  name : String
  type : String
  isStatic : Bool
  get : Option HostGetter
  set : Option HostSetter

structure HostMethod where
  name : String
  params : List String
  ret : String
  flags : MethodFlags
  generics : List String
  code : HostCall → DomainProgram Value

structure HostType where
  space : String
  name : String
  /-- The name of the host module that the type belongs to. -/
  moduleName : String
  kind : TypeKind
  primitive : Option Primitive
  base : Option String
  interfaces : List String
  generics : List String
  fields : List HostField
  methods : List HostMethod
  /-- The kind of data that objects of the type are made of. -/
  backing : Option HostKind
  copy : Option (HostData → Option HostData)
  default : Option HostData

namespace HostType

/-- A type without members. Classes derive from the object type, structs from the value type. -/
def plain (kind : TypeKind) (space name : String) : HostType where
  space
  name
  moduleName := ""
  kind
  primitive := none
  base := match kind with
    | .class_ => some "System.Object"
    | .struct => some "System.ValueType"
    | .interface => none
  interfaces := []
  generics := []
  fields := []
  methods := []
  backing := none
  copy := none
  default := none

def fullName (t : HostType) : String := qualifiedName t.space t.name

/-- The full name with the module behind it. -/
def scopedName (t : HostType) : String := t.fullName ++ ", " ++ t.moduleName

end HostType

structure HostModule where
  name : String
  types : List HostType

namespace HostModule

/-- A module of types, which from then on belong to it. -/
def ofTypes (name : String) (types : List HostType) : HostModule :=
  ⟨name, types.map fun t => { t with moduleName := name }⟩

/-- The latest type of a full name. -/
def find? (m : HostModule) (fullName : String) : Option HostType :=
  m.types.reverse.find? (·.fullName == fullName)

/-- The latest type that is backed by a kind of data. -/
def findBacked? (m : HostModule) (kind : HostKind) : Option HostType :=
  m.types.reverse.find? (·.backing == some kind)

end HostModule

namespace HostLibrary

/-- The type of a full name. The modules named by the scope are searched first, and then all. -/
def find? (modules : List HostModule) (fullName : String) (scope : Option String) :
    Option HostType :=
  let nearest := match scope with
    | some s => modules.filter (·.name == s)
    | none => []
  (nearest ++ modules).findSome? (·.find? fullName)

def findBacked? (modules : List HostModule) (kind : HostKind) : Option HostType :=
  modules.findSome? (·.findBacked? kind)

end HostLibrary

end ManagedMachine
