import ManagedMachine.Host.CoreLibrary
import ManagedMachine.Module.Basic

/-!
Resolved types, fields and methods. A descriptor names the types it is built from by their position
in the registry, so two descriptors are the same type exactly when they have the same position.
-/

set_option autoImplicit false
set_option relaxedAutoImplicit false

namespace ManagedMachine

/-- Position of a module among the loaded modules. -/
structure ModuleId where
  index : Nat
  deriving DecidableEq, Hashable, Inhabited

def ModuleId.text (id : ModuleId) : String := s!"module#{id.index}"

/-- Position of a method among the resolved methods. -/
structure MethodId where
  index : Nat
  deriving DecidableEq, Hashable, Inhabited

/-- A loaded module with its identity. -/
structure Home where
  id : ModuleId
  content : Module

/-- A generic parameter with the type it stands for. -/
structure Binding where
  name : String
  type : TypeId
  deriving DecidableEq

def Binding.find? (bindings : List Binding) (name : String) : Option TypeId :=
  (bindings.find? (·.name == name)).map Binding.type

/-- What a type is made of. -/
inductive Shape where
  | interpreted (home : Home) (token : Token)
  | native (type : HostType)
  | array (element : TypeId) (rank : UInt8)
  | byRef (element : TypeId)
  /-- Stands for a generic parameter that nothing binds. -/
  | parameter

/-- A type as the registry holds it. Where it comes from is its shape. -/
structure Descriptor where
  name : String
  shape : Shape
  args : List Binding
  /-- The open type of an instantiation. -/
  definition : Option TypeId

instance : Inhabited Descriptor := ⟨⟨"", .parameter, [], none⟩⟩

namespace Descriptor

/-- The definition behind an interpreted type. -/
def typeDef? (d : Descriptor) : Option TypeDef :=
  match d.shape with
  | .interpreted home token => (home.content.typeDef token).toOption
  | _ => none

def native? (d : Descriptor) : Option HostType :=
  match d.shape with
  | .native type => some type
  | _ => none

def isInterpreted (d : Descriptor) : Bool :=
  match d.shape with
  | .interpreted .. => true
  | _ => false

def isNative (d : Descriptor) : Bool := d.native?.isSome

def isArray (d : Descriptor) : Bool :=
  match d.shape with
  | .array .. => true
  | _ => false

def isByRef (d : Descriptor) : Bool :=
  match d.shape with
  | .byRef _ => true
  | _ => false

def isParameter (d : Descriptor) : Bool :=
  match d.shape with
  | .parameter => true
  | _ => false

def element? (d : Descriptor) : Option TypeId :=
  match d.shape with
  | .array element _ => some element
  | .byRef element => some element
  | _ => none

/-- Is the type a value type? Primitives are. -/
def isStruct (d : Descriptor) : Bool :=
  match d.native? with
  | some type => type.kind == .struct
  | none => (d.typeDef?.map (·.flags.valueType)).getD false

def isInterface (d : Descriptor) : Bool :=
  match d.native? with
  | some type => type.kind == .interface
  | none => (d.typeDef?.map (·.flags.interface)).getD false

def primitive? (d : Descriptor) : Option Primitive := d.native?.bind HostType.primitive

def isVoid (d : Descriptor) : Bool := d.primitive? == some .void

/-- The names of the generic parameters of the type, or of the open type of an instantiation. -/
def generics (d : Descriptor) : List String :=
  match d.native? with
  | some type => type.generics
  | none => (d.typeDef?.map TypeDef.generics).getD []

def isGenericDefinition (d : Descriptor) : Bool := d.args.isEmpty && !d.generics.isEmpty

end Descriptor

/-- A field of a resolved type. -/
structure Field where
  declaring : TypeId
  name : String
  /-- The slot of the field among the instance fields or among the statics. -/
  index : Nat
  isStatic : Bool
  type : TypeId
  native : Option HostField

/-- The fields of a type. Instance fields of an interpreted type start with those of its interpreted
base type; statics are those that the type declares itself. -/
structure FieldLayout where
  instance_ : List Field
  statics : List Field

namespace FieldLayout

def empty : FieldLayout := ⟨[], []⟩

/-- The latest instance field of a name. -/
def find? (l : FieldLayout) (name : String) : Option Field :=
  l.instance_.reverse.find? (·.name == name)

def findStatic? (l : FieldLayout) (name : String) : Option Field :=
  l.statics.find? (·.name == name)

end FieldLayout

/-- Where a method comes from, with what runs when it is called. -/
inductive MethodOrigin where
  | interpreted (home : Home) (token : Token) (body : Option Body)
  | native (method : HostMethod)

/-- A method as the registry holds it, with its types resolved. -/
structure Method where
  name : String
  declaring : TypeId
  flags : MethodFlags
  /-- The parameter types, without the receiver. -/
  params : List TypeId
  ret : TypeId
  generics : List String
  args : List Binding
  /-- The generic method of an instantiation. -/
  definition : Option MethodId
  origin : MethodOrigin

namespace Method

/-- The number of stack arguments; a receiver counts. -/
def argCount (m : Method) : Nat := m.params.length + m.flags.hasThis.toNat

def isGenericDefinition (m : Method) : Bool := !m.generics.isEmpty && m.args.isEmpty

def body? (m : Method) : Option Body :=
  match m.origin with
  | .interpreted _ _ body => body
  | .native _ => none

def home? (m : Method) : Option (Home × Token) :=
  match m.origin with
  | .interpreted home token _ => some (home, token)
  | .native _ => none

def native? (m : Method) : Option HostMethod :=
  match m.origin with
  | .native method => some method
  | .interpreted .. => none

/-- The same name and the same parameter types; neither arity nor result is compared. -/
def sameSignature (m other : Method) : Bool := m.name == other.name && m.params == other.params

end Method

instance : Inhabited Method :=
  ⟨⟨"", ⟨0⟩, .none, [], ⟨0⟩, [], [], none, .interpreted ⟨⟨0⟩, .empty ""⟩ ⟨0⟩ none⟩⟩

end ManagedMachine
