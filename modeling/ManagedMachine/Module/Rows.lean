import ManagedMachine.Body

/-!
The rows of a module: definitions of types, fields and methods, and references to members. The row
of a type holds the rows of its fields and of its methods. Types appear in rows as signatures, which
mean something only together with the module.
-/

set_option autoImplicit false
set_option relaxedAutoImplicit false

namespace ManagedMachine

/-- The name of every instance constructor. -/
def constructorName : String := ".ctor"

/-- The name of every type initializer. -/
def initializerName : String := ".cctor"

/-- What is marked on a type. -/
structure TypeFlags where
  valueType : Bool
  interface : Bool
  abstract : Bool
  sealed : Bool
  deriving DecidableEq, Inhabited

namespace TypeFlags

def none : TypeFlags := ⟨false, false, false, false⟩

/-- Bits that no flag has are dropped. -/
def ofBits (bits : Nat) : TypeFlags :=
  ⟨bits.testBit 0, bits.testBit 1, bits.testBit 2, bits.testBit 3⟩

def bits (f : TypeFlags) : Nat :=
  f.valueType.toNat + 2 * f.interface.toNat + 4 * f.abstract.toNat + 8 * f.sealed.toNat

@[simp] theorem ofBits_bits (f : TypeFlags) : ofBits f.bits = f := by
  obtain ⟨a, b, c, d⟩ := f
  cases a <;> cases b <;> cases c <;> cases d <;> rfl

end TypeFlags

/-- What is marked on a method. -/
structure MethodFlags where
  hasThis : Bool
  constructor : Bool
  typeInitializer : Bool
  virtual : Bool
  abstract : Bool
  deriving DecidableEq, Inhabited

namespace MethodFlags

def none : MethodFlags := ⟨false, false, false, false, false⟩

def ofBits (bits : Nat) : MethodFlags :=
  ⟨bits.testBit 0, bits.testBit 1, bits.testBit 2, bits.testBit 3, bits.testBit 4⟩

def bits (f : MethodFlags) : Nat :=
  f.hasThis.toNat + 2 * f.constructor.toNat + 4 * f.typeInitializer.toNat + 8 * f.virtual.toNat +
    16 * f.abstract.toNat

@[simp] theorem ofBits_bits (f : MethodFlags) : ofBits f.bits = f := by
  obtain ⟨a, b, c, d, e⟩ := f
  cases a <;> cases b <;> cases c <;> cases d <;> cases e <;> rfl

end MethodFlags

/-- What a definition is made as; the flags of a kind are where a definition starts. -/
inductive TypeKind where
  | class_
  | struct
  | interface
  deriving DecidableEq

def TypeKind.flags : TypeKind → TypeFlags
  | .class_ => .none
  | .struct => { TypeFlags.none with valueType := true, sealed := true }
  | .interface => { TypeFlags.none with interface := true, abstract := true }

/-- The combinations of marks that methods are given. -/
inductive MethodKind where
  | constructor
  | typeInitializer
  | static
  | instance_
  | virtual
  | abstract
  deriving DecidableEq

def MethodKind.flags : MethodKind → MethodFlags
  | .constructor => { MethodFlags.none with hasThis := true, constructor := true }
  | .typeInitializer => { MethodFlags.none with typeInitializer := true }
  | .static => .none
  | .instance_ => { MethodFlags.none with hasThis := true }
  | .virtual => { MethodFlags.none with hasThis := true, virtual := true }
  | .abstract => { MethodFlags.none with hasThis := true, virtual := true, abstract := true }

/-- A field as its module defines it. -/
structure FieldDef where
  name : String
  type : Signature
  isStatic : Bool
  deriving Inhabited

/-- A method as its module defines it; without a body it is abstract or bound to host code. -/
structure MethodDef where
  name : String
  flags : MethodFlags
  params : List Signature
  ret : Signature
  generics : List String
  body : Option Body
  deriving Inhabited

/-- A type as its module defines it. -/
structure TypeDef where
  space : String
  name : String
  flags : TypeFlags
  extends_ : Option Signature
  implements : List Signature
  generics : List String
  /-- The fields of the type, in order; a module adds them one by one. -/
  fields : Array FieldDef := #[]
  /-- The methods of the type, in order; a module adds them one by one. -/
  methods : Array MethodDef := #[]
  deriving Inhabited

/-- A name in a namespace; the empty namespace leaves the name alone. -/
def qualifiedName (space name : String) : String :=
  if space.isEmpty then name else space ++ "." ++ name

def TypeDef.fullName (t : TypeDef) : String := qualifiedName t.space t.name

/-- A method named by type, name and signature, whichever module defines it. -/
structure MethodRef where
  on : Signature
  name : String
  params : List Signature
  ret : Signature
  hasThis : Bool
  arity : Nat
  deriving Inhabited

def MethodRef.isConstructor (r : MethodRef) : Bool := r.name == constructorName

/-- A member of a type that may be another module's. -/
inductive MemberRef where
  | method (ref : MethodRef)
  | field (on : Signature) (name : String)
  deriving Inhabited

/-- A generic method with its type arguments. -/
structure MethodSpec where
  method : Token
  args : List Signature
  deriving Inhabited

end ManagedMachine
