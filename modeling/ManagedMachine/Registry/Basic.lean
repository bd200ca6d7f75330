import ManagedMachine.Adaptor
import ManagedMachine.Descriptor
import ManagedMachine.Intern
import Std.Data.HashMap

/-!
The registry of a domain: every type descriptor, loaded module and resolved method, and what has
been found out about them. Descriptors and methods are only ever added, so their positions identify
them for good. Facts that follow from a descriptor are worked out on first use and kept.
-/

set_option autoImplicit false
set_option relaxedAutoImplicit false

namespace ManagedMachine

/-- A token of a loaded module. -/
structure Reference where
  module : ModuleId
  token : Token
  deriving DecidableEq, Hashable

/-- What tokens were resolved to, where that does not depend on generic arguments. -/
structure TokenTable where
  types : Std.HashMap Reference TypeId
  /-- `none` stands for a call that has nothing to do. -/
  methods : Std.HashMap Reference (Option MethodId)
  fields : Std.HashMap Reference Field
  strings : Std.HashMap Reference UInt64

/-- What follows from a descriptor or method, once it has been asked for. -/
structure FactTable where
  bases : Std.HashMap TypeId (Option TypeId)
  interfaces : Std.HashMap TypeId (List TypeId)
  layouts : Std.HashMap TypeId FieldLayout
  methods : Std.HashMap TypeId (List MethodId)
  /-- The instantiations of a generic method, by the names of the arguments. -/
  instances : Std.HashMap (MethodId × String) MethodId
  locals : Std.HashMap MethodId (List TypeId)

/-- All types and methods of a domain, with the tables that find them. -/
structure Registry where
  types : Array Descriptor
  /-- Types by name, and by every other spelling under which they were resolved. -/
  names : Std.HashMap String TypeId
  /-- Host types by name and module. -/
  scoped_ : Std.HashMap String TypeId
  /-- Host types by the data behind them. -/
  backed : Std.HashMap HostKind TypeId
  modules : Array Module
  versions : Std.HashMap Nat ModuleId
  definitions : Std.HashMap Reference TypeId
  host : Array HostModule
  adaptors : AdaptorTable
  methods : Array Method
  /-- The methods that some token was resolved to. -/
  reached : Std.HashMap MethodId Unit
  tokens : TokenTable
  facts : FactTable
  strings : InternTable

/-- Registry operations keep what they added before they failed. -/
abbrev RegistryM := EStateM Error Registry

namespace Registry

def empty : Registry where
  types := #[]
  names := {}
  scoped_ := {}
  backed := {}
  modules := #[]
  versions := {}
  definitions := {}
  host := #[CoreLibrary.library]
  adaptors := .empty
  methods := #[]
  reached := {}
  tokens := ⟨{}, {}, {}, {}⟩
  facts := ⟨{}, {}, {}, {}, {}, {}⟩
  strings := .empty fnv1a

instance : Inhabited Registry := ⟨empty⟩

/-! ### Looking up -/

def type (r : Registry) (t : TypeId) : Descriptor := r.types.getD t.index default

/-- The full name of a type. -/
def typeName (r : Registry) (t : TypeId) : String := (r.type t).name

def method (r : Registry) (m : MethodId) : Method := r.methods.getD m.index default

/-- The type at a place of the registry, if there is one. -/
def typeAt (r : Registry) (index : Nat) : Except Error TypeId :=
  if index < r.types.size then .ok ⟨index⟩ else .error (.stack (.unknownType index))

/-- The module of this identity, if it is loaded. -/
def module (r : Registry) (id : ModuleId) : Except Error Module :=
  match r.modules[id.index]? with
  | some m => .ok m
  | none => .error (.malformed (.unknownModule id.text))

def fullName (r : Registry) (m : Method) : String := memberName (r.typeName m.declaring) m.name

/-- How a method is named where overloads are told apart. -/
def key (r : Registry) (m : Method) : String :=
  methodKey (r.typeName m.declaring) m.name (m.params.map r.typeName)

def fieldKey (r : Registry) (f : Field) : String := memberName (r.typeName f.declaring) f.name

/-- Does a generic parameter stand anywhere in the type? Types are built from earlier ones, so the
position of the type bounds the depth. -/
def isOpenWithin (r : Registry) : (depth : Nat) → TypeId → Bool
  | 0, _ => false
  | depth + 1, t =>
    let d := r.type t
    match d.shape with
    | .parameter => true
    | .array element _ => r.isOpenWithin depth element
    | .byRef element => r.isOpenWithin depth element
    | _ => d.args.any fun b => r.isOpenWithin depth b.type

/-- Whether a generic parameter is left anywhere in the type. -/
def isOpen (r : Registry) (t : TypeId) : Bool := r.isOpenWithin (t.index + 1) t

/-- The module in whose scope the names that a type mentions are looked up. -/
def scopeWithin (r : Registry) : (depth : Nat) → TypeId → Option String
  | 0, _ => none
  | depth + 1, t =>
    match (r.type t).shape with
    | .interpreted home _ => some home.content.name
    | .native type => some type.moduleName
    | .array element _ => r.scopeWithin depth element
    | .byRef element => r.scopeWithin depth element
    | .parameter => none

def scope (r : Registry) (t : TypeId) : Option String := r.scopeWithin (t.index + 1) t

/-! ### Adding types -/

/-- Reads the registry. -/
def ask {α : Type} (query : Registry → α) : RegistryM α := fun r => .ok (query r) r

/-- Reads the registry, with a question that can fail. -/
def lift {α : Type} (query : Registry → Except Error α) : RegistryM α := fun r =>
  match query r with
  | .ok a => .ok a r
  | .error e => .error e r

/-- Adds a descriptor, without a name. -/
def addType (d : Descriptor) : RegistryM TypeId := fun r =>
  .ok ⟨r.types.size⟩ { r with types := r.types.push d }

/-- Makes a name mean a type, unless it means one already. -/
def addName (name : String) (t : TypeId) : RegistryM Unit :=
  modify fun r => { r with names := r.names.insertIfNew name t }

/-- The type of the descriptor's name, which is the descriptor if the name is new. -/
def intern (d : Descriptor) : RegistryM TypeId := do
  match ← ask fun r => r.names[d.name]? with
  | some t => return t
  | none =>
    let t ← addType d
    addName d.name t
    return t

/-- Adds a method; its identity is its place. -/
def addMethod (m : Method) : RegistryM MethodId := fun r =>
  .ok ⟨r.methods.size⟩ { r with methods := r.methods.push m }

/-- An array type; a rank of zero counts as one. -/
def makeArray (element : TypeId) (rank : UInt8) : RegistryM TypeId := do
  let name ← ask (·.typeName element)
  intern ⟨name ++ arraySuffix rank, .array element (if rank = 0 then 1 else rank), [], none⟩

/-- The reference type of an element, made on the first request. -/
def makeByRef (element : TypeId) : RegistryM TypeId := do
  let name ← ask (·.typeName element)
  intern ⟨name ++ "&", .byRef element, [], none⟩

/-- The stand-in for a generic parameter. -/
def makeParameter (name : String) : RegistryM TypeId := intern ⟨"!" ++ name, .parameter, [], none⟩

/-- The instantiation of a generic type; an instantiation counts as its open type. -/
def makeInstance (definition : TypeId) (args : List TypeId) : RegistryM TypeId := do
  let r ← get
  let definition := (r.type definition).definition.getD definition
  let d := r.type definition
  if d.generics.length ≠ args.length then
    throw (.genericArity d.name d.generics.length args.length)
  else
    let name := d.name ++ "<" ++ String.intercalate "," (args.map r.typeName) ++ ">"
    let bindings := (d.generics.zip args).map fun (name, type) => Binding.mk name type
    intern ⟨name, d.shape, bindings, some definition⟩

/-- The type of a host type, which is added when the host type is first used. -/
def ofHostType (type : HostType) : RegistryM TypeId := do
  match ← ask fun r => r.scoped_[type.scopedName]? with
  | some t => return t
  | none =>
    let t ← addType ⟨type.fullName, .native type, [], none⟩
    modify fun r => { r with scoped_ := r.scoped_.insert type.scopedName t }
    addName type.fullName t
    match type.backing with
    | some kind => modify fun r => { r with backed := r.backed.insertIfNew kind t }
    | none => pure ()
    return t

/-! ### Modules -/

def addHostModule (m : HostModule) : RegistryM Unit :=
  modify fun r => { r with host := r.host.push m }

/-- The name under which a definition is known; nested types are joined with a plus. -/
def definitionName (d : TypeDef) : String := d.fullName.map fun c => if c = '/' then '+' else c

/-- Adds the types of a module in order, up to one whose name is taken. -/
def addDefinitions (home : Home) : List (Nat × TypeDef) → RegistryM Unit
  | [] => pure ()
  | (position, def_) :: rest => do
    let token := Module.typeToken position
    let name := definitionName def_
    let t ← addType ⟨name, .interpreted home token, [], none⟩
    if (← get).names.contains name then throw (.duplicateType name)
    else
      addName name t
      modify fun r => { r with definitions := r.definitions.insert ⟨home.id, token⟩ t }
      addDefinitions home rest

/-- Loads a module. A module of a version that was loaded before is not loaded again. -/
def loadModule (m : Module) : RegistryM ModuleId := do
  let r ← get
  match if m.version = 0 then none else r.versions[m.version]? with
  | some id => return id
  | none =>
    match m.types.toList.find? fun d => r.names.contains (definitionName d) with
    | some d => throw (.duplicateType (definitionName d))
    | none =>
      let id : ModuleId := ⟨r.modules.size⟩
      set { r with modules := r.modules.push m }
      addDefinitions ⟨id, m⟩ (m.types.toList.zipIdx.map fun (d, i) => (i, d))
      if m.version ≠ 0 then
        modify fun r => { r with versions := r.versions.insert m.version id }
      return id

/-- The type that a token of a module defines. -/
def definedType (id : ModuleId) (token : Token) : RegistryM TypeId := do
  match ← ask fun r => r.definitions[Reference.mk id token]? with
  | some t => return t
  | none => throw (.invalidToken token)

end Registry

end ManagedMachine
