import ManagedMachine.Session.Calls

/-!
Steps that ask about types: by name, position, signature or token, their relations, their fields and
their defaults.
-/

set_option autoImplicit false
set_option relaxedAutoImplicit false

namespace ManagedMachine.Session

def named (name : String) : SessionM TypeId := (Registry.resolve name : SessionM TypeId)

def typeName (t : TypeId) : SessionM String := ask fun d => d.registry.typeName t

def optionalName (t : Option TypeId) : SessionM Answer := described fun r =>
  .optionalText (t.map r.typeName)

/-! ### Finding and making types -/

def resolve (name : String) : SessionM Answer := do typeAnswer (← named name)

def resolveScoped (name : String) (scope : Option String) : SessionM Answer := do
  typeAnswer (← (Registry.resolveIn name scope : SessionM TypeId))

def same (a b : String) : SessionM Answer := do
  let x ← named a
  let y ← named b
  let found := Report.flag (x = y)
  return plain (.record [("same", found), ("equal", found)])

def index (name : String) : SessionM Answer := return plain (.ofNat (← named name).index)

def typeAt (position : Nat) : SessionM Answer := do
  typeAnswer (← (Registry.lift (·.typeAt position) : SessionM TypeId))

def makeArray (name : String) (rank : UInt8) : SessionM Answer := do
  let element ← named name
  typeAnswer (← (Registry.makeArray element rank : SessionM TypeId))

def makeByRef (name : String) : SessionM Answer := do
  let element ← named name
  typeAnswer (← (Registry.makeByRef element : SessionM TypeId))

def makeGeneric (name : String) (args : List String) : SessionM Answer := do
  let args ← args.mapM named
  let definition ← named name
  typeAnswer (← (Registry.makeInstance definition args : SessionM TypeId))

/-! ### Relations -/

def base (name : String) : SessionM Answer := do
  let t ← named name
  optionalName (← (Registry.baseType t : SessionM (Option TypeId)))

def hostBase (name : String) : SessionM Answer := do
  let t ← named name
  optionalName (← bounded fun fuel => Registry.firstHostBase fuel t)

def interfaces (name : String) : SessionM Answer := do
  let t ← named name
  let found ← (Registry.interfaces t : SessionM (List TypeId))
  described fun r => .texts (found.map r.typeName)

def assignable (source target : String) : SessionM Answer := do
  let source ← named source
  let target ← named target
  return plain (.flag (← bounded fun fuel => Registry.isAssignable fuel source target))

/-! ### Signatures and tokens -/

/-- Where a signature or token stands: in a type, in a method, in both or in neither. -/
structure Place where
  module : ModuleId
  type : Option String
  method : Option MethodPath

/-- The type and the method of a place. -/
def Place.resolve (p : Place) : SessionM (Option TypeId × Option Method) := do
  let t ← p.type.mapM named
  let m ← p.method.mapM fun path => do
    let id ← path.find
    ask fun d => d.registry.method id
  return (t, m)

/-- The arguments of the type of a place, and those of its method. -/
def Place.context (p : Place) : SessionM GenericContext := do
  let (t, m) ← p.resolve
  return ⟨t, (m.map Method.args).getD []⟩

/-- Like `Place.context`, but a method brings its type along where no type is given. -/
def Place.methodContext (p : Place) : SessionM GenericContext := do
  let (t, m) ← p.resolve
  return ⟨t <|> m.map Method.declaring, (m.map Method.args).getD []⟩

def resolveSignature (p : Place) (s : Signature) : SessionM Answer := do
  let c ← p.context
  let found ← (Registry.resolveSignature p.module c s : SessionM Resolution)
  described fun r =>
    match found with
    | .fixed t => .texts ["cacheable", r.typeName t]
    | .dependent t => .texts ["dependent", r.typeName t]
    | .unbound name => .texts ["unbound", name]

def resolveToken (p : Place) (token : Token) : SessionM Answer := do
  let c ← p.methodContext
  let t ← (Registry.resolveTypeToken p.module token c : SessionM TypeId)
  described fun r =>
    .record [("name", .text (r.typeName t)),
      ("cached", .flag (r.tokens.types.contains ⟨p.module, token⟩))]

/-! ### Fields and defaults -/

def layout (name : String) : SessionM Answer := do
  let t ← named name
  let l ← bounded fun fuel => Registry.layout fuel t
  described fun r =>
    .record
      [("instance", .list (l.instance_.map (Domain.reportField r))),
        ("statics", .list (l.statics.map (Domain.reportField r))),
        ("count", .ofNat l.instance_.length)]

def findField (type name : String) (isStatic : Option Bool) : SessionM Answer := do
  let t ← named type
  let f ← bounded fun fuel => Registry.findField fuel t name isStatic
  described fun r => Domain.reportField r f

def resolveField (p : Place) (token : Token) : SessionM Answer := do
  let c ← p.context
  let f ← bounded fun fuel => Registry.resolveField fuel p.module token c
  described fun r =>
    .record [("field", Domain.reportField r f),
      ("cached", .flag (r.tokens.fields.contains ⟨p.module, token⟩))]

def default_ (name : String) : SessionM Answer := do
  let t ← named name
  valued (← bounded fun fuel => Domain.defaultValue fuel t)

def staticField (name : String) (i : Nat) : SessionM Answer := do
  let t ← named name
  let v ← bounded fun fuel => Domain.static fuel t i
  let s ← bounded fun fuel => Domain.staticsOf fuel t
  return plain (.record
    [("value", ← within (Domain.report v)), ("initialized", .flag (s.state = .done))])

def setStaticField (name : String) (i : Nat) (l : Literal) : SessionM Answer := do
  let t ← named name
  let v ← value l
  bounded fun fuel => Domain.setStatic fuel t i v
  return plain .null

end ManagedMachine.Session
