import ManagedMachine.Domain.Objects

/-!
Reports of values, errors, types and members. Objects are numbered by first appearance in any
report, so a number means one object until the numbering is given up. Within one report an object is
written out once, and only its number is written where it is met again, so cycles end.
-/

set_option autoImplicit false
set_option relaxedAutoImplicit false

namespace ManagedMachine

/-- The name of the kind of an error. -/
def Error.kind : Error → String
  | malformed _ => "Malformed"
  | typeNotFound _ => "TypeNotFound"
  | methodNotFound .. => "MethodNotFound"
  | fieldNotFound .. => "FieldNotFound"
  | argumentCount .. => "ArgumentCountMismatch"
  | argumentType .. => "ArgumentTypeMismatch"
  | invalidCast .. => "InvalidCast"
  | unsupportedReference _ => "UnsupportedReferenceShape"
  | nullReceiver _ => "NullReceiver"
  | domainDropped => "DomainDropped"
  | exception _ => "Exception"
  | duplicateType _ => "DuplicateType"
  | genericArity .. => "GenericArityMismatch"
  | adaptorRegistered _ => "AdaptorAlreadyRegistered"
  | bindingsFrozen => "BindingsFrozen"
  | bindingThread _ => "BindingThread"
  | unboundNative _ => "UnboundNativeMethod"
  | missingBody _ => "MissingMethodBody"
  | invalidToken _ => "InvalidToken"
  | stackOverflow => "StackOverflow"
  | callDepth _ => "CallDepthExceeded"
  | stack _ => "InvalidStackState"
  | lock => "LockError"
  | outOfBounds => "OutOfBounds"
  | outOfFuel => "OutOfFuel"

namespace Domain

/-! ### Values -/

/-- The number of an object, which is new if the object has none. -/
def numberOf (id : ObjectId) : DomainM Nat := do
  let d ← get
  match d.host.numbered.findIdx? (· == id) with
  | some n => return n
  | none => do
    set { d with host := { d.host with numbered := d.host.numbered.push id } }
    return d.host.numbered.size

/-- Host data, with `report` for the values in it. -/
def reportData (report : Value → StateT (List ObjectId) DomainM Report) :
    HostData → StateT (List ObjectId) DomainM Report
  | .unit => return .text "unit"
  | .record values => return .record [("rec", .list (← values.mapM report))]
  | .point x y => return .record [("pt", .list [.int32 x, .double y])]
  | .exception message => return .record [("msg", .optionalText message)]
  | .integer _ => return .text "opaque"

/-- A value with the objects below it, but for those met already. Every object is entered once, so
the size of the heap bounds the depth. -/
def reportWithin : (depth : Nat) → Value → StateT (List ObjectId) DomainM Report
  | _, .null => return .null
  | _, .bool v => return .record [("b", .flag v)]
  | _, .int32 v => return .record [("i", .int32 v)]
  | _, .int64 v => return .record [("l", .int64 v)]
  | _, .single v => return .record [("f", .single v)]
  | _, .double v => return .record [("d", .double v)]
  | _, .string s => return .record [("s", .text s)]
  | 0, .object _ => return .null
  | depth + 1, .object id => do
    let n ← numberOf id
    if (← get).contains id then return .record [("o", .ofNat n)]
    else
      modify (id :: ·)
      let d ← (Domain.ask fun d => d : DomainM Domain)
      let content ← match d.heap.object id with
        | .instance_ _ fields _ => do
          let items ← fields.toList.mapM (reportWithin depth)
          pure ("fields", Report.list items)
        | .array _ items => do
          let items ← items.toList.mapM (reportWithin depth)
          pure ("items", Report.list items)
        | .native _ data => do pure ("data", ← reportData (reportWithin depth) data)
      return .record [("o", .ofNat n), ("t", .text (d.typeOf id).name), content]

/-- A value with everything that it leads to, each object once. -/
def report (v : Value) : DomainM Report := do
  let size ← ask (·.heap.size)
  return (← (reportWithin (size + 1) v).run []).1

/-! ### Errors -/

/-- An error with its kind, its message and what it carries. -/
def reportError (e : Error) : DomainM Report := do
  let d ← get
  let head := [("error", Report.text e.kind), ("message", .text (d.message e))]
  match e with
  | .exception raised =>
    return .record (head ++
      [("type", .text (d.raisedTypeName raised.value)),
        ("detail", .optionalText (d.raisedMessage? raised.value)),
        ("trace", .texts (raised.trace.map TraceEntry.text)),
        ("value", ← report raised.value)])
  | _ => return .record head

/-! ### Types and members -/

/-- Generic parameters with the types that they are bound to. -/
def reportBindings (r : Registry) (bindings : List Binding) : Report :=
  .list (bindings.map fun b => .list [.text b.name, .text (r.typeName b.type)])

/-- What a type is, in one word. -/
def kindName (d : Descriptor) : String :=
  match d.shape with
  | .interpreted .. => "interpreted"
  | .native _ => "native"
  | .array .. => "array"
  | .byRef _ => "byref"
  | .parameter => "param"

/-- A type with all that its descriptor says. -/
def reportType (r : Registry) (t : TypeId) : Report :=
  let d := r.type t
  let name? (t : Option TypeId) : Report := .optionalText (t.map r.typeName)
  .record
    [("name", .text d.name), ("kind", .text (kindName d)), ("value", .flag d.isStruct),
      ("interface", .flag d.isInterface), ("scope", .optionalText (r.scope t)),
      ("primitive", .optionalText (d.primitive?.map Primitive.name)), ("void", .flag d.isVoid),
      ("params", .texts d.generics), ("args", reportBindings r d.args),
      ("definition", name? d.definition), ("element", name? d.element?),
      ("rank", match d.shape with | .array _ rank => .ofNat rank.toNat | _ => .null),
      ("generic_def", .flag d.isGenericDefinition), ("open", .flag (r.isOpen t))]

/-- A field with its place and its type. -/
def reportField (r : Registry) (f : Field) : Report :=
  .record
    [("key", .text (r.fieldKey f)), ("index", .ofNat f.index), ("static", .flag f.isStatic),
      ("type", .text (r.typeName f.type)), ("native", .flag f.native.isSome)]

/-- A method with its signature and where it comes from. -/
def reportMethod (d : Domain) (id : MethodId) : Report :=
  let r := d.registry
  let m := r.method id
  .record
    [("key", .text (r.key m)), ("full", .text (r.fullName m)), ("flags", .ofNat m.flags.bits),
      ("ret", .text (r.typeName m.ret)), ("params", .texts (m.params.map r.typeName)),
      ("generics", .texts m.generics), ("args", reportBindings r m.args),
      ("declaring", .text (r.typeName m.declaring)),
      ("definition", .optionalText (m.definition.map fun id => r.key (r.method id))),
      ("arg_count", .ofNat m.argCount),
      ("token", .optionalText (m.home?.map fun (_, token) => token.text)),
      ("native", .flag m.native?.isSome),
      ("body", .ofOption (fun b => .ofNat b.size) m.body?),
      ("open", .flag m.isGenericDefinition), ("void", .flag (r.type m.ret).isVoid),
      ("prewarmed", .flag (d.prewarmed.contains id))]

end Domain

end ManagedMachine
