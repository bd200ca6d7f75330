import ManagedMachine.Session.Types

/-!
Steps that ask about methods and string literals, and steps that work on values and objects.
-/

set_option autoImplicit false
set_option relaxedAutoImplicit false

namespace ManagedMachine.Session

/-! ### Methods -/

def methodReport (id : MethodId) : SessionM Report := ask fun d => d.reportMethod id

def keyOf (r : Registry) (id : MethodId) : String := r.key (r.method id)

def methods (name : String) : SessionM Answer := do
  let t ← named name
  let found ← (Registry.methodsOf t : SessionM (List MethodId))
  return plain (.list (← found.mapM methodReport))

def constructors (name : String) : SessionM Answer := do
  let t ← named name
  let found ← (Registry.constructors t : SessionM (List MethodId))
  described fun r => .texts (found.map (keyOf r))

def initializer (name : String) : SessionM Answer := do
  let t ← named name
  let found ← (Registry.typeInitializer t : SessionM (Option MethodId))
  described fun r => .optionalText (found.map (keyOf r))

def findMethod (p : MethodPath) : SessionM Answer := return plain (← methodReport (← p.find))

def locals (p : MethodPath) : SessionM Answer := do
  let id ← p.find
  let types ← (Registry.localsOf id : SessionM (List TypeId))
  described fun r => .texts (types.map r.typeName)

def findOverride (receiver : String) (p : MethodPath) : SessionM Answer := do
  let t ← named receiver
  let id ← p.find
  let found ← bounded fun fuel => Registry.findOverride fuel t id
  described fun r => .text (keyOf r found)

def resolveMethod (p : Place) (token : Token) : SessionM Answer := do
  let c ← p.context
  let found ← bounded fun fuel => Registry.resolveMethod fuel p.module token c
  let report ← match found with
    | some id => methodReport id
    | none => pure .null
  described fun r =>
    .record
      [("method", report),
        ("cached", .flag (r.tokens.methods.contains ⟨p.module, token⟩)),
        ("by_id", .ofOption (fun id => .flag (r.reached.contains id)) found)]

def sameMethod (a b : MethodPath) : SessionM Answer := do
  let x ← a.find
  let y ← b.find
  described fun r =>
    .record [("same", .flag (x = y)),
      ("signature", .flag ((r.method x).sameSignature (r.method y)))]

def resolveString (module : ModuleId) (token : Token) : SessionM Answer := do
  return text (← (Registry.resolveString module token : SessionM String))

/-! ### Objects -/

def fieldOf (l : Literal) (i : Nat) : SessionM Answer := do
  requireDomain
  let id ← object (← value l)
  valued (← within (Domain.field id i))

def setFieldOf (l : Literal) (i : Nat) (new : Literal) : SessionM Answer := do
  requireDomain
  let v ← value l
  let new ← value new
  within (Domain.setField (← object v) i new)
  return plain .null

def lengthOf (l : Literal) : SessionM Answer := do
  requireDomain
  let id ← object (← value l)
  return plain (.ofNat (← within (Domain.length id)))

def elementOf (l : Literal) (i : Nat) : SessionM Answer := do
  requireDomain
  let id ← object (← value l)
  match ← within (Domain.element? id i) with
  | some v => return ⟨.record [("item", ← within (Domain.report v))], some v⟩
  | none => return text "none"

def setElementOf (l : Literal) (i : Nat) (new : Literal) : SessionM Answer := do
  requireDomain
  let v ← value l
  let new ← value new
  return plain (.flag (← within (Domain.setElement (← object v) i new)))

/-! ### Values -/

def copy (l : Literal) : SessionM Answer := do
  requireDomain
  let v ← value l
  let fuel := (← get).fuel
  valued (← within (Domain.copyValue fuel v))

/-- Whether two values are equal, and whether they are one; objects are equal only to themselves. -/
def compare_ (a b : Literal) : SessionM Answer := do
  requireDomain
  let x ← value a
  let y ← value b
  let found := Report.flag (x.same y)
  return plain (.record [("eq", found), ("ref_eq", found)])

/-- The diagnostic texts of a value, of the object that it is, and of an exception that carries
it. -/
def describe (l : Literal) : SessionM Answer := do
  requireDomain
  let v ← value l
  let d ← within get
  return plain (.record
    [("value", .text (d.describe v)),
      ("object", .optionalText (v.object?.map d.describeObject)),
      ("exception", .text (d.describeRaised v))])

end ManagedMachine.Session
