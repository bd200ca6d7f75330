import ManagedMachine.Bindings
import ManagedMachine.Host.Literal

/-!
Scripts: host code written down as lists of steps. The steps of a host method build up its result;
those of a redirection work on its frame, and those of a field delegate on the access. Every kind of
script has a meaning as a host program.
-/

set_option autoImplicit false
set_option relaxedAutoImplicit false

namespace ManagedMachine

/-! ### Getters and setters -/

/-- What a scripted getter does. -/
inductive GetterScript where
  | const (v : Literal)
  | cell (name : String)
  /-- A member of the receiver. -/
  | member (i : Nat)
  | this
  | fail (e : Error)

def GetterScript.code : GetterScript → HostGetter
  | const v, _ => v.hostValue
  | cell name, _ => Host.cell name
  | member i, receiver => Host.member i (receiver.getD .null)
  | this, receiver => pure (receiver.getD .null)
  | fail e, _ => throw e

/-- What a scripted setter does. -/
inductive SetterScript where
  | cell (name : String)
  | member (i : Nat)
  | log
  | fail (e : Error)

/-- The report of a value that may be missing. -/
def Host.reportOptional : Option Value → HostProgram Report
  | some v => Host.report v
  | none => pure .null

def SetterScript.code : SetterScript → HostSetter
  | cell name, _, v => Host.setCell name v
  | member i, receiver, v => Host.setMember i v (receiver.getD .null)
  | log, receiver, v => do
    let set ← Host.report v
    let this ← Host.reportOptional receiver
    Host.log (.record [("set", set), ("this", this)])
  | fail e, _, _ => throw e

/-! ### Methods -/

inductive CallStep where
  | const (v : Literal)
  | arg (i : Nat)
  | this
  | cell (name : String)
  /-- Stores the result so far. -/
  | setCell (name : String)
  | log
  /-- The sum of all arguments. -/
  | sum
  | makeRecord
  | makePoint
  | member (i : Nat)
  /-- Writes an argument to a member of the receiver. -/
  | setMember (i source : Nat)
  | throwNew (type message : String)
  | throwValue (v : Literal)
  | fail (e : Error)
  | invoke (type name : String) (args : List Nat) (withThis : Bool)

namespace CallStep

/-- Makes an exception and raises it. -/
def raiseNew {α : Type} (type message : String) : DomainProgram α := do
  let v ← Host.instantiate type [.string message]
  throw (.exception ⟨v, []⟩)

def logCall (call : HostCall) : HostProgram Unit := do
  let args ← call.args.mapM Host.report
  let this ← Host.reportOptional call.receiver
  Host.log (.record [("call", .text call.key), ("this", this), ("args", .list args)])

/-- A new object for a constructor that runs for none. -/
def makeNew (call : HostCall) (data : Except Error HostData) : DomainProgram Value := do
  match call.receiver with
  | some _ => pure .null
  | none => do
    let d ← data
    call.construct d

def pointOfArgs (call : HostCall) : Except Error HostData := do
  let x ← (← call.arg 0).toInt32
  let y ← (← call.arg 1).toDouble
  return .point x y

/-- The result after a step, given the result before it. -/
def run (call : HostCall) (result : Value) : CallStep → DomainProgram Value
  | const v => v.value
  | arg i => call.arg i
  | this => call.this
  | cell name => (Host.cell name : HostProgram Value)
  | setCell name => do
    (Host.setCell name result : HostProgram Unit)
    pure result
  | log => do
    (logCall call : HostProgram Unit)
    pure result
  | sum => do
    let total ← call.args.foldlM (fun total v => do return total + (← v.toInt32)) (0 : Int32)
    pure (.int32 total)
  | makeRecord => makeNew call (.ok (.record call.args))
  | makePoint => makeNew call (pointOfArgs call)
  | member i => do
    let this ← call.this
    (Host.member i this : HostProgram Value)
  | setMember i source => do
    let this ← call.this
    let v ← call.arg source
    (Host.setMember i v this : HostProgram Unit)
    pure result
  | throwNew type message => raiseNew type message
  | throwValue v => do
    let raised ← v.value
    throw (.exception ⟨raised, []⟩)
  | fail e => throw e
  | invoke type name args withThis => do
    let values ← args.mapM fun i => (call.arg i : Except Error Value)
    let receiver ← if withThis then (do pure (some (← call.this))) else pure none
    return (← Host.invoke type name receiver values).getD .null

/-- The code of a method; its result starts as null. -/
def code (steps : List CallStep) (call : HostCall) : DomainProgram Value :=
  steps.foldlM (fun result step => step.run call result) .null

end CallStep

/-! ### Redirections -/

/-- What a redirection can read from its frame. -/
inductive FrameItem where
  | value (i : Nat)
  | int32 (i : Nat)
  | int64 (i : Nat)
  | single (i : Nat)
  | double (i : Nat)
  | bool (i : Nat)
  | string (i : Nat)
  | this
  | slot (i : Nat)
  | valueFields (i : Nat)
  | thisFields
  | argCount
  | method
  | moduleCount

namespace FrameItem

/-- The value of an item that is one. -/
def read : FrameItem → FrameProgram Value
  | value i => Frame.argument i
  | int32 i => do pure (.int32 (← Frame.int32 i))
  | int64 i => do pure (.int64 (← Frame.int64 i))
  | single i => do pure (.single (← Frame.single i))
  | double i => do pure (.double (← Frame.double i))
  | bool i => do pure (.bool (← Frame.bool i))
  | string i => do pure (((← Frame.string i).map Value.string).getD .null)
  | this => Frame.this
  | _ => pure .null

def reportSlots (slots : List Slot) : Report := .list (slots.map .slot)

def reportValue (v : Value) : FrameProgram Report := (Host.report v : DomainProgram Report)

def report (site : FrameSite) : FrameItem → FrameProgram Report
  | slot i => do pure (.slot (← Frame.argumentSlot i))
  | valueFields i => do pure (reportSlots (← Frame.valueFields i))
  | thisFields => do pure (reportSlots (← Frame.thisFields))
  | argCount => pure (.ofNat site.argCount)
  | method => pure (.text site.key)
  | moduleCount => do pure (.ofNat (← (Host.moduleCount : DomainProgram Nat)))
  | item => do reportValue (← item.read)

end FrameItem

/-- Reports what a piece of host code gives, or the error that it ends with. -/
def Host.reported {Req : Type} {Ans : Req → Type} [MonadLiftT HostProgram (Program Req Ans)]
    (item : Program Req Ans Report) : Program Req Ans Report :=
  (do return Report.record [("ok", ← item)] : Program Req Ans Report).orElse fun e =>
    liftM (Host.reportError e : HostProgram Report)

inductive FrameStep where
  | const (v : Literal)
  | ret (item : FrameItem)
  | log (name : String) (item : FrameItem)
  | setThisFields (slots : List Slot)
  | throwNew (type message : String)
  | fail (e : Error)

namespace FrameStep

def run (site : FrameSite) : FrameStep → FrameProgram Unit
  | const v => do Frame.setResult (← (v.value : DomainProgram Value))
  | ret item => do Frame.setResult (← item.read)
  | log name item => do
    let found ← Host.reported (item.report site)
    (Host.log (.record [("frame", .text name), ("r", found)]) : HostProgram Unit)
  | setThisFields slots => Frame.setThisFields slots
  | throwNew type message => (CallStep.raiseNew type message : DomainProgram Unit)
  | fail e => throw e

def code (steps : List FrameStep) : Redirection := fun site => steps.forM (run site)

end FrameStep

/-! ### Field delegates -/

/-- What a field delegate can read from the access. -/
inductive AccessItem where
  | receiver
  | slot
  | value
  | int32
  | double
  | field

namespace AccessItem

def reportValue (v : Value) : AccessProgram Report := (Host.report v : DomainProgram Report)

def reportField (f : Field) : HostProgram Report := do
  let declaring ← Host.typeName f.declaring
  let type ← Host.typeName f.type
  pure (.record
    [("key", .text (memberName declaring f.name)), ("index", .ofNat f.index),
      ("static", .flag f.isStatic), ("type", .text type), ("native", .flag f.native.isSome)])

def report (f : Field) : AccessItem → AccessProgram Report
  | receiver => do reportValue (← Access.receiver)
  | slot => do pure (.slot (← Access.valueSlot))
  | value => do reportValue (← Access.value)
  | int32 => do pure (.int32 (← Access.int32))
  | double => do pure (.double (← Access.double))
  | field => (reportField f : HostProgram Report)

end AccessItem

inductive AccessStep where
  | pushInt32 (v : Int32)
  | pushInt64 (v : Int64)
  | pushDouble (v : Float)
  | push (v : Literal)
  | pushCell (name : String)
  /-- Stores the value that is assigned. -/
  | storeCell (name : String)
  | log (name : String) (item : AccessItem)
  | fail (e : Error)

namespace AccessStep

def run (f : Field) : AccessStep → AccessProgram Unit
  | pushInt32 v => .request (AccessRequest.pushInt32 v)
  | pushInt64 v => .request (AccessRequest.pushInt64 v)
  | pushDouble v => .request (AccessRequest.pushDouble v)
  | push v => do Access.push (← (v.value : DomainProgram Value))
  | pushCell name => do Access.push (← (Host.cell name : HostProgram Value))
  | storeCell name => do (Host.setCell name (← Access.value) : HostProgram Unit)
  | log name item => do
    let found ← Host.reported (item.report f)
    (Host.log (.record [("access", .text name), ("r", found)]) : HostProgram Unit)
  | fail e => throw e

def code (steps : List AccessStep) : FieldDelegate := fun f => steps.forM (run f)

end AccessStep

/-! ### Array factories and struct binders -/

inductive FactoryScript where
  /-- Copies of a value, some more or fewer than the length. -/
  | fill (v : Literal) (delta : Int)
  /-- The numbers from zero on. -/
  | count
  | fail (e : Error)

def FactoryScript.code : FactoryScript → ArrayFactory
  | fill v delta, length => do
    let item ← v.hostValue
    pure (List.replicate (length + delta).toNat item)
  | count, length => pure ((List.range length).map fun i => .int32 (Int32.ofNat i))
  | fail e, _ => throw e

/-- A type of a kind without members. Structs stand for points. -/
def HostType.scripted (kind : TypeKind) (space name : String) : HostType :=
  let t := HostType.plain kind space name
  match kind with
  | .struct =>
    { t with
      backing := some .point
      copy := some fun d => if d.kind = .point then some d else none
      default := some (.point 0 0) }
  | _ => t

/-- The binder of a struct that stands for points. -/
def pointBinder (typeName : String) : StructBinder where
  typeName
  fields := [.int32, .double]
  write
    | .point x y => .ok [.int32 x, .double y]
    | _ => .error (.invalidCast "native data" typeName)
  read slots := do
    let x ← (slots.getD 0 .null).toInt32
    let y ← (slots.getD 1 .null).toDouble
    return .point x y
  length_write {data slots} h := by
    cases data with
    | point x y =>
      cases h
      rfl
    | _ => cases h
  primitive_write {data slots} h := by
    cases data with
    | point x y =>
      cases h
      simp [Slot.isNumeric]
    | _ => cases h

end ManagedMachine
