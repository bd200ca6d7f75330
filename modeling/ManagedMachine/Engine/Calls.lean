import ManagedMachine.Domain.HostService
import ManagedMachine.Engine.Transfer

/-!
Calls. Interpreted methods are executed by a runner that is passed in, and host code that calls back
into the domain is served by a function that is passed in, so everything here is one step of the
engine. A host method runs through its redirection if it has one, and else through its own code.
-/

set_option autoImplicit false
set_option relaxedAutoImplicit false

namespace ManagedMachine

/-- What a step of the engine may call on. -/
structure Callees where
  run : Runner
  serve : (r : DomainRequest) → DomainM r.Answer

namespace Engine

/-- Runs `after` whatever becomes of `x`. -/
def afterwards {α : Type} (x : RunM α) (after : RunM Unit) : RunM α := fun r =>
  match x r with
  | .ok a r =>
    match after r with
    | .ok _ r => .ok a r
    | .error e r => .error e r
  | .error e r =>
    match after r with
    | .ok _ r => .error e r
    | .error _ r => .error e r

/-- Runs the type initializer when a type is first used. -/
def ensureInitialized (c : Callees) (fuel : Nat) (t : TypeId) : RunM Unit := do
  if ← Domain.beginInitialization fuel t then
    afterwards (do
      match ← Registry.typeInitializer t with
      | some initializer => do
        let _ ← c.run initializer (← ask Stack.top)
      | none => pure ())
      (Domain.finishInitialization fuel t)
  else pure ()

/-! ### Host code on the stack -/

/-- The header of the block that a receiver or an argument stands for. -/
def blockOf : (fuel : Nat) → Slot → RunM Nat
  | 0, _ => throw .outOfFuel
  | fuel + 1, s => do
    match s with
    | .block d => return d
    | .stackRef addr =>
      match ← read (·.slotAt addr) with
      | .header .. => return addr
      | inner => blockOf fuel inner
    | other => stackFault (.notInlineSlot other.kind)

/-- A host method on the stack: where its arguments start, and whether a receiver is the first. -/
structure HostFrame where
  method : Method
  argBase : Nat
  hasReceiver : Bool

namespace HostFrame

/-- The address of an argument, not counting the receiver. -/
def argAddr (f : HostFrame) (i : Nat) : RunM Nat :=
  let count := f.method.params.length
  if i < count then return f.argBase + f.hasReceiver.toNat + i
  else throw (.argumentCount (i + 1) count)

/-- The slot of an argument. -/
def argSlot (f : HostFrame) (i : Nat) : RunM Slot := do
  let addr ← f.argAddr i
  read (·.slotAt addr)

/-- The value of an argument, read as its parameter says. -/
def arg (f : HostFrame) (fuel i : Nat) : RunM Value := do
  readValue fuel (← f.argSlot i) (f.method.params.getD i default)

/-- The method has no receiver, or it is null. -/
def noReceiver {α : Type} (f : HostFrame) : RunM α := do
  throw (.nullReceiver (← fullName f.method))

/-- The slot of the receiver, which comes before the arguments. -/
def thisSlot (f : HostFrame) : RunM Slot :=
  if f.hasReceiver then read (·.slotAt f.argBase) else f.noReceiver

/-- The receiver, which is not null. -/
def this (f : HostFrame) (fuel : Nat) : RunM Value := do
  match ← readValue fuel (← f.thisSlot) f.method.declaring with
  | .null => f.noReceiver
  | v => return v

/-- Overwrites the fields of the receiver, a struct, from the first one on. -/
def setThisFields (f : HostFrame) (fuel : Nat) (slots : List Slot) : RunM Unit := do
  let d ← blockOf fuel (← f.thisSlot)
  let (_, count) ← read (·.header d)
  if count ≠ slots.length then stackFault (.fieldSlotCount slots.length count)
  else
    slots.zipIdx.forM fun (s, i) => do
      let addr ← read (·.fieldAddr d i)
      Stack.setSlot addr s

end HostFrame

/-- The interpreter with something that a piece of host code leaves behind. -/
abbrev WithResult (β : Type) := EStateM Error (Running × β)

/-- Work on the machine that leaves the result of the call alone. -/
def keeping {α β : Type} (x : RunM α) : WithResult β α := fun (r, b) =>
  match x r with
  | .ok a r => .ok a (r, b)
  | .error e r => .error e (r, b)

/-- What is left of the result at the end. -/
def leaving {β : Type} (b : β) (x : WithResult β Unit) : RunM β := fun r =>
  match x (r, b) with
  | .ok _ (r, b) => .ok b r
  | .error e (r, _) => .error e r

/-- Requests of a redirection: looking at its arguments, setting the result, and all that domains
serve. -/
def serveFrame (c : Callees) (fuel : Nat) (f : HostFrame) :
    (r : FrameRequest) → WithResult (Option Value) r.Answer
  | .domain r => keeping (c.serve r : DomainM r.Answer)
  | .argumentSlot i => keeping (f.argSlot i)
  | .argument i => keeping (f.arg fuel i)
  | .this => keeping (f.this fuel)
  | .valueFields i => keeping do blockFields (← blockOf fuel (← f.argSlot i))
  | .thisFields => keeping do blockFields (← blockOf fuel (← f.thisSlot))
  | .setThisFields slots => keeping (f.setThisFields fuel slots)
  | .setResult v => fun (r, _) => .ok () (r, some v)

/-- Runs a redirection; the answer is the result that it sets. -/
def runRedirection (c : Callees) (fuel : Nat) (f : HostFrame) (code : Redirection) :
    RunM (Option Value) := do
  let key ← Domain.ask fun d => d.registry.key f.method
  leaving none ((code ⟨key, f.method.params.length⟩).run (serveFrame c fuel f))

/-- The access to a bound field: the receiver of an instance field, and the address of the value
that is stored, if one is. -/
structure FieldAccess where
  field : Field
  receiver : Option Value
  valueAddr : Option Nat

namespace FieldAccess

def key (a : FieldAccess) : RunM String := Domain.ask fun d => d.registry.fieldKey a.field

/-- The object whose field it is. -/
def this (a : FieldAccess) : RunM Value := do
  match a.receiver with
  | some v => return v
  | none => throw (.nullReceiver (← a.key))

/-- The slot of the value that is stored. -/
def valueSlot (a : FieldAccess) : RunM Slot := do
  match a.valueAddr with
  | some addr => read (·.slotAt addr)
  | none => do stackFault (.nothingStored (← a.key))

/-- The value that is stored, read as the type of the field says. -/
def value (a : FieldAccess) (fuel : Nat) : RunM Value := do
  readValue fuel (← a.valueSlot) a.field.type

/-- Pushes the one value that a load may push. -/
def pushOnce (a : FieldAccess) (push : RunM Unit) : WithResult Bool Unit := fun (r, pushed) =>
  if a.valueAddr.isSome || pushed then
    keeping (do stackFault (.pushedTwice (← a.key))) (r, pushed)
  else keeping push (r, true)

end FieldAccess

/-- Requests of a field binding: looking at the value, pushing, and all that domains serve. -/
def serveAccess (c : Callees) (fuel : Nat) (a : FieldAccess) :
    (r : AccessRequest) → WithResult Bool r.Answer
  | .domain r => keeping (c.serve r : DomainM r.Answer)
  | .receiver => keeping a.this
  | .valueSlot => keeping a.valueSlot
  | .value => keeping (a.value fuel)
  | .pushInt32 v => a.pushOnce (Stack.push (.int32 v))
  | .pushInt64 v => a.pushOnce (Stack.push (.int64 v))
  | .pushDouble v => a.pushOnce (Stack.push (.double v))
  | .push v => a.pushOnce (pushValue fuel v a.field.type)

/-- Runs a field delegate; the answer is whether it pushed a value. -/
def runDelegate (c : Callees) (fuel : Nat) (a : FieldAccess) (code : FieldDelegate) : RunM Bool :=
  leaving false ((code a.field).run (serveAccess c fuel a))

/-! ### Host methods -/

/-- Replaces the arguments of a host method by its result. Null stands for the default of a struct,
and a constructor without a receiver gives the object that it made. -/
def finishHostCall (fuel : Nat) (f : HostFrame) (result : Option Value) : RunM Unit := do
  Stack.popTo f.argBase
  let m := f.method
  let makes := m.flags.constructor && !f.hasReceiver
  if !makes && (← descriptor m.ret).isVoid then pure ()
  else
    let t := if makes then m.declaring else m.ret
    let isStruct := (← descriptor t).isStruct
    let v ← match result with
      | some v =>
        if v.isNull && isStruct then (Domain.defaultValue fuel t : DomainM Value) else pure v
      | none => (Domain.defaultValue fuel t : DomainM Value)
    pushValue fuel v t

/-- Runs the code of a host method. -/
def callHostCode (c : Callees) (fuel : Nat) (f : HostFrame) (host : HostMethod) : RunM Value := do
  let m := f.method
  let receiver ←
    if f.hasReceiver then do
      pure (some (← readValue fuel (← read (·.slotAt f.argBase)) m.declaring))
    else pure none
  let args ← m.params.zipIdx.mapM fun (t, i) => do
    readValue fuel (← read (·.slotAt (f.argBase + f.hasReceiver.toNat + i))) t
  let r ← (Domain.ask (·.registry) : DomainM Registry)
  let call : HostCall := ⟨r.key m, r.fullName m, m.declaring, receiver, args⟩
  Running.onDomain ((host.code call).run c.serve)

/-- Calls host code with the arguments from an address on, and leaves its result there. -/
def callHost (c : Callees) (fuel : Nat) (m : Method) (argBase : Nat) (hasReceiver : Bool) :
    RunM Unit := do
  let f : HostFrame := ⟨m, argBase, hasReceiver⟩
  let domain ← (Domain.ask fun d => d : DomainM Domain)
  let key := domain.registry.key m
  match domain.bindings.redirection? key with
  | some code => do finishHostCall fuel f (← runRedirection c fuel f code)
  | none =>
    match m.native? with
    | none => do throw (.missingBody (← fullName m))
    | some host =>
      if !domain.config.allowUnboundNative then throw (.unboundNative key)
      else finishHostCall fuel f (some (← callHostCode c fuel f host))

/-! ### Calls -/

/-- Calls a method on the arguments from `argBase` up and pushes its result. -/
def invokeAt (c : Callees) (fuel : Nat) (id : MethodId) (m : Method) (argBase : Nat) :
    RunM Unit := do
  if m.native?.isSome then callHost c fuel m argBase m.flags.hasThis
  else
    match ← c.run id argBase with
    | some carry => pushCarry fuel carry m.ret
    | none => pure ()

/-- The type of a receiver; null has none. -/
def receiverType : (fuel : Nat) → Slot → RunM (Option TypeId)
  | 0, _ => throw .outOfFuel
  | fuel + 1, s => do
    match s with
    | .null => return none
    | .int32 _ => return some (← Registry.primitive .int32)
    | .int64 _ => return some (← Registry.primitive .int64)
    | .single _ => return some (← Registry.primitive .single)
    | .double _ => return some (← Registry.primitive .double)
    | .object entry => do
      let v ← read (·.entry entry)
      Domain.typeOfValue v
    | .block d => do
      let (type, _) ← read (·.header d)
      return some (← typeAt type)
    | .stackRef addr =>
      match ← read (·.slotAt addr) with
      | .header type _ => return some (← typeAt type)
      | inner => receiverType fuel inner
    | .fieldRef .. | .elementRef .. | .staticRef .. => do
      let v ← readHeap fuel s
      Domain.typeOfValue v
    | .header .. => stackFault .headerAsReceiver

/-- Raises the exception for a null reference. -/
def nullReference {α : Type} : RunM α :=
  Running.onDomain
    (Domain.raise .nullReference "Object reference not set to an instance of an object.")

/-- Calls a method, or for a virtual call the implementation of the receiver's type. -/
def callMethod (c : Callees) (fuel : Nat) (id : MethodId) (argBase : Nat) (virtual_ : Bool) :
    RunM Unit := do
  let m ← method id
  let target ←
    if m.flags.hasThis && virtual_ then do
      match ← receiverType fuel (← read (·.slotAt argBase)) with
      | some t => (Registry.findOverride fuel t id : RegistryM MethodId)
      | none => nullReference
    else pure id
  let m ← method target
  if !m.flags.hasThis then ensureInitialized c fuel m.declaring
  invokeAt c fuel target m argBase

/-- A new object of an interpreted class, with a wrapper if an adaptor serves its host base. -/
def newInstance (fuel : Nat) (t : TypeId) : DomainM ObjectId := do
  let l ← Registry.layout fuel t
  let fields ← l.instance_.mapM fun f => Domain.defaultValue fuel f.type
  let base ← Registry.firstHostBase fuel t
  let adaptor ← Domain.ask fun d =>
    base.bind fun base => d.registry.adaptors.find? (d.registry.typeName base)
  match adaptor.bind Adaptor.refusal with
  | some e => throw e
  | none => Domain.allocate (.instance_ t fields.toArray adaptor.isSome)

/-- Makes an object and runs a constructor on it and on the arguments from `argBase` up. -/
def constructAt (c : Callees) (fuel : Nat) (id : MethodId) (argBase : Nat) : RunM Unit := do
  let m ← method id
  let t := m.declaring
  ensureInitialized c fuel t
  if m.native?.isSome then callHost c fuel m argBase false
  else if ← isInline fuel t then do
    let d ← allocInline fuel t
    Stack.insert argBase (.block d)
    Stack.insert (argBase + 1) (.stackRef argBase)
    let _ ← c.run id (argBase + 1)
  else do
    let object ← (newInstance fuel t : DomainM ObjectId)
    let entry ← Stack.pushEntry (.object object)
    Stack.insert argBase (.object entry)
    let _ ← c.run id argBase
    Stack.pushObject (.object object)

/-! ### Calls from the host -/

/-- Leaves the stack as it was found, whatever becomes of `x`. -/
def restoring {α : Type} (x : RunM α) : RunM α := do
  let mark ← ask Stack.mark
  afterwards x (modifyStack (Stack.reset mark))

/-- Pushes values as operands of these types. -/
def pushAll (fuel : Nat) (args : List Value) (types : List TypeId) : RunM Unit :=
  (args.zip types).forM fun (v, t) => pushValue fuel v t

/-- Calls a method on values; a void call has no result. -/
def invokeHost (c : Callees) (fuel : Nat) (id : MethodId) (receiver : Option Value)
    (args : List Value) : RunM (Option Value) := restoring do
  let m ← method id
  let start ← ask Stack.top
  let argBase ← match receiver with
    | none => pure start
    | some v => do
      if ← isInline fuel m.declaring then do
        let d ← materialize fuel v m.declaring
        Stack.push (.block d)
        Stack.push (.stackRef start)
        pure (start + 1)
      else do
        Stack.pushObject v
        pure start
  pushAll fuel args m.params
  invokeAt c fuel id m argBase
  if (← descriptor m.ret).isVoid then return none
  else return some (← readValue fuel (← read (·.topSlot)) m.ret)

/-- Makes an object from values. -/
def constructHost (c : Callees) (fuel : Nat) (id : MethodId) (args : List Value) : RunM Value :=
  restoring do
    let m ← method id
    let argBase ← ask Stack.top
    pushAll fuel args m.params
    constructAt c fuel id argBase
    readValue fuel (← read (·.topSlot)) m.declaring

end Engine

end ManagedMachine
