import ManagedMachine.Engine.Operands

/-!
Access to fields. A field of a host type goes through its bound delegates, else through a bound
getter or setter, else through the one that the host type came with.
-/

set_option autoImplicit false
set_option relaxedAutoImplicit false

namespace ManagedMachine.Engine

def fieldKey (field : Field) : RunM String := Domain.ask fun d => d.registry.fieldKey field

/-- The type has no code for this access to the field. -/
def noAccessor {α : Type} (field : Field) (verb : String) : RunM α := do
  throw (.fieldNotFound (verb ++ field.name) (← nameOfType field.declaring))

/-- Pushes the value of a host field. -/
def loadHost (c : Callees) (fuel : Nat) (field : Field) (receiver : Option Value) : RunM Unit := do
  let key ← fieldKey field
  let bindings ← (Domain.ask (·.bindings) : DomainM Bindings)
  match bindings.delegates? key with
  | some delegates =>
    let pushed ← runDelegate c fuel ⟨field, receiver, none⟩ delegates.copy
    if pushed then pure () else stackFault (.pushedNothing key)
  | none =>
    match bindings.getter? key <|> field.native.bind HostField.get with
    | some get => do
      let v ← Domain.runHost (get receiver)
      pushValue fuel v field.type
    | none => noAccessor field "get_"

/-- Stores the top operand to a host field; the operand stays. -/
def storeHost (c : Callees) (fuel : Nat) (field : Field) (receiver : Option Value) : RunM Unit := do
  let key ← fieldKey field
  let bindings ← (Domain.ask (·.bindings) : DomainM Bindings)
  match bindings.delegates? key with
  | some delegates => do
    let addr ← read (·.topAddr)
    let _ ← runDelegate c fuel ⟨field, receiver, some addr⟩ delegates.assign
  | none =>
    let v ← carryValue fuel (← loadTop) field.type
    match bindings.setter? key <|> field.native.bind HostField.set with
    | some set => Domain.runHost (set receiver v)
    | none => noAccessor field "set_"

/-- The receiver of an access to a host field. -/
def hostReceiver (fuel : Nat) : Target → RunM Value
  | .object id => return .object id
  | .block d => snapshot fuel d
  | .null => nullReference

/-! ### Static fields -/

/-- Pushes a static field, once its type is initialized. -/
def loadStatic (c : Callees) (fuel : Nat) (field : Field) : RunM Unit := do
  if field.native.isSome then loadHost c fuel field none
  else
    ensureInitialized c fuel field.declaring
    let v ← (Domain.static fuel field.declaring field.index : DomainM Value)
    pushValue fuel v field.type

/-- Stores the top operand to a static field; the operand stays. -/
def storeStatic (c : Callees) (fuel : Nat) (field : Field) : RunM Unit := do
  if field.native.isSome then storeHost c fuel field none
  else
    let v ← carryValue fuel (← loadTop) field.type
    ensureInitialized c fuel field.declaring
    Domain.setStatic fuel field.declaring field.index v

/-- Pushes the address of a static field. -/
def loadStaticAddr (c : Callees) (fuel : Nat) (field : Field) : RunM Unit := do
  if field.native.isSome then
    throw (.unsupportedReference s!"address of native static field {← fieldKey field}")
  else
    ensureInitialized c fuel field.declaring
    push (.staticRef field.declaring field.index)

/-! ### Instance fields -/

/-- The operand on top gives way to the value of its field. -/
def loadField (c : Callees) (fuel : Nat) (field : Field) : RunM Unit := do
  if field.isStatic then
    pop
    loadStatic c fuel field
  else
    let target ← targetOf fuel (← top)
    if field.native.isSome then do
      let receiver ← hostReceiver fuel target
      pop
      loadHost c fuel field (some receiver)
    else
      match target with
      | .null => nullReference
      | .block d => do
        let carry ← detach fuel (← loadCarry (← read (·.fieldAddr d field.index)))
        pop
        pushCarry fuel carry field.type
      | .object id => do
        let v ← (Domain.field id field.index : DomainM Value)
        pop
        pushValue fuel v field.type

/-- The operand on top gives way to the address of its field. -/
def loadFieldAddr (fuel : Nat) (field : Field) : RunM Unit := do
  if field.native.isSome then
    throw (.unsupportedReference s!"address of native field {← fieldKey field}")
  else
    let s ← top
    match s with
    | .block _ => do
      throw (.unsupportedReference
        s!"address of field {← fieldKey field} of a value on the evaluation stack")
    | _ =>
      match ← targetOf fuel s with
      | .null => nullReference
      | .block d => do
        let addr ← read (·.fieldAddr d field.index)
        replaceBy 1 (.stackRef addr)
      | .object id => refineTop id fun entry => .fieldRef entry field.index

/-- Stores the top operand to a field of the operand below it. -/
def storeField (c : Callees) (fuel : Nat) (field : Field) : RunM Unit := do
  if field.isStatic then storeStatic c fuel field
  else
    let target ← targetOf fuel (← peek 1)
    if field.native.isSome then do
      let receiver ← hostReceiver fuel target
      storeHost c fuel field (some receiver)
    else
      let carry ← loadTop
      match target with
      | .null => nullReference
      | .block d => do storeInto fuel (← read (·.fieldAddr d field.index)) carry
      | .object id => do
        let v ← carryValue fuel carry field.type
        Domain.setField id field.index v
  Stack.popMany 2

end ManagedMachine.Engine
