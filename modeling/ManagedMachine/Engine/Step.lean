import ManagedMachine.Engine.Fields
import ManagedMachine.Engine.Unwinding

/-!
The execution of one instruction. Everything that an instruction does to the machine happens here;
which instruction comes next is the answer.
-/

set_option autoImplicit false
set_option relaxedAutoImplicit false

namespace ManagedMachine.Engine

/-! ### Operands of instructions -/

/-- The address of an argument of the frame. -/
def argAddr (f : Frame) (n : UInt16) : RunM Nat := do
  if n.toNat < f.argCount then return f.argBase + n.toNat
  else throw (.malformed (.noArgument n.toNat (← fullName f.method)))

/-- The address of a local of the frame. -/
def localAddr (f : Frame) (n : UInt16) : RunM Nat := do
  if n.toNat < f.localCount then return f.localBase + n.toNat
  else throw (.malformed (.noLocal n.toNat (← fullName f.method)))

/-- The type that an instruction names. -/
def typeOperand (f : Frame) (token : Token) : RunM TypeId :=
  (Registry.resolveTypeToken f.home token f.context : RegistryM TypeId)

/-- The field that an instruction names. -/
def fieldOperand (fuel : Nat) (f : Frame) (token : Token) : RunM Field :=
  (Registry.resolveField fuel f.home token f.context : RegistryM Field)

/-- The method that an instruction names, if the engine has it. -/
def methodOperand (fuel : Nat) (f : Frame) (token : Token) : RunM (Option MethodId) :=
  (Registry.resolveMethod fuel f.home token f.context : RegistryM (Option MethodId))

/-- Where the last `count` operands of the frame start. -/
def operandsBase (f : Frame) (count : Nat) : RunM Nat := do
  let top ← ask Stack.top
  if f.evalBase + count ≤ top then return top - count
  else do stackFault (.callOperands (← fullName f.method) count)

/-! ### Calls -/

/-- Calls the method of a token. A call that has nothing to do only takes its operand. -/
def call (c : Callees) (fuel : Nat) (f : Frame) (token : Token) (virtual_ : Bool) : RunM Unit := do
  match ← methodOperand fuel f token with
  | none => pop
  | some id =>
    let base ← operandsBase f (← method id).argCount
    callMethod c fuel id base virtual_

/-- Makes an object and calls its constructor with the operands on top. -/
def newObject (c : Callees) (fuel : Nat) (f : Frame) (token : Token) : RunM Unit := do
  match ← methodOperand fuel f token with
  | none => do
    let t ← (Registry.coreType CoreLibrary.objectName : RegistryM TypeId)
    Stack.pushObject (← (Domain.newObject (.native t .unit) : DomainM Value))
  | some id =>
    let base ← operandsBase f (← method id).params.length
    constructAt c fuel id base

/-- The value that the method returns. -/
def returnValue (fuel : Nat) (f : Frame) : RunM (Option Carry) := do
  if (← descriptor f.method.ret).isVoid then return none
  else
    let carry ← detach fuel (← loadTop)
    pop
    return some carry

/-- Raises the operand on top. -/
def throwTop {α : Type} : RunM α := do
  let v ← referenceValue (← top)
  if v.isNull then nullReference else throw (.exception ⟨v, []⟩)

/-! ### Instructions -/

/-- An instruction that control passes through to the next one. -/
def onward (f : Frame) (x : RunM Unit) : RunM (Outcome × Frame) := do
  x
  return (.next, f)

/-- Where control goes on after a clause. -/
def arrive (x : RunM (Arrival × Frame)) : RunM (Outcome × Frame) := do
  match ← x with
  | (.at addr, f) => return (.jump addr, f)
  | (.raise raised, f) => return (.raise raised, f)

/-- Executes the instruction at `addr`. -/
def step (c : Callees) (fuel : Nat) (f : Frame) (addr : Nat) :
    Instruction → RunM (Outcome × Frame)
  | .nop => onward f (pure ())
  | .breakpoint => onward f breakpoint
  | .constInt32 v => onward f (push (.int32 v))
  | .constInt64 v => onward f (push (.int64 v))
  | .constSingle v => onward f (push (.single v))
  | .constDouble v => onward f (push (.double v))
  | .loadNull => onward f (push .null)
  | .loadString token => onward f do
    let s ← (Registry.resolveString f.home token : RegistryM String)
    Stack.pushObject (.string s)
  | .loadArg n => onward f do pushCopy fuel (← argAddr f n)
  | .loadArgAddr n => onward f do push (.stackRef (← argAddr f n))
  | .storeArg n => onward f do storeTop fuel (← argAddr f n)
  | .loadLocal n => onward f do pushCopy fuel (← localAddr f n)
  | .loadLocalAddr n => onward f do push (.stackRef (← localAddr f n))
  | .storeLocal n => onward f do storeTop fuel (← localAddr f n)
  | .dup => onward f do pushCopy fuel (← read (·.topAddr))
  | .pop => onward f pop
  | .binary op => onward f (binary op)
  | .neg => onward f (unary Slot.negate)
  | .compareEq => onward f (pushComparison .eq)
  | .compareGt => onward f (pushComparison .gt)
  | .compareLt => onward f (pushComparison .lt)
  | .convert target => onward f (unary (·.convert target))
  | .branch target => return (.jump target.toNat, f)
  | .branchTrue target => return (← branchIf true target, f)
  | .branchFalse target => return (← branchIf false target, f)
  | .branchOn op target => return (← branchOn op target, f)
  | .leave target => arrive (leave f addr target.toNat)
  | .endFinally => arrive (endFinally f)
  | .call token => onward f (call c fuel f token false)
  | .callVirtual token => onward f (call c fuel f token true)
  | .newObject token => onward f (newObject c fuel f token)
  | .ret => return (.ret (← returnValue fuel f), f)
  | .loadField token => onward f do loadField c fuel (← fieldOperand fuel f token)
  | .loadFieldAddr token => onward f do loadFieldAddr fuel (← fieldOperand fuel f token)
  | .storeField token => onward f do storeField c fuel (← fieldOperand fuel f token)
  | .loadStatic token => onward f do loadStatic c fuel (← fieldOperand fuel f token)
  | .loadStaticAddr token => onward f do loadStaticAddr c fuel (← fieldOperand fuel f token)
  | .storeStatic token => onward f do
    storeStatic c fuel (← fieldOperand fuel f token)
    pop
  | .newArray token => onward f do newArray fuel (← typeOperand f token)
  | .loadLength => onward f loadLength
  | .loadElement => onward f (loadElement fuel)
  | .storeElement => onward f (storeElement fuel)
  | .loadElementAddr _ => onward f loadElementAddr
  | .loadObject token => onward f do loadObject fuel (← typeOperand f token)
  | .storeObject token => onward f do storeObjectThrough fuel (← typeOperand f token)
  | .initObject token => onward f do initObject fuel (← typeOperand f token)
  | .box token => onward f do box fuel (← typeOperand f token)
  | .unboxAny token => onward f do unboxAny fuel (← typeOperand f token)
  | .castClass token => onward f do cast fuel (← typeOperand f token) true
  | .isInstance token => onward f do cast fuel (← typeOperand f token) false
  | .throw => throwTop
  | .rethrow => rethrow f addr

end ManagedMachine.Engine
