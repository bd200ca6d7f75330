import ManagedMachine.Engine.Invocation
import ManagedMachine.Engine.Step

/-!
The interpreter. A method runs instruction by instruction until it returns or an exception leaves
it; its calls, and host code that calls back, run the same way with less fuel. The answer
`Error.outOfFuel` stands for a run that the bound was too small for, and nothing catches it.
-/

set_option autoImplicit false
set_option relaxedAutoImplicit false

namespace ManagedMachine.Engine

/-- What follows an instruction. -/
inductive Control where
  | at (addr : Nat) (f : Frame)
  | done (value : Option Carry)

/-- Sends a raised exception to a clause of the frame; without one, the frame is left. -/
def dispatch (fuel : Nat) (f : Frame) (addr : Nat) (raised : Raised) : RunM Control := do
  match ← handleException fuel f addr raised with
  | (.at addr, f) => return .at addr f
  | (.raise raised, _) => throw (.exception raised)

/-- Executes an instruction, and handles the exception if it raises one. -/
def advance (c : Callees) (fuel : Nat) (f : Frame) (addr : Nat) (i : Instruction) :
    RunM Control := fun r =>
  match step c fuel f addr i r with
  | .ok (.next, f) r => .ok (.at (addr + 1) f) r
  | .ok (.jump target, f) r => .ok (.at target f) r
  | .ok (.ret v, _) r => .ok (.done v) r
  | .ok (.raise raised, f) r => dispatch fuel f addr raised r
  | .error (.exception raised) r => dispatch fuel f addr raised r
  | .error e r => .error e r

/-- Notes the address of the executing instruction. -/
def setAddress (addr : Nat) : RunM Unit :=
  modify fun
    | ⟨domain, id, stack, a :: frames⟩ => ⟨domain, id, stack, { a with addr } :: frames⟩
    | r => r

/-- Executes a frame from an address on. -/
def loop (c : Callees) : (fuel : Nat) → Frame → (addr : Nat) → RunM (Option Carry)
  | 0, _, _ => throw .outOfFuel
  | fuel + 1, f, addr =>
    match f.body.code[addr]? with
    | none => do throw (.malformed (.pastEnd (← fullName f.method) addr))
    | some i => do
      setAddress addr
      match ← advance c fuel f addr i with
      | .at addr f => loop c fuel f addr
      | .done v => return v

/-- Gives the null arguments of reference type an entry each, so that no reference to an argument
sees the entry of a callee. -/
def ownArguments (m : Method) (argBase : Nat) : RunM Unit :=
  m.params.zipIdx.forM fun (t, i) => do
    let addr := argBase + m.flags.hasThis.toNat + i
    if (← descriptor t).primitive?.isNone then
      match ← read (·.slotAt addr) with
      | .null => do
        let entry ← Stack.pushEntry .null
        Stack.setSlot addr (.object entry)
      | _ => pure ()
    else pure ()

/-- Puts the locals of a method after its arguments. The answer is where they start and how many
there are. -/
def placeLocals (fuel : Nat) (id : MethodId) (m : Method) (argBase : Nat) : RunM (Nat × Nat) := do
  let argCount := m.argCount
  let found ← ask Stack.top
  if found ≠ argBase + argCount then
    stackFault (.argumentSlots (← fullName m) argCount (found - argBase))
  else
    ownArguments m argBase
    let locals ← (Registry.localsOf id : RegistryM (List TypeId))
    let localBase ← ask Stack.top
    locals.forM fun t => do push (← defaultSlot fuel t)
    return (localBase, locals.length)

/-- Sets up the frame of a method on its arguments: the locals follow them, and the operands follow
the locals. -/
def openFrame (fuel : Nat) (id : MethodId) (m : Method) (body : Body) (home : ModuleId)
    (argBase : Nat) : RunM Frame := do
  let (localBase, localCount) ← placeLocals fuel id m argBase
  modifyStack Stack.sealLocals
  return ⟨id, m, body, home, argBase, m.argCount, localBase, localCount, ← ask Stack.top, [], []⟩

/-- The method is the one that is executing now. -/
def pushActivation (id : MethodId) : RunM Unit :=
  modify fun ⟨domain, n, stack, frames⟩ => ⟨domain, n, stack, ⟨id, 0⟩ :: frames⟩

/-- The caller is executing again. -/
def popActivation : RunM Unit :=
  modify fun ⟨domain, n, stack, frames⟩ => ⟨domain, n, stack, frames.tail⟩

/-- Runs a method on the arguments from `argBase` up. They are gone afterwards, and with them
everything that the call allocated. -/
def runMethod (c : Callees) (fuel : Nat) (id : MethodId) (argBase : Nat) : RunM (Option Carry) := do
  let limit ← Domain.ask (·.config.maxCallDepth)
  let depth ← (fun r => .ok r.interpreter.frames.length r : RunM Nat)
  if limit ≤ depth then throw (.callDepth limit)
  let m ← method id
  match m.body?, m.home? with
  | some body, some (home, _) =>
    let mark ← ask Stack.mark
    let bounds ← ask Stack.bounds
    modifyStack Stack.enterFrame
    pushActivation id
    afterwards (do
      let f ← openFrame fuel id m body home.id argBase
      loop c fuel f 0)
      (do
        popActivation
        modifyStack fun s => (s.leaveFrame bounds).reset mark
        Stack.popTo argBase)
  | _, _ => do throw (.missingBody (← fullName m))

/-- The answer of a domain to a request of host code. -/
def answer (c : Callees) (fuel : Nat) : (r : DomainRequest) → DomainM r.Answer
  | .host r => Domain.serveHost r
  | .resolve name => Registry.resolve name
  | .allocate o => Domain.allocate o
  | .instantiate type args => Domain.instantiate c fuel type args
  | .invoke type name receiver args => Domain.invokeByName c fuel type name receiver args
  | .moduleCount => Domain.ask fun d => d.registry.modules.size

mutual

/-- Runs a method; the fuel bounds the nesting of calls, and the length of every one of them. -/
def run : (fuel : Nat) → Runner
  | 0, _, _ => throw .outOfFuel
  | fuel + 1, id, argBase => runMethod ⟨run fuel, serve fuel⟩ fuel id argBase

/-- Requests of host code on a domain. Running code may make them, and calls may be among them. -/
def serve : (fuel : Nat) → (r : DomainRequest) → DomainM r.Answer
  | 0, _ => throw .outOfFuel
  | fuel + 1, r => answer ⟨run fuel, serve fuel⟩ fuel r

end

/-- The engine with a bound on its work. -/
def callees (fuel : Nat) : Callees := ⟨run fuel, serve fuel⟩

end ManagedMachine.Engine
