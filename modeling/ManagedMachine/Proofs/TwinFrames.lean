import ManagedMachine.Proofs.CallProtection
import ManagedMachine.Proofs.TwinSteps

/-!
# Frames on twins

The frame of a method finds its arguments on the stack and puts its locals there, so it works within
the set. When it is left, the blocks that it made go; none of the caller's has grown over the place
where they began, which is a level of the guard while the frame runs. So every method leaves twins
behind, whatever it does and however it ends, and with it all that the engine calls.
-/

set_option autoImplicit false
set_option relaxedAutoImplicit false

namespace ManagedMachine

open Engine

variable {α β : Type} {g : Guard} {K : Set Nat} {r r' : Running}

/-- What is pending in a frame is no part of what it reaches. -/
theorem Frame.Within.update {f : Frame} (h : f.Within K) (unwinds : List Unwind)
    (caught : List (Nat × Raised)) : { f with unwinds, caught }.Within K := ⟨h.arg, h.loc⟩

/-- What follows an instruction stays within the set. -/
structure Frame.Passes (K : Set Nat) (p : Outcome × Frame) : Prop where
  within : p.2.Within K
  result {v : Option Carry} : p.1 = .ret v → ∀ carry ∈ v, carry.Leads K

/-- What the frame goes on with, or returns, leads to the set. -/
def Engine.Control.Leads (K : Set Nat) : Control → Prop
  | .at _ f => f.Within K
  | .done v => ∀ carry ∈ v, carry.Leads K

namespace Engine

variable {c : Callees} {f : Frame}

/-! ### Exceptions -/

/-- What comes after the last clause depends on the frame alone. -/
theorem gives_finish (h : Running.Twin g K r r') (hg : g.Shields) (hf : f.Within K)
    (resume : Resume) : Gives (Running.Twin g) K (finish f resume) r r'
      fun K' p _ ↦ p.2.Within K' := by
  cases resume with
  | leave target => exact .pure h hf
  | «catch» c raised =>
    exact (h.popTo hg _).seq fun _ _ _ _ hK h _ ↦ (h.pushObject _).seq fun _ _ _ _ hK' h _ ↦
      .pure h ((hf.update _ _).mono (hK.trans hK'))
  | propagate raised => exact .pure h hf

theorem gives_unwind (h : Running.Twin g K r r') (hg : g.Shields) (hf : f.Within K)
    (clauses : List Nat) (resume : Resume) : Gives (Running.Twin g) K (unwind f clauses resume) r r'
      fun K' p _ ↦ p.2.Within K' := by
  unfold unwind
  split
  · exact gives_finish h hg hf resume
  · exact .pure h (hf.update _ _)

/-- The clauses of a frame are compared with the type of the exception, which twins share. -/
theorem gives_handleException (h : Running.Twin g K r r') (hg : g.Shields) (fuel : Nat)
    (hf : f.Within K) (addr : Nat) (raised : Raised) :
    Gives (Running.Twin g) K (handleException fuel f addr raised) r r'
      fun K' p _ ↦ p.2.Within K' :=
  Sees.andThen h (sees_withTrace h raised) fun raised _ _ _ h _ ↦
    Sees.andThen h (sees_selectCatch h fuel f raised.value _ addr) fun _ _ _ _ h _ ↦
      (h.popTo hg _).seq fun _ _ _ _ hK h _ ↦
        gives_unwind h hg ((hf.update _ _).mono hK) _ _

theorem gives_leave (h : Running.Twin g K r r') (hg : g.Shields) (hf : f.Within K)
    (addr target : Nat) : Gives (Running.Twin g) K (leave f addr target) r r'
      fun K' p _ ↦ p.2.Within K' :=
  (h.popTo hg _).seq fun _ _ _ _ hK h _ ↦
    gives_unwind h hg ((hf.update _ _).mono hK) _ _

/-- The end of a clause. -/
theorem gives_endFinally (h : Running.Twin g K r r') (hg : g.Shields) (hf : f.Within K) :
    Gives (Running.Twin g) K (endFinally f) r r' fun K' p _ ↦ p.2.Within K' := by
  unfold endFinally
  split
  · exact Sees.andThen h (.fullName h _) fun _ _ _ _ h _ ↦ .throw h _
  · exact (h.popTo hg _).seq fun _ _ _ _ hK h _ ↦
      .pure h ((hf.update _ _).mono hK)
  · exact gives_finish h hg (hf.update _ _) _

/-! ### Instructions -/

theorem gives_onward {x : RunM Unit} (hx : Alike (Running.Twin g) K x r r') (hf : f.Within K) :
    Gives (Running.Twin g) K (onward f x) r r' fun K' p _ ↦ Frame.Passes K' p :=
  hx.seq fun _ _ _ _ hK h _ ↦ .pure h ⟨hf.mono hK, nofun⟩

theorem gives_arrive {x : RunM (Arrival × Frame)}
    (hx : Gives (Running.Twin g) K x r r' fun K' p _ ↦ p.2.Within K') :
    Gives (Running.Twin g) K (arrive x) r r' fun K' p _ ↦ Frame.Passes K' p := by
  refine hx.bind fun K' p t t' _ _ h hf ↦ ?_
  obtain ⟨arrival, f⟩ := p
  cases arrival <;> exact .pure h ⟨hf, nofun⟩

theorem gives_branching {x : RunM Outcome} (hf : f.Within K)
    (hx : Gives (Running.Twin g) K x r r' fun _ o _ ↦ ∀ v, o ≠ .ret v) :
    Gives (Running.Twin g) K (do return (← x, f)) r r' fun K' p _ ↦ Frame.Passes K' p :=
  hx.bind fun _ _ _ _ _ hK h hret ↦ .pure h ⟨hf.mono hK, fun hv ↦ absurd hv (hret _)⟩

/-- What is done at an address that the frame looks up is done within the set. -/
theorem alike_addressed (h : Running.Twin g K r r') {addrOf : RunM Nat}
    (haddr : Sees addrOf r r' (· ∈ K)) {x : Nat → RunM Unit}
    (hx : ∀ d a, Running.Twin g K (r.withDomain d) (r'.withDomain d) → a ∈ K →
      Alike (Running.Twin g) K (x a) (r.withDomain d) (r'.withDomain d)) :
    Alike (Running.Twin g) K (addrOf >>= x) r r' :=
  Sees.andThen h haddr fun a d _ _ h ha ↦ hx d a h ha

/-- An instruction that names a type, once its token is resolved. -/
theorem alike_typed (h : Running.Twin g K r r') (f : Frame) (token : Token) {x : TypeId → RunM Unit}
    (hx : ∀ d t, Running.Twin g K (r.withDomain d) (r'.withDomain d) →
      Alike (Running.Twin g) K (x t) (r.withDomain d) (r'.withDomain d)) :
    Alike (Running.Twin g) K (typeOperand f token >>= x) r r' :=
  Sees.andThen h (sees_typeOperand h f token) fun t d _ _ h _ ↦ hx d t h

/-- The same for one that names a field. -/
theorem alike_fielded (h : Running.Twin g K r r') (fuel : Nat) (f : Frame) (token : Token)
    {x : Field → RunM Unit}
    (hx : ∀ d field, Running.Twin g K (r.withDomain d) (r'.withDomain d) →
      Alike (Running.Twin g) K (x field) (r.withDomain d) (r'.withDomain d)) :
    Alike (Running.Twin g) K (fieldOperand fuel f token >>= x) r r' :=
  Sees.andThen h (sees_fieldOperand h fuel f token) fun field d _ _ h _ ↦ hx d field h

theorem alike_loadString (h : Running.Twin g K r r') (f : Frame) (token : Token) :
    Alike (Running.Twin g) K (do
      let s ← (Registry.resolveString f.home token : RegistryM String)
      Stack.pushObject (.string s)) r r' :=
  Sees.andThen h (.registry h (Registry.grows_resolveString _ _)) fun _ _ _ _ h _ ↦ h.pushObject _

theorem alike_storeStaticTop (hc : c.Twins) (hg : g.Shields) (h : Running.Twin g K r r')
    (fuel : Nat) (f : Frame) (token : Token) :
    Alike (Running.Twin g) K (do
      storeStatic c fuel (← fieldOperand fuel f token)
      pop) r r' :=
  alike_fielded h fuel f token fun _ field h ↦
    (alike_storeStatic hc hg h fuel field).seq fun _ _ _ _ _ h _ ↦ h.pop hg

theorem gives_return (h : Running.Twin g K r r') (hg : g.Shields) (fuel : Nat) (hf : f.Within K) :
    Gives (Running.Twin g) K (do return (.ret (← returnValue fuel f), f)) r r'
      fun K' p _ ↦ Frame.Passes K' p := by
  refine (gives_returnValue h hg fuel f).bind fun _ v _ _ _ hK h hv ↦ .pure h ⟨hf.mono hK, ?_⟩
  rintro _ ⟨⟩
  exact hv

/-- Every instruction leaves twins, and a frame that is within the set. -/
theorem gives_step (hc : c.Twins) (hg : g.Shields) (h : Running.Twin g K r r') (fuel : Nat)
    (hf : f.Within K) (addr : Nat) (i : Instruction) :
    Gives (Running.Twin g) K (step c fuel f addr i) r r' fun K' p _ ↦ Frame.Passes K' p := by
  have honward {x : RunM Unit} (hx : Alike (Running.Twin g) K x r r') := gives_onward hx hf
  cases i with
  | nop => exact honward (.pure h trivial)
  | breakpoint => exact honward (Sees.gives h (sees_breakpoint h)).alike
  | constInt32 v => exact honward (h.push (.of_numeric rfl))
  | constInt64 v => exact honward (h.push (.of_numeric rfl))
  | constSingle v => exact honward (h.push (.of_numeric rfl))
  | constDouble v => exact honward (h.push (.of_numeric rfl))
  | loadNull => exact honward (h.push ⟨.of_none rfl, rfl⟩)
  | loadString token => exact honward (alike_loadString h f token)
  | loadArg n =>
    exact honward (alike_addressed h (sees_argAddr h hf n) fun _ _ h ha ↦
      alike_pushCopy h fuel ha)
  | loadArgAddr n =>
    exact honward (alike_addressed h (sees_argAddr h hf n) fun _ _ h ha ↦ h.push (.stackRef ha))
  | storeArg n =>
    exact honward (alike_addressed h (sees_argAddr h hf n) fun _ _ h ha ↦
      alike_storeTop h hg fuel ha)
  | loadLocal n =>
    exact honward (alike_addressed h (sees_localAddr h hf n) fun _ _ h ha ↦
      alike_pushCopy h fuel ha)
  | loadLocalAddr n =>
    exact honward (alike_addressed h (sees_localAddr h hf n) fun _ _ h ha ↦ h.push (.stackRef ha))
  | storeLocal n =>
    exact honward (alike_addressed h (sees_localAddr h hf n) fun _ _ h ha ↦
      alike_storeTop h hg fuel ha)
  | dup =>
    exact honward (alike_addressed h (sees_topAddr h) fun _ _ h ha ↦ alike_pushCopy h fuel ha)
  | pop => exact honward (h.pop hg)
  | binary op => exact honward (alike_binary h hg op)
  | neg => exact honward (alike_unary h hg fun _ _ ↦ Slot.isNumeric_negate)
  | compareEq => exact honward (alike_pushComparison h hg .eq)
  | compareGt => exact honward (alike_pushComparison h hg .gt)
  | compareLt => exact honward (alike_pushComparison h hg .lt)
  | convert target => exact honward (alike_unary h hg fun _ _ ↦ Slot.isNumeric_convert)
  | branch target => exact .pure h ⟨hf, nofun⟩
  | branchTrue target => exact gives_branching hf (gives_branchIf h hg true target)
  | branchFalse target => exact gives_branching hf (gives_branchIf h hg false target)
  | branchOn op target => exact gives_branching hf (gives_branchOn h hg op target)
  | leave target => exact gives_arrive (gives_leave h hg hf addr _)
  | endFinally => exact gives_arrive (gives_endFinally h hg hf)
  | call token => exact honward (alike_call hc hg h fuel f token false)
  | callVirtual token => exact honward (alike_call hc hg h fuel f token true)
  | newObject token => exact honward (alike_newObject hc hg h fuel f token)
  | ret => exact gives_return h hg fuel hf
  | loadField token =>
    exact honward (alike_fielded h fuel f token fun _ field h ↦
      alike_loadField hc hg h fuel field)
  | loadFieldAddr token =>
    exact honward (alike_fielded h fuel f token fun _ field h ↦
      alike_loadFieldAddr h hg fuel field)
  | storeField token =>
    exact honward (alike_fielded h fuel f token fun _ field h ↦
      alike_storeField hc hg h fuel field)
  | loadStatic token =>
    exact honward (alike_fielded h fuel f token fun _ field h ↦
      alike_loadStatic hc hg h fuel field)
  | loadStaticAddr token =>
    exact honward (alike_fielded h fuel f token fun _ field h ↦
      alike_loadStaticAddr hc hg h fuel field)
  | storeStatic token => exact honward (alike_storeStaticTop hc hg h fuel f token)
  | newArray token => exact honward (alike_typed h f token fun _ t h ↦ alike_newArray h hg fuel t)
  | loadLength => exact honward (alike_loadLength h hg)
  | loadElement => exact honward (alike_loadElement h hg fuel)
  | storeElement => exact honward (alike_storeElement h hg fuel)
  | loadElementAddr token => exact honward (alike_loadElementAddr h hg)
  | loadObject token =>
    exact honward (alike_typed h f token fun _ t h ↦ alike_loadObject h hg fuel t)
  | storeObject token =>
    exact honward (alike_typed h f token fun _ t h ↦ alike_storeObjectThrough h hg fuel t)
  | initObject token =>
    exact honward (alike_typed h f token fun _ t h ↦ alike_initObject h hg fuel t)
  | box token => exact honward (alike_typed h f token fun _ t h ↦ alike_box h hg fuel t)
  | unboxAny token => exact honward (alike_typed h f token fun _ t h ↦ alike_unboxAny h hg fuel t)
  | castClass token =>
    exact honward (alike_typed h f token fun _ t h ↦ alike_cast h hg fuel t true)
  | isInstance token =>
    exact honward (alike_typed h f token fun _ t h ↦ alike_cast h hg fuel t false)
  | throw => exact Sees.never h (sees_throwTop h)
  | rethrow => exact Sees.never h (sees_rethrow h f addr)

end Engine

end ManagedMachine
