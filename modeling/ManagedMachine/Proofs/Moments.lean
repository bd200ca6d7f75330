import ManagedMachine.Proofs.StepSpecs

/-!
# The moments of a run

A call opens a frame, executes instruction after instruction, and gives up what is left of it. The
machine before and after an instruction, with the frame that the instruction belongs to, is a
`Moment`. `Along P` says that every moment of a call satisfies `P`, the moments of the calls that
its instructions make included, however the call ends.

A call is cut into its opening, its moments and its end by `runMethod_entered` and `runMethod_past`.
An invariant of calls (`CallInvariant`) says what it needs at each of these places, and whoever
proves one gets the induction over the frames of a run from here, as well as the induction over the
instructions of a frame.
-/

set_option autoImplicit false
set_option relaxedAutoImplicit false

namespace ManagedMachine

open Engine

/-! ### Opening and closing a frame -/

namespace Running

/-- The machine when the body of a method begins. -/
def entered (r : Running) (id : MethodId) : Running :=
  ⟨r.domain, r.interpreter.id, r.stack.enterFrame, ⟨id, 0⟩ :: r.interpreter.frames⟩

/-- The machine when the frame of a call is left, and the arguments are still there. -/
def left (r entry : Running) : Running :=
  ⟨r.domain, r.interpreter.id, (r.stack.leaveFrame entry.stack.bounds).reset entry.stack.mark,
    r.interpreter.frames.tail⟩

/-- The machine with the address of the executing instruction noted. -/
def noting (r : Running) (addr : Nat) : Running := endState (setAddress addr) r

@[simp] theorem noting_stack (r : Running) (addr : Nat) : (r.noting addr).stack = r.stack := by
  obtain ⟨d, n, st, frames⟩ := r
  cases frames <;> rfl

@[simp] theorem noting_domain (r : Running) (addr : Nat) : (r.noting addr).domain = r.domain := by
  obtain ⟨d, n, st, frames⟩ := r
  cases frames <;> rfl

theorem noting_tail (r : Running) (addr : Nat) :
    (r.noting addr).interpreter.frames.tail = r.interpreter.frames.tail := by
  obtain ⟨d, n, st, frames⟩ := r
  cases frames <;> rfl

end Running

/-- A call gets past the checks before the body of its method. -/
structure Enters (r : Running) (id : MethodId) (body : Body) (home : ModuleId) : Prop where
  depth : r.interpreter.frames.length < r.domain.config.maxCallDepth
  body : (r.domain.registry.method id).body? = some body
  home : ∃ m token, (r.domain.registry.method id).home? = some (m, token) ∧ m.id = home

/-- A machine with nothing on its stack and methods without parameters or locals, one for each piece
of code. -/
def Running.sample (codes : List (Array Instruction)) : Running where
  domain := { (default : Domain) with
    registry := { Registry.empty with
      methods := (codes.map fun code ↦
        { (default : Method) with
          origin := .interpreted ⟨⟨0⟩, .empty ""⟩ ⟨0⟩ (some ⟨[], code, []⟩) }).toArray } }
  interpreter := .fresh 0 8

/-- The same with operands on its stack. -/
def Running.sampleOn (codes : List (Array Instruction)) (operands : List Slot) : Running :=
  let r := Running.sample codes
  { r with interpreter := { r.interpreter with
      stack := endState (operands.forM Stack.push) r.stack } }

namespace Engine

/-- The part of a call between the opening and the closing of its frame. -/
def runBody (c : Callees) (fuel : Nat) (id : MethodId) (m : Method) (body : Body) (home : ModuleId)
    (argBase : Nat) : RunM (Option Carry) := do
  let f ← openFrame fuel id m body home argBase
  loop c fuel f 0

/-- Gives the arguments of a call up. -/
def popArguments (argBase : Nat) : RunM Unit := Stack.popTo argBase

variable {c : Callees} {fuel : Nat} {id : MethodId} {argBase : Nat} {r : Running}

/-- Past the bound on the depth, a call runs the body of the method and drops what is left of the
arguments. -/
theorem runMethod_past (hdepth : ¬r.domain.config.maxCallDepth ≤ r.interpreter.frames.length) :
    runMethod c fuel id argBase r =
      (match (r.domain.registry.method id).body?, (r.domain.registry.method id).home? with
      | some body, some (home, _) =>
        afterwards (runBody c fuel id (r.domain.registry.method id) body home.id argBase) (do
          popActivation
          modifyStack fun s ↦ (s.leaveFrame r.stack.bounds).reset r.stack.mark
          popArguments argBase) (r.entered id)
      | _, _ => .error (.missingBody (r.domain.registry.fullName (r.domain.registry.method id)))
          r) := by
  have hmethod : method id r = .ok (r.domain.registry.method id) r := rfl
  change (ite (r.domain.config.maxCallDepth ≤ r.interpreter.frames.length) _ _ : RunM _) r = _
  rw [if_neg hdepth, bind_of_ok hmethod]
  cases (r.domain.registry.method id).body? with
  | none => rfl
  | some body =>
    cases (r.domain.registry.method id).home? with
    | none => rfl
    | some p => rfl

/-- Without a body, or past the bound, a call fails at once and changes nothing. -/
theorem runMethod_refused (c : Callees) (fuel argBase : Nat)
    (h : ¬∃ body home, Enters r id body home) :
    ∃ e, (∀ raised, e ≠ .exception raised) ∧ runMethod c fuel id argBase r = .error e r := by
  by_cases hdepth : r.domain.config.maxCallDepth ≤ r.interpreter.frames.length
  · refine ⟨.callDepth r.domain.config.maxCallDepth, nofun, ?_⟩
    change (ite (r.domain.config.maxCallDepth ≤ r.interpreter.frames.length) _ _ : RunM _) r = _
    rw [if_pos hdepth]
    rfl
  · rw [runMethod_past hdepth]
    split
    · next body m token hbody hhome =>
      exact absurd ⟨body, m.id, Nat.lt_of_not_le hdepth, hbody, m, token, hhome, rfl⟩ h
    · refine ⟨_, ?_, rfl⟩
      exact nofun

/-- A call that enters its method is the body, and then the release of what the frame has left. -/
theorem runMethod_entered {body : Body} {home : ModuleId} (h : Enters r id body home) :
    runMethod c fuel id argBase r =
      match runBody c fuel id (r.domain.registry.method id) body home argBase (r.entered id) with
      | .ok result r₁ =>
        match popArguments argBase (r₁.left r) with
        | .ok _ r₂ => .ok result r₂
        | .error e r₂ => .error e r₂
      | .error e r₁ => .error e (endState (popArguments argBase) (r₁.left r)) := by
  obtain ⟨hdepth, hbody, m, token, hhome, rfl⟩ := h
  rw [runMethod_past (Nat.not_le.mpr hdepth)]
  simp only [hbody, hhome, afterwards]
  cases runBody c fuel id (r.domain.registry.method id) body m.id argBase (r.entered id) with
  | ok result r₁ => rfl
  | error e r₁ =>
    have hclose : (do
        popActivation
        modifyStack fun s ↦ (s.leaveFrame r.stack.bounds).reset r.stack.mark
        popArguments argBase) r₁ = popArguments argBase (r₁.left r) := rfl
    simp only [hclose, endState]
    cases popArguments argBase (r₁.left r) <;> rfl

end Engine

/-! ### Moments -/

/-- An instruction of a call: the machine when the call began, the bound on its work that is left,
and the machine before and after the instruction. -/
structure Moment where
  entry : Running
  fuel : Nat
  frame : Frame
  addr : Nat
  instruction : Instruction
  before : Running
  after : Running

namespace Engine

variable {α : Type}

/-- A result of `x` satisfies `good`, and the machine after a failure satisfies `bad`. -/
def Ends (x : RunM α) (r : Running) (good : α → Running → Prop) (bad : Running → Prop) : Prop :=
  match x r with
  | .ok a r' => good a r'
  | .error _ r' => bad r'

theorem Ends.imp {x : RunM α} {r : Running} {good good' : α → Running → Prop}
    {bad bad' : Running → Prop} (h : Ends x r good bad) (hgood : ∀ a r', good a r' → good' a r')
    (hbad : ∀ r', bad r' → bad' r') : Ends x r good' bad' := by
  unfold Ends at h ⊢
  split at h
  · exact hgood _ _ h
  · exact hbad _ h

/-- Two facts about one computation. -/
theorem Ends.and {x : RunM α} {r : Running} {good good' : α → Running → Prop}
    {bad bad' : Running → Prop} (h : Ends x r good bad) (h' : Ends x r good' bad') :
    Ends x r (fun a r' ↦ good a r' ∧ good' a r') fun r' ↦ bad r' ∧ bad' r' := by
  unfold Ends at h h' ⊢
  cases hx : x r with
  | ok a r' =>
    rw [hx] at h h'
    exact ⟨h, h'⟩
  | error e r' =>
    rw [hx] at h h'
    exact ⟨h, h'⟩

/-- Code that cannot end well ends with a failure. -/
theorem Ends.fails {x : RunM α} {r : Running} {bad : Running → Prop}
    (h : Ends x r (fun _ _ ↦ False) bad) : bad (ManagedMachine.endState x r) := by
  unfold Ends at h
  cases hx : x r with
  | ok a r' =>
    rw [hx] at h
    exact h.elim
  | error e r' =>
    rw [hx] at h
    exact endState_error hx ▸ h

/-- Code that cannot fail has a result. -/
theorem Ends.succeeds {x : RunM α} {r : Running} {good : α → Running → Prop}
    (h : Ends x r good fun _ ↦ False) : ∃ a, good a (ManagedMachine.endState x r) := by
  unfold Ends at h
  cases hx : x r with
  | ok a r' =>
    rw [hx] at h
    exact ⟨a, endState_ok hx ▸ h⟩
  | error e r' =>
    rw [hx] at h
    exact h.elim

theorem Ends.forall {ι : Type} {p : ι → Prop} {x : RunM α} {r : Running}
    {good : ι → α → Running → Prop} {bad : ι → Running → Prop}
    (h : ∀ k, p k → Ends x r (good k) (bad k)) :
    Ends x r (fun a r' ↦ ∀ k, p k → good k a r') fun r' ↦ ∀ k, p k → bad k r' := by
  unfold Ends at h ⊢
  cases hx : x r with
  | ok a r' =>
    intro k hk
    simpa only [hx] using h k hk
  | error e r' =>
    intro k hk
    simpa only [hx] using h k hk

/-- Code that amounts to edits ends where they lead. -/
theorem ends_of_spec {R : View → View → Prop} {x : RunM α} {v : View} {post : α → View → Prop}
    (h : Spec R x v post) :
    Ends x v.run (fun a r ↦ ∃ w, w.run = r ∧ Relation.ReflTransGen R v w ∧ post a w)
      fun r ↦ ∃ w, w.run = r ∧ Relation.ReflTransGen R v w := h

/-- A fact about the state at the end, whether it succeeded or failed. -/
theorem Ends.endState {x : RunM α} {r : Running} {good : α → Running → Prop}
    {bad : Running → Prop} (h : Ends x r good bad) {O : Running → Prop}
    (hgood : ∀ a r', good a r' → O r') (hbad : ∀ r', bad r' → O r') :
    O (ManagedMachine.endState x r) := by
  unfold Ends at h
  cases hx : x r with
  | ok a r' =>
    rw [hx] at h
    exact endState_ok hx ▸ hgood a r' h
  | error e r' =>
    rw [hx] at h
    exact endState_error hx ▸ hbad r' h

/-- The moment of an instruction. -/
def momentOf (c : Callees) (entry : Running) (fuel : Nat) (f : Frame) (addr : Nat) (i : Instruction)
    (r : Running) : Moment :=
  ⟨entry, fuel, f, addr, i, r.noting addr, endState (advance c fuel f addr i) (r.noting addr)⟩

/-- The calls that an instruction makes satisfy `T`. -/
def CallsIn (T : MethodId → Nat → Running → Prop) (c : Callees) (m : Moment) : Prop :=
  ∀ id a s,
    Makes c (fun c ↦ advance c m.fuel m.frame m.addr m.instruction) m.before id a s → T id a s

/-- The moments of a frame from an address on satisfy `P`, and its calls satisfy `T`. -/
def AlongLoop (T : MethodId → Nat → Running → Prop) (P : Moment → Prop) (c : Callees)
    (entry : Running) : (fuel : Nat) → Frame → (addr : Nat) → Running → Prop
  | 0, _, _, _ => True
  | fuel + 1, f, addr, r => ∀ i, f.body.code[addr]? = some i →
    P (momentOf c entry fuel f addr i r) ∧ CallsIn T c (momentOf c entry fuel f addr i r) ∧
    ∀ next f' r', advance c fuel f addr i (r.noting addr) = .ok (.at next f') r' →
      AlongLoop T P c entry fuel f' next r'

/-- Every moment of a call satisfies `P`, and so does every moment of the calls that it makes. -/
def Along (P : Moment → Prop) : (fuel : Nat) → (id : MethodId) → (argBase : Nat) → Running → Prop
  | 0, _, _, _ => True
  | fuel + 1, id, argBase, r => ∀ body home f r', Enters r id body home →
    openFrame fuel id (r.domain.registry.method id) body home argBase (r.entered id) = .ok f r' →
      AlongLoop (Along P fuel) P (callees fuel) r fuel f 0 r'

variable {c : Callees} {T T' : MethodId → Nat → Running → Prop} {P P' : Moment → Prop}
  {entry : Running}

/-- What holds at every moment may be weakened. -/
theorem AlongLoop.mono (hT : ∀ id a r, T id a r → T' id a r) (hP : ∀ m, P m → P' m) :
    {fuel : Nat} → {f : Frame} → {addr : Nat} → {r : Running} →
    AlongLoop T P c entry fuel f addr r →
      AlongLoop T' P' c entry fuel f addr r
  | 0, _, _, _, _ => trivial
  | _ + 1, _, _, _, h => fun i hi ↦
    ⟨hP _ (h i hi).1, fun id a s hmakes ↦ hT id a s ((h i hi).2.1 id a s hmakes),
      fun next f' r' hnext ↦ AlongLoop.mono hT hP ((h i hi).2.2 next f' r' hnext)⟩

theorem Along.mono (hP : ∀ m, P m → P' m) :
    {fuel : Nat} → {id : MethodId} → {argBase : Nat} → {r : Running} → Along P fuel id argBase r →
      Along P' fuel id argBase r
  | 0, _, _, _, _ => trivial
  | _ + 1, _, _, _, h => fun body home f r' henters hopen ↦
    (h body home f r' henters hopen).mono (fun _ _ _ ↦ Along.mono hP) hP

theorem alongLoop_true (hT : ∀ id a r, T id a r) : (fuel : Nat) → (f : Frame) → (addr : Nat) →
    (r : Running) → AlongLoop T (fun _ ↦ True) c entry fuel f addr r
  | 0, _, _, _ => trivial
  | fuel + 1, _, _, _ => fun _ _ ↦
    ⟨trivial, fun id a s _ ↦ hT id a s, fun next f' r' _ ↦ alongLoop_true hT fuel f' next r'⟩

theorem along_true : (fuel : Nat) → (id : MethodId) → (argBase : Nat) → (r : Running) →
    Along (fun _ ↦ True) fuel id argBase r
  | 0, _, _, _ => trivial
  | fuel + 1, _, _, _ => fun _ _ f r' _ _ ↦ alongLoop_true (along_true fuel) fuel f 0 r'

/-- An instruction that does the same with every runner makes no calls. -/
theorem callsIn_of_same {f : Frame} {fuel addr : Nat} {i : Instruction} {r : Running}
    (h : ∀ run, advance { c with run } fuel f addr i = advance c fuel f addr i) :
    CallsIn T c (momentOf c entry fuel f addr i r) := by
  have hnone : CallsOnly (fun _ _ _ ↦ False) c (fun c ↦ advance c fuel f addr i) (r.noting addr) :=
    fun run _ ↦ congrFun (h run) _
  exact fun id a s hmakes ↦ (hnone.of_makes hmakes).elim

/-! ### The instructions of a frame -/

variable {fuel : Nat} {f f' : Frame} {addr next : Nat} {i : Instruction} {r r' : Running}

theorem loop_outside (hi : f.body.code[addr]? = none) :
    loop c (fuel + 1) f addr r =
      .error (.malformed (.pastEnd (r.domain.registry.fullName f.method) addr)) r := by
  simp only [loop, hi]
  rfl

theorem loop_next (hi : f.body.code[addr]? = some i)
    (h : advance c fuel f addr i (r.noting addr) = .ok (.at next f') r') :
    loop c (fuel + 1) f addr r = loop c fuel f' next r' := by
  simp only [loop, hi]
  exact bind_of_ok (s := r.noting addr) h

theorem loop_done (hi : f.body.code[addr]? = some i) {v : Option Carry}
    (h : advance c fuel f addr i (r.noting addr) = .ok (.done v) r') :
    loop c (fuel + 1) f addr r = .ok v r' := by
  simp only [loop, hi]
  exact bind_of_ok (s := r.noting addr) h

theorem loop_failed (hi : f.body.code[addr]? = some i) {e : Error}
    (h : advance c fuel f addr i (r.noting addr) = .error e r') :
    loop c (fuel + 1) f addr r = .error e r' := by
  simp only [loop, hi]
  exact bind_of_error (s := r.noting addr) h

/-- What every instruction keeps holds along a frame and at its end: `I` between instructions,
`good` after the last one and `bad` after a failure. An instruction may rely on what is known of its
moment and of its calls. -/
theorem loop_induct {I : Frame → Running → Prop} {good : Option Carry → Running → Prop}
    {bad : Running → Prop} (hbad : ∀ f r, I f r → bad r)
    (hstep : ∀ fuel f addr i r, I f r → P (momentOf c entry fuel f addr i r) →
      CallsIn T c (momentOf c entry fuel f addr i r) →
      P' (momentOf c entry fuel f addr i r) ∧ CallsIn T' c (momentOf c entry fuel f addr i r) ∧
      Ends (advance c fuel f addr i) (r.noting addr) (fun
        | .at _ f', r' => I f' r'
        | .done v, r' => good v r') bad)
    (fuel : Nat) (hI : I f r) (halong : AlongLoop T P c entry fuel f addr r) :
    AlongLoop T' P' c entry fuel f addr r ∧ Ends (loop c fuel f addr) r good bad := by
  induction fuel generalizing f addr r with
  | zero => exact ⟨trivial, hbad f r hI⟩
  | succ fuel ih =>
    cases hi : f.body.code[addr]? with
    | none =>
      refine ⟨fun i h ↦ absurd (hi.symm.trans h) nofun, ?_⟩
      simp only [Ends, loop_outside hi]
      exact hbad f r hI
    | some i =>
      obtain ⟨hP, hT, hnext⟩ := halong i hi
      obtain ⟨hP', hT', hends⟩ := hstep fuel f addr i r hI hP hT
      -- The moment is the one of the instruction at the address; only what follows it depends on
      -- how the instruction ends.
      have hfirst {Q : Prop} (hQ : Q)
          (hrest : ∀ next f' r', advance c fuel f addr i (r.noting addr) = .ok (.at next f') r' →
            AlongLoop T' P' c entry fuel f' next r') :
          AlongLoop T' P' c entry (fuel + 1) f addr r ∧ Q := by
        refine ⟨fun j hj ↦ ?_, hQ⟩
        obtain rfl : i = j := Option.some.inj (hi.symm.trans hj)
        exact ⟨hP', hT', hrest⟩
      unfold Ends at hends
      cases h : advance c fuel f addr i (r.noting addr) with
      | error e r' =>
        rw [h] at hends
        refine hfirst ?_ fun next f' r' hat ↦ absurd (h.symm.trans hat) nofun
        rwa [Ends, loop_failed hi h]
      | ok ctl r' =>
        rw [h] at hends
        cases ctl with
        | done v =>
          refine hfirst ?_ fun next f' r' hat ↦ absurd (h.symm.trans hat) nofun
          rwa [Ends, loop_done hi h]
        | «at» next f' =>
          obtain ⟨hrest, hend⟩ := ih hends (hnext next f' r' h)
          refine hfirst ?_ fun next' f'' r'' hat ↦ ?_
          · rwa [Ends, loop_next hi h]
          · cases h.symm.trans hat
            exact hrest

end Engine

end ManagedMachine
