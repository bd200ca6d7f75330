import ManagedMachine.Proofs.FieldSpecs

/-!
Every instruction amounts to edits, if it finds the operands that it takes: `does_step`, and with
the exception that it may raise, `does_advance`. `takes` counts those operands. A call checks by
itself that its arguments are operands of the frame, so they are not among them.

Instructions that work alike are in one lemma: those that take operands and leave one (`does_typed`,
`does_fielded`), those that push, those that go somewhere else. `does_step` is then a case analysis
without arguments of its own. What is left of an exception after it was handled is `spec_dispatch`.
-/

set_option autoImplicit false
set_option relaxedAutoImplicit false

namespace ManagedMachine

open Engine

/-- The frame without the clauses that run in it. -/
def Frame.core (f : Frame) : Frame := { f with unwinds := [], caught := [] }

/-- The arguments and the locals of a frame lie below its operands, and the code may write them. -/
structure Scope.Holds (S : Scope) (v : View) (f : Frame) : Prop where
  bottom : S.bottom ≤ f.evalBase
  args : f.argBase + f.argCount ≤ f.localBase
  locals : f.localBase + f.localCount ≤ f.evalBase
  slots : ∀ a, f.argBase ≤ a → a < f.evalBase → a ∈ S.frame ∧ a ∈ v.known

/-- What follows an instruction does not depend on the stack that it leaves. -/
def View.Yields (v : View) : Outcome → Prop
  | .ret value => v.Returns value
  | _ => True

namespace Engine

/-- The number of operands that an instruction takes without counting them. -/
def takes (fuel : Nat) (f : Frame) (r : Running) : Instruction → Nat
  | .storeArg _ | .storeLocal _ | .dup | .pop | .neg | .convert _ | .branchTrue _
  | .branchFalse _ | .loadField _ | .loadFieldAddr _ | .storeStatic _ | .newArray _ | .loadLength
  | .loadObject _ | .initObject _ | .unboxAny _ | .castClass _ | .isInstance _ | .throw => 1
  | .binary _ | .compareEq | .compareGt | .compareLt | .branchOn _ _ | .storeField _
  | .loadElement | .loadElementAddr _ | .storeObject _ => 2
  | .storeElement => 3
  | .call token | .callVirtual token =>
    match methodOperand fuel f token r with
    | .ok none _ => 1
    | _ => 0
  | .ret => if (r.domain.registry.type f.method.ret).isVoid then 0 else 1
  | .box token =>
    match typeOperand f token r with
    | .ok t r => if isValueType (r.domain.registry.type t) then 1 else 0
    | .error _ _ => 0
  | _ => 0

variable {S : Scope} {c : Callees} {v : View} {f : Frame}

/-! ### Exceptions -/

theorem spec_finish (hf : S.bottom ≤ f.evalBase) (resume : Resume) :
    Spec (Edit S) (finish f resume) v fun p _ ↦ p.2.core = f.core := by
  cases resume with
  | leave target => exact Spec.pure rfl
  | propagate raised => exact Spec.pure rfl
  | «catch» clause raised =>
    refine (Spec.popTo hf).bind fun _ w _ _ ↦ ?_
    exact (Spec.pushObject raised.value).bind fun _ _ _ _ ↦ Spec.pure rfl

theorem spec_unwind (hf : S.bottom ≤ f.evalBase) (clauses : List Nat) (resume : Resume) :
    Spec (Edit S) (unwind f clauses resume) v fun p _ ↦ p.2.core = f.core := by
  cases clauses with
  | nil => exact spec_finish hf resume
  | cons clause rest => exact Spec.pure rfl

theorem spec_handleException (hf : S.bottom ≤ f.evalBase) (fuel addr : Nat) (raised : Raised) :
    Spec (Edit S) (handleException fuel f addr raised) v fun p _ ↦ p.2.core = f.core := by
  unfold handleException
  refine Spec.look (looks_withTrace raised) fun raised' d _ _ ↦ ?_
  refine Spec.look (looks_selectCatch (fun _ ↦ looks_catchFit fuel f raised'.value) _ _)
    fun catcher d' _ _ ↦ ?_
  refine (Spec.popTo hf).bind fun _ w _ _ ↦ ?_
  exact spec_unwind (f := { f with unwinds := f.abandon addr catcher f.unwinds }) hf _ _

theorem spec_leave (hf : S.bottom ≤ f.evalBase) (addr target : Nat) :
    Spec (Edit S) (leave f addr target) v fun p _ ↦ p.2.core = f.core := by
  unfold leave
  refine (Spec.popTo hf).bind fun _ w _ _ ↦ ?_
  exact spec_unwind (f := { f with caught := f.keptOnLeave addr target }) hf _ _

theorem spec_endFinally (hf : S.bottom ≤ f.evalBase) :
    Spec (Edit S) (endFinally f) v fun p _ ↦ p.2.core = f.core := by
  unfold endFinally
  split
  · exact Spec.looking rfl (Spec.throw _)
  · exact (Spec.popTo hf).bind fun _ _ _ _ ↦ Spec.pure rfl
  · next resume others _ => exact spec_finish (f := { f with unwinds := others }) hf resume

theorem spec_arrive {x : RunM (Arrival × Frame)} (hx : Spec (Edit S) x v fun p _ ↦ p.2.core =
    f.core) :
    Spec (Edit S) (arrive x) v fun p w ↦ p.2.core = f.core ∧ w.Yields p.1 := by
  unfold arrive
  refine hx.bind fun ⟨arrival, f'⟩ w _ h ↦ ?_
  cases arrival <;> exact Spec.pure ⟨h, trivial⟩

/-! ### Instructions -/

theorem does_onward {X : Callees → RunM Unit} (hX : Does S c X v fun _ _ ↦ True) :
    Does S c (fun c ↦ onward f (X c)) v fun p w ↦ p.2.core = f.core ∧ w.Yields p.1 :=
  hX.bind fun _ _ _ _ ↦ Does.pure ⟨rfl, trivial⟩

theorem spec_onward {x : RunM Unit} (hx : Spec (Edit S) x v fun _ _ ↦ True) :
    Does S c (fun _ ↦ onward f x) v fun p w ↦ p.2.core = f.core ∧ w.Yields p.1 :=
  does_onward (Does.of_spec hx)

theorem argAddr_ok {n : UInt16} {a : Nat} {r r' : Running} (h : argAddr f n r = .ok a r') :
    a = f.argBase + n.toNat ∧ n.toNat < f.argCount := by
  unfold argAddr at h
  split at h
  · next hn =>
    cases h
    exact ⟨rfl, hn⟩
  · cases h

theorem localAddr_ok {n : UInt16} {a : Nat} {r r' : Running} (h : localAddr f n r = .ok a r') :
    a = f.localBase + n.toNat ∧ n.toNat < f.localCount := by
  unfold localAddr at h
  split at h
  · next hn =>
    cases h
    exact ⟨rfl, hn⟩
  · cases h

/-- The address of an argument or a local is one that the code may write. -/
theorem spec_withArg {g : Nat → RunM Unit} (hf : S.Holds v f) (n : UInt16)
    (hg : ∀ a d, a ∈ S.frame → a ∈ v.known → Spec (Edit S) (g a) (v.withDomain d) fun _ _ ↦ True) :
    Spec (Edit S) (do g (← argAddr f n)) v fun _ _ ↦ True := by
  refine Spec.look (looks_argAddr f n) fun a d _ ha ↦ ?_
  obtain ⟨rfl, hn⟩ := argAddr_ok ha
  have hargs := hf.args
  have hlocals := hf.locals
  obtain ⟨hframe, hknown⟩ := hf.slots (f.argBase + n.toNat) (by omega) (by omega)
  exact hg _ d hframe hknown

theorem spec_withLocal {g : Nat → RunM Unit} (hf : S.Holds v f) (n : UInt16)
    (hg : ∀ a d, a ∈ S.frame → a ∈ v.known → Spec (Edit S) (g a) (v.withDomain d) fun _ _ ↦ True) :
    Spec (Edit S) (do g (← localAddr f n)) v fun _ _ ↦ True := by
  refine Spec.look (looks_localAddr f n) fun a d _ ha ↦ ?_
  obtain ⟨rfl, hn⟩ := localAddr_ok ha
  have hargs := hf.args
  have hlocals := hf.locals
  obtain ⟨hframe, hknown⟩ := hf.slots (f.localBase + n.toNat) (by omega) (by omega)
  exact hg _ d hframe hknown

theorem spec_load (fuel : Nat) (hv : S.Finds v 0) {a : Nat} (d : Domain) (ha : a ∈ v.known) :
    Spec (Edit S) (pushCopy fuel a) (v.withDomain d) fun _ _ ↦ True :=
  (spec_pushCopy (v := v.withDomain d) fuel ha hv.pending hv.fresh).trivially

theorem spec_loadAddr {a : Nat} (d : Domain) (ha : a ∈ v.known) :
    Spec (Edit S) (push (.stackRef a)) (v.withDomain d) fun _ _ ↦ True :=
  (Spec.push (v := v.withDomain d) (s := .stackRef a) ha).trivially

theorem spec_store (fuel : Nat) (hv : S.Finds v 1) {a : Nat} (d : Domain) (hframe : a ∈ S.frame)
    (ha : a ∈ v.known) :
    Spec (Edit S) (storeTop fuel a) (v.withDomain d) fun _ _ ↦ True :=
  (spec_storeTop (v := v.withDomain d) fuel ha hframe hv.covers hv.bottom hv.pending
    hv.fresh).trivially

/-- The value that a frame returns is taken off its operands. -/
theorem spec_returnValue (fuel : Nat)
    (hv : S.Finds v (if (v.domain.registry.type f.method.ret).isVoid then 0 else 1)) :
    Spec (Edit S) (returnValue fuel f) v fun value w ↦ w.Returns value := by
  unfold returnValue
  refine Spec.looking rfl ?_
  split
  · exact Spec.pure nofun
  · next hvoid =>
    have hv' : S.Finds v 1 := by
      rw [View.domain, if_neg hvoid] at hv
      exact hv
    refine (spec_loadTop hv'.covers hv'.bottom).quietly fun carry w hlevel hcarries ↦ ?_
    refine (spec_detach fuel hcarries).quietly fun carry' w₁ hlevel₁ hdetached ↦ ?_
    refine (Spec.pop ((hv'.level hlevel).level hlevel₁).bottom).bind fun _ w₂ hR _ ↦ Spec.pure ?_
    rintro _ ⟨⟩
    exact ⟨hdetached.1.mono (Edits.known hR), hdetached.2⟩

/-- Throwing ends with an exception and leaves the operands to whoever handles it. -/
theorem spec_throwTop {α : Type} {post : α → View → Prop} : Spec (Edit S) throwTop v post := by
  have hnull (w : View) : Spec (Edit S) (nullReference : RunM α) w post := by
    cases h : (nullReference : RunM α) w.run with
    | ok a r =>
      simp only [nullReference, Running.onDomain, Domain.raise] at h
      split at h
      · next hraise =>
        obtain ⟨e, d, -, hthrow⟩ := exists_of_bind hraise
        cases hthrow
      · cases h
    | error e r =>
      obtain ⟨w', rfl, hR⟩ := (Spec.looks (R := Edit S) (v := w) looks_nullReference).error h
      exact Spec.of_error h hR
  unfold throwTop
  refine Spec.read fun s _ ↦ Spec.look (looks_referenceValue s) fun x d _ _ ↦ ?_
  split
  · exact hnull _
  · exact Spec.throw _

theorem spec_rethrow {α : Type} {post : α → View → Prop} (addr : Nat) :
    Spec (Edit S) (rethrow f addr) v post := by
  unfold rethrow
  split <;> exact Spec.throw _

/-- The arguments of a call are operands of the frame, which the engine checks. -/
theorem operandsBase_ok {count base : Nat} {r r' : Running}
    (h : operandsBase f count r = .ok base r') :
    f.evalBase + count ≤ r.stack.top ∧ base = r.stack.top - count ∧ r' = r := by
  unfold operandsBase at h
  obtain ⟨top, r₁, htop, h⟩ := exists_of_bind h
  cases htop
  split at h
  · next hcount =>
    cases h
    exact ⟨hcount, rfl, rfl⟩
  · cases h

/-- A call looks its method up, and checks that its arguments are there. -/
theorem does_call (hc : c.Meet S v) (fuel : Nat) (token : Token) (virtual_ : Bool)
    (hf : S.Holds v f)
    (hv : S.Finds v (match methodOperand fuel f token v.run with | .ok none _ => 1 | _ => 0)) :
    Does S c (fun c ↦ call c fuel f token virtual_) v fun _ _ ↦ True := by
  unfold call
  refine Does.look (looks_methodOperand fuel f token) fun found d _ hR hfound ↦ ?_
  rw [hfound] at hv
  cases found with
  | none => exact Does.of_spec (spec_pop (hv.withDomain d)).trivially
  | some id =>
    refine Does.looking rfl ?_
    refine Does.look (looks_operandsBase f _) fun base d' _ hR' hbase ↦ ?_
    obtain ⟨hcount, rfl, hrun⟩ := operandsBase_ok hbase
    obtain rfl : d' = d := congrArg Running.domain hrun
    have hbottom := hf.bottom
    have hcount' : f.evalBase + (d'.registry.method id).argCount ≤ v.stack.top := hcount
    refine (does_callMethod (hc.after (hR.trans hR')) fuel id virtual_ ⟨?_, Nat.sub_le _ _,
      hv.pending, hv.covers⟩ fun hthis ↦ ?_).trivially
    · change S.bottom ≤ v.stack.top - (d'.registry.method id).argCount
      omega
    · have hone : 1 ≤ (d'.registry.method id).argCount := by
        change (d'.registry.method id).flags.hasThis = true at hthis
        simp [Method.argCount, hthis]
      refine hv.covers _ ?_ ?_
      · change S.bottom ≤ v.stack.top - (d'.registry.method id).argCount
        omega
      · change v.stack.top - (d'.registry.method id).argCount < v.stack.top
        omega

/-- Making an object is a call of its constructor with the new object below the arguments. -/
theorem does_newObject (hc : c.Meet S v) (fuel : Nat) (token : Token) (hf : S.Holds v f)
    (hv : S.Finds v 0) : Does S c (fun c ↦ newObject c fuel f token) v fun _ _ ↦ True := by
  unfold newObject
  refine Does.look (looks_methodOperand fuel f token) fun found d _ hR hfound ↦ ?_
  cases found with
  | none =>
    refine Does.of_spec (Spec.look (looks_onDomain (Domain.grows_coreType _)) fun t d' _ _ ↦ ?_)
    refine Spec.look (looks_onDomain (Domain.grows_newObject _)) fun x d'' _ _ ↦ ?_
    exact (Spec.pushObject x).trivially
  | some id =>
    refine Does.looking rfl ?_
    refine Does.look (looks_operandsBase f _) fun base d' _ hR' hbase ↦ ?_
    obtain ⟨hcount, rfl, -⟩ := operandsBase_ok hbase
    have hbottom := hf.bottom
    refine does_constructAt (hc.after (hR.trans hR')) fuel id ⟨?_, Nat.sub_le _ _, hv.pending,
      hv.covers⟩
    omega

/-- An instruction that works on the type of its token. -/
theorem does_typed {g : TypeId → RunM Unit} (token : Token)
    (hg : ∀ t d, typeOperand f token v.run = .ok t (v.withDomain d).run →
      Spec (Edit S) (g t) (v.withDomain d) fun _ _ ↦ True) :
    Does S c (fun _ ↦ onward f do g (← typeOperand f token)) v
      fun p w ↦ p.2.core = f.core ∧ w.Yields p.1 :=
  spec_onward (Spec.look (looks_typeOperand f token) fun t d _ h ↦ hg t d h)

/-- An instruction that works on the field of its token, which may call an initializer. -/
theorem does_fielded {X : Callees → Field → RunM Unit} (fuel : Nat) (token : Token)
    (hX : ∀ field d, Edits S v (v.withDomain d) →
      Does S c (fun c ↦ X c field) (v.withDomain d) fun _ _ ↦ True) :
    Does S c (fun c ↦ onward f do X c (← fieldOperand fuel f token)) v
      fun p w ↦ p.2.core = f.core ∧ w.Yields p.1 :=
  does_onward (Does.look (looks_fieldOperand fuel f token) fun field d _ hR _ ↦ hX field d hR)

/-- A branch only decides what follows, and it is never that the frame returns. -/
theorem does_branching {x : RunM Outcome} (hx : Spec (Edit S) x v fun o _ ↦ ∀ c, o ≠ .ret c) :
    Does S c (fun _ ↦ do return (← x, f)) v fun p w ↦ p.2.core = f.core ∧ w.Yields p.1 := by
  refine Does.of_spec (hx.bind fun o w _ ho ↦ Spec.pure ⟨rfl, ?_⟩)
  cases o with
  | ret value => exact absurd rfl (ho value)
  | _ => trivial

theorem does_pushing {s : Slot} (hs : v.Storable s) :
    Does S c (fun _ ↦ onward f (push s)) v fun p w ↦ p.2.core = f.core ∧ w.Yields p.1 :=
  spec_onward (Spec.push hs).trivially

theorem spec_loadString (token : Token) :
    Spec (Edit S) (do
      let s ← (Registry.resolveString f.home token : RegistryM String)
      Stack.pushObject (.string s)) v fun _ _ ↦ True :=
  Spec.look (looks_inRegistry (Registry.grows_resolveString f.home token)) fun _ _ _ _ ↦
    (Spec.pushObject _).trivially

theorem spec_dup (fuel : Nat) (hv : S.Finds v 1) :
    Spec (Edit S) (do pushCopy fuel (← read (·.topAddr))) v fun _ _ ↦ True := by
  refine Spec.read fun a ha ↦ ?_
  have htop := Stack.topAddr_ok ha
  have hknown := hv.known (n := 0) Nat.one_pos (by omega)
  obtain rfl : a = v.stack.top - 1 := by omega
  exact (spec_pushCopy fuel hknown hv.pending hv.fresh).trivially

theorem does_return (fuel : Nat)
    (hv : S.Finds v (if (v.domain.registry.type f.method.ret).isVoid then 0 else 1)) :
    Does S c (fun _ ↦ do return (.ret (← returnValue fuel f), f)) v
      fun p w ↦ p.2.core = f.core ∧ w.Yields p.1 :=
  Does.of_spec ((spec_returnValue fuel hv).bind fun _ _ _ h ↦ Spec.pure ⟨rfl, h⟩)

/-- The operand that is stored stays on the stack until the field has it. -/
theorem does_storeStaticTop (hc : c.Meet S v) (fuel : Nat) (token : Token) (hv : S.Finds v 1) :
    Does S c (fun c ↦ onward f do
      storeStatic c fuel (← fieldOperand fuel f token)
      pop) v fun p w ↦ p.2.core = f.core ∧ w.Yields p.1 := by
  refine does_onward (Does.look (looks_fieldOperand fuel f token) fun field d _ hR _ ↦ ?_)
  refine (does_storeStatic (hc.after hR) fuel field (hv.withDomain d)).bind fun _ w _ h ↦ ?_
  exact (Does.of_spec (Spec.pop (h.top ▸ hv.bottom))).trivially

/-- Whether there is an operand to box depends on the type of the token. -/
theorem takes_box {fuel : Nat} {token : Token} {t : TypeId} {r r' : Running}
    (h : typeOperand f token r = .ok t r') :
    takes fuel f r (.box token) = if isValueType (r'.domain.registry.type t) then 1 else 0 := by
  unfold takes
  dsimp only
  rw [h]

theorem does_box (fuel : Nat) (token : Token) (hv : S.Finds v (takes fuel f v.run (.box token))) :
    Does S c (fun _ ↦ onward f do box fuel (← typeOperand f token)) v
      fun p w ↦ p.2.core = f.core ∧ w.Yields p.1 := by
  refine does_typed token fun t d ht ↦ spec_box fuel t ?_
  rw [takes_box ht] at hv
  exact hv.withDomain d

/-- An instruction amounts to edits, if it finds the operands that it takes. -/
theorem does_step (hc : c.Meet S v) (fuel addr : Nat) (i : Instruction) (hf : S.Holds v f)
    (hv : S.Finds v (takes fuel f v.run i)) :
    Does S c (fun c ↦ step c fuel f addr i) v fun p w ↦ p.2.core = f.core ∧ w.Yields p.1 := by
  have hv₀ := hv.mono (Nat.zero_le _)
  cases i with
  | nop => exact spec_onward (Spec.pure trivial)
  | breakpoint => exact spec_onward (Spec.looks looks_breakpoint).trivially
  | constInt32 x => exact does_pushing trivial
  | constInt64 x => exact does_pushing trivial
  | constSingle x => exact does_pushing trivial
  | constDouble x => exact does_pushing trivial
  | loadNull => exact does_pushing trivial
  | loadString token => exact spec_onward (spec_loadString token)
  | loadArg n => exact spec_onward (spec_withArg hf n fun a d _ ha ↦ spec_load fuel hv₀ d ha)
  | loadArgAddr n => exact spec_onward (spec_withArg hf n fun a d _ ha ↦ spec_loadAddr d ha)
  | storeArg n => exact spec_onward (spec_withArg hf n fun a d h ha ↦ spec_store fuel hv d h ha)
  | loadLocal n => exact spec_onward (spec_withLocal hf n fun a d _ ha ↦ spec_load fuel hv₀ d ha)
  | loadLocalAddr n => exact spec_onward (spec_withLocal hf n fun a d _ ha ↦ spec_loadAddr d ha)
  | storeLocal n =>
    exact spec_onward (spec_withLocal hf n fun a d h ha ↦ spec_store fuel hv d h ha)
  | dup => exact spec_onward (spec_dup fuel hv)
  | pop => exact spec_onward (spec_pop hv).trivially
  | binary op => exact spec_onward (spec_binary op hv)
  | neg => exact spec_onward (spec_unary (fun _ _ ↦ Slot.isNumeric_negate) hv)
  | compareEq => exact spec_onward (spec_pushComparison .eq hv)
  | compareGt => exact spec_onward (spec_pushComparison .gt hv)
  | compareLt => exact spec_onward (spec_pushComparison .lt hv)
  | convert target => exact spec_onward (spec_unary (fun _ _ ↦ Slot.isNumeric_convert) hv)
  | branch target => exact Does.pure ⟨rfl, trivial⟩
  | branchTrue target => exact does_branching (spec_branchIf true target hv)
  | branchFalse target => exact does_branching (spec_branchIf false target hv)
  | branchOn op target => exact does_branching (spec_branchOn op target hv)
  | leave target => exact Does.of_spec (spec_arrive (spec_leave hf.bottom addr _))
  | endFinally => exact Does.of_spec (spec_arrive (spec_endFinally hf.bottom))
  | call token => exact does_onward (does_call hc fuel token false hf hv)
  | callVirtual token => exact does_onward (does_call hc fuel token true hf hv)
  | newObject token => exact does_onward (does_newObject hc fuel token hf hv)
  | ret => exact does_return fuel hv
  | loadField token =>
    exact does_fielded fuel token fun field d hR ↦
      does_loadField (hc.after hR) fuel field (hv.withDomain d)
  | loadFieldAddr token =>
    exact does_fielded fuel token fun field d _ ↦
      Does.of_spec (spec_loadFieldAddr fuel field (hv.withDomain d))
  | storeField token =>
    exact does_fielded fuel token fun field d hR ↦
      does_storeField (hc.after hR) fuel field (hv.withDomain d)
  | loadStatic token =>
    exact does_fielded fuel token fun field d hR ↦
      does_loadStatic (hc.after hR) fuel field (hv.withDomain d)
  | loadStaticAddr token =>
    exact does_fielded fuel token fun field d hR ↦
      does_loadStaticAddr (hc.after hR) fuel field (hv.withDomain d)
  | storeStatic token => exact does_storeStaticTop hc fuel token hv
  | newArray token => exact does_typed token fun t d _ ↦ spec_newArray fuel t (hv.withDomain d)
  | loadLength => exact spec_onward (spec_loadLength hv)
  | loadElement => exact spec_onward (spec_loadElement fuel hv)
  | storeElement => exact spec_onward (spec_storeElement fuel hv)
  | loadElementAddr token => exact spec_onward (spec_loadElementAddr hv)
  | loadObject token => exact does_typed token fun t d _ ↦ spec_loadObject fuel t (hv.withDomain d)
  | storeObject token =>
    exact does_typed token fun t d _ ↦ spec_storeObjectThrough fuel t (hv.withDomain d)
  | initObject token => exact does_typed token fun t d _ ↦ spec_initObject fuel t (hv.withDomain d)
  | box token => exact does_box fuel token hv
  | unboxAny token => exact does_typed token fun t d _ ↦ spec_unboxAny fuel t (hv.withDomain d)
  | castClass token => exact does_typed token fun t d _ ↦ spec_cast fuel t true (hv.withDomain d)
  | isInstance token => exact does_typed token fun t d _ ↦ spec_cast fuel t false (hv.withDomain d)
  | throw => exact Does.of_spec spec_throwTop
  | rethrow => exact Does.of_spec (spec_rethrow addr)

/-! ### With exceptions -/

/-- What follows an instruction of a frame, or of an exception that it raises. -/
def Continues (f : Frame) (v : View) : Control → Prop
  | .at _ f' => f'.core = f.core
  | .done value => v.Returns value

/-- An exception is handled by clauses of the frame, which drops operands, or leaves it. -/
theorem spec_dispatch {f' : Frame} (hf : S.bottom ≤ f.evalBase) (hsame : f'.core = f.core)
    (fuel addr : Nat) (raised : Raised) :
    Spec (Edit S) (dispatch fuel f' addr raised) v fun ctl w ↦ Continues f w ctl := by
  have hbottom : S.bottom ≤ f'.evalBase := by
    have hbase : f'.core.evalBase = f.core.evalBase := congrArg _ hsame
    exact (show f'.evalBase = f.evalBase from hbase) ▸ hf
  unfold dispatch
  refine (spec_handleException hbottom fuel addr raised).bind fun ⟨arrival, f''⟩ w _ h ↦ ?_
  cases arrival with
  | «at» target => exact Spec.pure (h.trans hsame)
  | raise raised => exact Spec.throw _

/-- An instruction amounts to edits, also if it raises an exception that the frame handles. -/
theorem does_advance (hc : c.Meet S v) (fuel addr : Nat) (i : Instruction) (hf : S.Holds v f)
    (hv : S.Finds v (takes fuel f v.run i)) :
    Does S c (fun c ↦ advance c fuel f addr i) v fun ctl w ↦ Continues f w ctl := by
  have hstep := does_step hc fuel addr i hf hv
  refine ⟨?_, fun run hrun ↦ ?_⟩
  · cases h : step c fuel f addr i v.run with
    | error e r =>
      obtain ⟨w, rfl, hR⟩ := hstep.spec.error h
      cases e with
      | exception raised =>
        refine Spec.goOn hR ?_ (spec_dispatch hf.bottom rfl fuel addr raised)
        simp only [advance, h]
      | _ => exact Spec.of_error (by simp only [advance, h]; rfl) hR
    | ok p r =>
      obtain ⟨w, rfl, hR, hsame, hyields⟩ := hstep.spec.ok h
      obtain ⟨outcome, f'⟩ := p
      cases outcome with
      | next =>
        have hadvance : advance c fuel f addr i v.run = .ok (.at (addr + 1) f') w.run := by
          simp only [advance, h]
        exact Spec.of_ok hadvance hR hsame
      | jump target =>
        have hadvance : advance c fuel f addr i v.run = .ok (.at target f') w.run := by
          simp only [advance, h]
        exact Spec.of_ok hadvance hR hsame
      | ret value =>
        have hadvance : advance c fuel f addr i v.run = .ok (.done value) w.run := by
          simp only [advance, h]
        exact Spec.of_ok hadvance hR hyields
      | raise raised =>
        refine Spec.goOn hR ?_ (spec_dispatch hf.bottom hsame fuel addr raised)
        simp only [advance, h]
  · have hsame : step { c with run } fuel f addr i v.run = step c fuel f addr i v.run :=
      hstep.only run hrun
    simp only [advance, hsame]

end Engine

end ManagedMachine
