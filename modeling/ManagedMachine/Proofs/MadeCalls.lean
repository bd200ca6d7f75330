import ManagedMachine.Proofs.Moments

/-!
# The calls that code makes

The engine uses its runner only by calling it: what an instruction does is settled once the calls
that it makes are answered. `ByCalls` says so of a function of the engine, and every function that
is handed a runner satisfies it. A run may therefore be compared with one in which calls that are
never made behave differently. Nothing between a call and the instruction that makes it catches an
error of the call: `PassesErrors` says that an error of a call has no effect but to end the whole
with it.

Both hold of calls and of code without calls, and are kept by the ways in which the engine puts code
together. What holds in these cases is `CallClosed`, and holds of every function of the engine.
-/

set_option autoImplicit false
set_option relaxedAutoImplicit false

namespace ManagedMachine

open Engine

variable {α β : Type}

/-- What `X` does is settled by the calls that it makes. -/
def ByCalls (X : Callees → RunM α) : Prop := ∀ c r, CallsOnly (Makes c X r) c X r

namespace ByCalls

theorem of_same {X : Callees → RunM α} (h : ∀ c run, X { c with run } = X c) : ByCalls X :=
  fun c r run _ ↦ congrFun (h c run) r

theorem run (id : MethodId) (a : Nat) : ByCalls fun c ↦ c.run id a :=
  fun _ r _ hrun ↦ hrun id a r fun _ _ _ hfails _ ↦ ⟨r, hfails⟩

/-- What makes calls in two parts is settled once both parts are. -/
theorem bind {X : Callees → RunM α} {F : α → Callees → RunM β} (hX : ByCalls X)
    (hF : ∀ a, ByCalls (F a)) : ByCalls fun c ↦ X c >>= fun a ↦ F a c := by
  intro c r run hrun
  have hfirst {id : MethodId} {a : Nat} {s : Running} (h : Makes c X r id a s) :
      Makes c (fun c ↦ X c >>= fun a ↦ F a c) r id a s := by
    intro e run' he hfails hother
    obtain ⟨r', hr'⟩ := h e run' he hfails hother
    exact ⟨r', bind_of_error hr'⟩
  have hsame := hX c r run fun id a s h ↦ hrun id a s (hfirst h)
  cases h : X c r with
  | error e r' => exact (bind_of_error (hsame.trans h)).trans (bind_of_error h).symm
  | ok x r' =>
    refine (bind_of_ok (hsame.trans h)).trans (.trans ?_ (bind_of_ok h).symm)
    refine hF x c r' run fun id a s hmakes ↦ ?_
    by_cases hX' : Makes c X r id a s
    · exact hrun id a s (hfirst hX')
    · refine hrun id a s fun e run' he hfails hother ↦ ?_
      -- A call that the first part does not make leaves its result as it is.
      have hkeeps : X { c with run := run' } r = .ok x r' := by
        refine (hX c r run' fun id' a' s' h' ↦ hother id' a' s' fun heq ↦ hX' ?_).trans h
        cases heq
        exact h'
      obtain ⟨r'', hr''⟩ := hmakes e run' he hfails hother
      exact ⟨r'', (bind_of_ok hkeeps).trans hr''⟩

/-- What `Y` does is settled by what `X` does, and a failure of `X` other than an exception stays
one. -/
theorem then_of {X : Callees → RunM α} {Y : Callees → RunM β} (hX : ByCalls X)
    (hY : ∀ c c' r, X c r = X c' r → Y c r = Y c' r)
    (hfail : ∀ c r e r', (∀ raised, e ≠ .exception raised) → X c r = .error e r' →
      ∃ r'', Y c r = .error e r'') : ByCalls Y := by
  intro c r run hrun
  refine hY _ _ r (hX c r run fun id a s h ↦ hrun id a s fun e run' he hfails hother ↦ ?_)
  obtain ⟨r', hr'⟩ := h e run' he hfails hother
  exact hfail _ r e r' he hr'

theorem afterwards {X : Callees → RunM α} (hX : ByCalls X) (y : RunM Unit) :
    ByCalls fun c ↦ Engine.afterwards (X c) y := by
  refine then_of hX (fun c c' r h ↦ ?_) fun c r e r' _ h ↦ ?_
  · rw [Engine.afterwards, Engine.afterwards, h]
  · rw [Engine.afterwards, h]
    dsimp only
    cases y r' with
    | ok _ r'' => exact ⟨r'', rfl⟩
    | error _ r'' => exact ⟨r'', rfl⟩

variable {T Q : MethodId → Nat → Running → Prop} {X : Callees → RunM α} {c : Callees} {r : Running}
variable {e : Error}

/-- Calls that are not made may be cut off. -/
theorem cut_eq (hX : ByCalls X) (hT : ∀ id a s, Makes c X r id a s → T id a s) :
    X (c.cut T e) r = X c r :=
  hX c r (c.cut T e).run fun id a s h ↦ Callees.cut_of (hT id a s h)

/-- With the calls outside `T` cut off, the code still makes the calls that it made. -/
theorem makes_of_cut (hX : ByCalls X) (he : ∀ raised, e ≠ .exception raised)
    (hne : ∀ r', X c r ≠ .error e r') (hT : ∀ id a s, Makes c X r id a s → T id a s)
    (hQ : CallsOnly Q (c.cut T e) X r) {id : MethodId} {a : Nat} {s : Running}
    (h : Makes c X r id a s) : Q id a s := by
  by_contra hnot
  let other : MethodId → Nat → Running → Prop := fun id' a' s' ↦ (id', a', s') ≠ (id, a, s)
  let rest : MethodId → Nat → Running → Prop := fun id' a' s' ↦ T id' a' s' ∧ other id' a' s'
  -- The call is cut off as well: no call that matters is lost by that.
  have hrest : X (c.cut rest e) r = X c r := by
    refine .trans (hQ (c.cut rest e).run fun id' a' s' hQ' ↦ ?_) (hX.cut_eq hT)
    by_cases hT' : T id' a' s'
    · rw [Callees.cut_of hT', Callees.cut_of (T := rest) ⟨hT', fun heq ↦ hnot (by
        cases heq
        exact hQ')⟩]
    · rw [Callees.cut_of_not hT', Callees.cut_of_not (T := rest) fun h ↦ hT' h.1]
  -- So the code makes calls of `rest` alone, and nothing happens when the call fails.
  have hother : X (c.cut other e) r = X (c.cut rest e) r := by
    refine hX (c.cut rest e) r (c.cut other e).run fun id' a' s' hmakes ↦ ?_
    by_cases hin : rest id' a' s'
    · rw [Callees.cut_of (T := other) hin.2, Callees.cut_of hin]
    · obtain ⟨r', hr'⟩ := hmakes e (c.cut rest e).run he (Callees.cut_of_not hin) fun _ _ _ _ ↦ rfl
      exact absurd (hrest.symm.trans hr') (hne r')
  have hfails : (c.cut other e).run id a s = .error e s := Callees.cut_of_not fun hne ↦ hne rfl
  obtain ⟨r', hr'⟩ := h e (c.cut other e).run he hfails fun id' a' s' hne ↦
    Callees.cut_of (T := other) hne
  exact hne r' (hrest.symm.trans (hother.symm.trans hr'))

end ByCalls

/-! ### Errors of calls -/

/-- Where another runner differs only by failing with `e`, `X` differs only by failing with it. -/
def PassesErrors (X : Callees → RunM α) : Prop :=
  ∀ (c : Callees) (r : Running) (e : Error) (run : Runner),
    (∀ id a s, run id a s = c.run id a s ∨ ∃ t, run id a s = .error e t) →
      X { c with run } r = X c r ∨ ∃ t, X { c with run } r = .error e t

namespace PassesErrors

variable {X : Callees → RunM α} {c : Callees} {r s t : Running} {id : MethodId} {a : Nat}
    {e : Error}

theorem of_same (h : ∀ c run, X { c with run } = X c) : PassesErrors X :=
  fun c r _ run _ ↦ .inl (congrFun (h c run) r)

theorem run (id : MethodId) (a : Nat) : PassesErrors fun c ↦ c.run id a :=
  fun _ r _ _ hrun ↦ hrun id a r

/-- An error of a call in the first part leaves no second part. -/
theorem bind {F : α → Callees → RunM β} (hX : PassesErrors X) (hF : ∀ a, PassesErrors (F a)) :
    PassesErrors fun c ↦ X c >>= fun a ↦ F a c := by
  intro c r e run hrun
  rcases hX c r e run hrun with hsame | ⟨t, hfails⟩
  · cases h : X c r with
    | error e' r' => exact .inl ((bind_of_error (hsame.trans h)).trans (bind_of_error h).symm)
    | ok x r' =>
      refine (hF x c r' e run hrun).imp (fun hrest ↦ ?_) fun ⟨t, hfails⟩ ↦ ⟨t, ?_⟩
      · refine (bind_of_ok (hsame.trans h)).trans (.trans ?_ (bind_of_ok h).symm)
        exact hrest
      · exact (bind_of_ok (hsame.trans h)).trans hfails
  · exact .inr ⟨t, bind_of_error hfails⟩

/-- What is done afterwards is done with the error on the way. -/
theorem afterwards (hX : PassesErrors X) (y : RunM Unit) :
    PassesErrors fun c ↦ Engine.afterwards (X c) y := by
  intro c r e run hrun
  refine (hX c r e run hrun).imp (fun hsame ↦ ?_) fun ⟨t, hfails⟩ ↦ ?_
  · simp only [Engine.afterwards, hsame]
  · change ∃ t', Engine.afterwards (X { c with run }) y r = .error e t'
    rw [Engine.afterwards, hfails]
    dsimp only
    cases y t with
    | ok _ t' => exact ⟨t', rfl⟩
    | error _ t' => exact ⟨t', rfl⟩

/-- Code fails with the error of a call that it makes. -/
theorem error_of_makes (hX : PassesErrors X) (hmakes : Makes c X r id a s)
    (hcall : c.run id a s = .error e t) : ∃ t', X c r = .error e t' := by
  obtain ⟨e', he', hne⟩ := exists_error_ne (X c r)
  let other : MethodId → Nat → Running → Prop := fun id' a' s' ↦ (id', a', s') ≠ (id, a, s)
  have hfails : (c.cut other e').run id a s = .error e' s := Callees.cut_of_not fun hne ↦ hne rfl
  obtain ⟨r', hr'⟩ := hmakes e' (c.cut other e').run he' hfails fun id' a' s' hne' ↦
    Callees.cut_of (T := other) hne'
  -- The call is put back where it was cut off, and there it fails.
  refine (hX (c.cut other e') r e c.run fun id' a' s' ↦ ?_).resolve_left fun hsame ↦
    hne r' (hsame.trans hr')
  by_cases hother : other id' a' s'
  · exact .inl (Callees.cut_of hother).symm
  · obtain ⟨rfl, rfl, rfl⟩ : id' = id ∧ a' = a ∧ s' = s := by simpa [other] using hother
    exact .inr ⟨t, hcall⟩

end PassesErrors

/-! ### Every function of the engine -/

/-- What holds of calls, of code without calls, and of what is put together from code of which it
holds. -/
structure CallClosed (P : ∀ {α : Type}, (Callees → RunM α) → Prop) : Prop where
  of_same : ∀ {α : Type} {X : Callees → RunM α}, (∀ c run, X { c with run } = X c) → P X
  run : ∀ id a, P fun c ↦ c.run id a
  bind : ∀ {α β : Type} {X : Callees → RunM α} {F : α → Callees → RunM β}, P X → (∀ a, P (F a)) →
    P fun c ↦ X c >>= fun a ↦ F a c
  afterwards : ∀ {α : Type} {X : Callees → RunM α}, P X → ∀ y, P fun c ↦ Engine.afterwards (X c) y

theorem ByCalls.closed : CallClosed @ByCalls := ⟨.of_same, .run, .bind, .afterwards⟩

theorem PassesErrors.closed : CallClosed @PassesErrors := ⟨.of_same, .run, .bind, .afterwards⟩

namespace CallClosed

variable {P : ∀ {α : Type}, (Callees → RunM α) → Prop}

theorem either {p : Prop} [Decidable p] {X Y : Callees → RunM α} (hX : P X) (hY : P Y) :
    P fun c ↦ if p then X c else Y c := by
  by_cases hp : p
  · simpa only [if_pos hp] using hX
  · simpa only [if_neg hp] using hY

variable (h : CallClosed @P)

include h

theorem const (x : RunM α) : P fun _ ↦ x := h.of_same fun _ _ ↦ rfl

/-! ### Calls -/

theorem ensureInitialized (fuel : Nat) (t : TypeId) : P fun c ↦ ensureInitialized c fuel t := by
  refine h.bind (h.const _) fun first ↦ either (h.afterwards ?_ _) (h.const _)
  refine h.bind (h.const _) fun found ↦ ?_
  cases found with
  | none => exact h.const _
  | some initializer =>
    exact h.bind (h.const _) fun a ↦ h.bind (h.run initializer a) fun _ ↦ h.const _

theorem invokeAt (fuel : Nat) (id : MethodId) (m : Method) (argBase : Nat) :
    P fun c ↦ invokeAt c fuel id m argBase := by
  refine either (h.of_same fun _ _ ↦ rfl) (h.bind (h.run id argBase) fun result ↦ ?_)
  cases result <;> exact h.const _

/-- A call of a method makes one call, or fails before. -/
theorem callMethod (fuel : Nat) (id : MethodId) (argBase : Nat) (virtual_ : Bool) :
    P fun c ↦ callMethod c fuel id argBase virtual_ := by
  have hrest (target : MethodId) : P (fun c ↦ do
      let m ← method target
      if !m.flags.hasThis then Engine.ensureInitialized c fuel m.declaring
      Engine.invokeAt c fuel target m argBase) := by
    refine h.bind (h.const _) fun m ↦ either ?_ (h.invokeAt fuel target m argBase)
    exact h.bind (h.ensureInitialized fuel _) fun _ ↦ h.invokeAt fuel target m argBase
  refine h.bind (h.const _) fun m ↦ either ?_ (h.bind (h.const _) hrest)
  refine h.bind (h.const _) fun s ↦ h.bind (h.const _) fun found ↦ ?_
  cases found <;> exact h.bind (h.const _) hrest

theorem constructAt (fuel : Nat) (id : MethodId) (argBase : Nat) :
    P fun c ↦ constructAt c fuel id argBase := by
  refine h.bind (h.const _) fun m ↦ h.bind (h.ensureInitialized fuel _) fun _ ↦ ?_
  refine either (h.of_same fun _ _ ↦ rfl) (h.bind (h.const _) fun inline ↦ either ?_ ?_)
  · refine h.bind (h.const _) fun d ↦ h.bind (h.const _) fun _ ↦ ?_
    exact h.bind (h.const _) fun _ ↦ h.bind (h.run id _) fun _ ↦ h.const _
  · refine h.bind (h.const _) fun object ↦ h.bind (h.const _) fun entry ↦ ?_
    exact h.bind (h.const _) fun _ ↦ h.bind (h.run id _) fun _ ↦ h.const _

/-! ### Calls from the host -/

theorem restoring {X : Callees → RunM α} (hX : P X) : P fun c ↦ restoring (X c) :=
  h.bind (h.const _) fun _ ↦ h.afterwards hX _

/-- So does host code that calls a method, with every argument in its place. -/
theorem invokeHost (fuel : Nat) (id : MethodId) (receiver : Option Value) (args : List Value) :
    P fun c ↦ invokeHost c fuel id receiver args := by
  refine h.restoring (h.bind (h.const _) fun m ↦ h.bind (h.const _) fun start ↦ ?_)
  have hcall (argBase : Nat) : P (fun c ↦ do
      pushAll fuel args m.params
      Engine.invokeAt c fuel id m argBase
      if (← descriptor m.ret).isVoid then return none
      else return some (← readValue fuel (← read (·.topSlot)) m.ret)) :=
    h.bind (h.const _) fun _ ↦ h.bind (h.invokeAt fuel id m argBase) fun _ ↦ h.const _
  cases receiver with
  | none => exact hcall start
  | some v =>
    refine h.bind (h.const _) fun inline ↦ either ?_ ?_
    · refine h.bind (h.const _) fun d ↦ h.bind (h.const _) fun _ ↦ ?_
      exact h.bind (h.const _) fun _ ↦ hcall (start + 1)
    · exact h.bind (h.const _) fun _ ↦ hcall start

theorem constructHost (fuel : Nat) (id : MethodId) (args : List Value) :
    P fun c ↦ constructHost c fuel id args := by
  refine h.restoring (h.bind (h.const _) fun m ↦ h.bind (h.const _) fun argBase ↦ ?_)
  refine h.bind (h.const _) fun _ ↦ ?_
  exact h.bind (h.constructAt fuel id argBase) fun _ ↦ h.const _

/-! ### Instructions -/

theorem loadStatic (fuel : Nat) (field : Field) : P fun c ↦ loadStatic c fuel field :=
  either (h.of_same fun _ _ ↦ rfl) (h.bind (h.ensureInitialized fuel _) fun _ ↦ h.const _)

theorem storeStatic (fuel : Nat) (field : Field) : P fun c ↦ storeStatic c fuel field :=
  either (h.of_same fun _ _ ↦ rfl) (h.bind (h.const _) fun _ ↦ h.bind (h.const _) fun _ ↦
    h.bind (h.ensureInitialized fuel _) fun _ ↦ h.const _)

theorem loadStaticAddr (fuel : Nat) (field : Field) : P fun c ↦ loadStaticAddr c fuel field :=
  either (h.const _) (h.bind (h.ensureInitialized fuel _) fun _ ↦ h.const _)

theorem loadField (fuel : Nat) (field : Field) : P fun c ↦ loadField c fuel field := by
  refine either (h.bind (h.const _) fun _ ↦ h.loadStatic fuel field) ?_
  refine h.bind (h.const _) fun s ↦ h.bind (h.const _) fun target ↦ either ?_ ?_
  · exact h.bind (h.const _) fun _ ↦ h.bind (h.const _) fun _ ↦ h.of_same fun _ _ ↦ rfl
  · cases target <;> exact h.const _

theorem storeField (fuel : Nat) (field : Field) : P fun c ↦ storeField c fuel field := by
  have hpop {X : Callees → RunM Unit} (hX : P X) : P (fun c ↦ do X c; Stack.popMany 2) :=
    h.bind hX fun _ ↦ h.const _
  refine either (hpop (h.storeStatic fuel field)) ?_
  refine h.bind (h.const _) fun s ↦ h.bind (h.const _) fun target ↦ either ?_ ?_
  · exact h.bind (h.const _) fun _ ↦ hpop (h.of_same fun _ _ ↦ rfl)
  · exact h.const _

theorem call (fuel : Nat) (f : Frame) (token : Token) (virtual_ : Bool) :
    P fun c ↦ call c fuel f token virtual_ := by
  refine h.bind (h.const _) fun found ↦ ?_
  cases found with
  | none => exact h.const _
  | some id =>
    exact h.bind (h.const _) fun _ ↦ h.bind (h.const _) fun base ↦ h.callMethod fuel id base
      virtual_

theorem newObject (fuel : Nat) (f : Frame) (token : Token) :
    P fun c ↦ newObject c fuel f token := by
  refine h.bind (h.const _) fun found ↦ ?_
  cases found with
  | none => exact h.const _
  | some id =>
    exact h.bind (h.const _) fun _ ↦ h.bind (h.const _) fun base ↦ h.constructAt fuel id base

/-- Of every instruction, by cases. -/
theorem step (fuel : Nat) (f : Frame) (addr : Nat) (i : Instruction) :
    P fun c ↦ step c fuel f addr i := by
  have honward {X : Callees → RunM Unit} (hX : P X) : P fun c ↦ onward f (X c) :=
    h.bind hX fun _ ↦ h.const _
  have hfield {X : Callees → Field → RunM Unit} (token : Token)
      (hX : ∀ field, P fun c ↦ X c field) :
      P (fun c ↦ onward f do X c (← fieldOperand fuel f token)) :=
    honward (h.bind (h.const _) hX)
  cases i with
  | call token => exact honward (h.call fuel f token false)
  | callVirtual token => exact honward (h.call fuel f token true)
  | newObject token => exact honward (h.newObject fuel f token)
  | loadField token => exact hfield token (h.loadField fuel)
  | storeField token => exact hfield token (h.storeField fuel)
  | loadStatic token => exact hfield token (h.loadStatic fuel)
  | loadStaticAddr token => exact hfield token (h.loadStaticAddr fuel)
  | storeStatic token =>
    exact honward (h.bind (h.const _) fun field ↦ h.bind (h.storeStatic fuel field) fun _ ↦
      h.const _)
  | _ => exact h.const _

end CallClosed

namespace Engine

theorem byCalls_advance (fuel : Nat) (f : Frame) (addr : Nat) (i : Instruction) :
    ByCalls fun c ↦ advance c fuel f addr i := by
  refine (ByCalls.closed.step fuel f addr i).then_of (fun c c' r h ↦ ?_) fun c r e r' he h ↦
    ⟨r', ?_⟩
  · rw [advance, advance, h]
  · rw [advance, h]
    cases e with
    | exception raised => exact absurd rfl (he raised)
    | _ => rfl

end Engine

end ManagedMachine
