import ManagedMachine.Proofs.PoolAccounting
import ManagedMachine.Proofs.TwinErrands

/-!
# Reused interpreters

An interpreter that comes back to the pool is cleared, but its slots keep what earlier calls have
left in them. None of that is ever read: two interpreters that are blank, with one id and as many
slots, are twins for every set of addresses beyond the stack, and errands that the host has for them
end alike and leave blank interpreters again. So every history of errands is one of both, and
whatever the host asks of a domain is such an errand on the interpreter that is borrowed
(`Domain.Asked.hands`).

Two things are asked of the host. Its code writes no address into a struct but one that it was
handed, and it calls no host method with a parameter of type void: such a parameter gets no slot,
and the method would read its argument where nothing was put.
-/

set_option autoImplicit false
set_option relaxedAutoImplicit false

namespace ManagedMachine

open Engine

/-! ### Blank interpreters -/

/-- Two blank interpreters that differ in what earlier calls have left in their slots at most. -/
structure Interpreter.Equipped (i i' : Interpreter) : Prop where
  id : i'.id = i.id
  capacity : i'.stack.capacity = i.stack.capacity
  blank : i.Blank
  blank' : i'.Blank

theorem Interpreter.Equipped.symm {i i' : Interpreter} (h : i.Equipped i') : i'.Equipped i :=
  ⟨h.id.symm, h.capacity.symm, h.blank', h.blank⟩

theorem Interpreter.equipped_clear_fresh (i : Interpreter) :
    i.clear.Equipped (fresh i.id i.stack.capacity) :=
  ⟨rfl, Array.size_replicate, i.blank_clear, blank_fresh _ _⟩

/-- On blank stacks no slot is looked at. -/
theorem Interpreter.Equipped.twin {i i' : Interpreter} (h : i.Equipped i') {d : Domain}
    (hd : d.bindings.Honest) : Running.Twin ⟨i.stack.capacity, ∅⟩ {a | i.stack.capacity ≤ a}
      ⟨d, i⟩ ⟨d, i'⟩ := by
  have hnone {a : Nat} (ha : i.stack.capacity ≤ a) : i.stack.slots[a]? = none :=
    Array.getElem?_eq_none ha
  have habsent {a : Nat} {x : Slot} (ha : i.stack.capacity ≤ a)
      (hx : i.stack.slots[a]? = some x) : False := nomatch (hnone ha).symm.trans hx
  refine ⟨rfl, h.id, h.blank'.frames.trans h.blank.frames.symm, ?_, hd⟩
  constructor
  case rest =>
    have hrest : ∀ s s' : Stack, s'.top = s.top → s'.low = s.low → s'.base = s.base →
        s'.floor = s.floor → s'.managed = s.managed → s' = { s with slots := s'.slots } := by
      rintro ⟨_, _, _, _, _, _⟩ ⟨_, _, _, _, _, _⟩ rfl rfl rfl rfl rfl
      rfl
    exact hrest _ _ (h.blank'.top.trans h.blank.top.symm)
      ((h.blank'.low.trans h.capacity).trans h.blank.low.symm)
      ((h.blank'.base.trans h.capacity).trans h.blank.base.symm)
      (h.blank'.floor.trans h.blank.floor.symm) (h.blank'.managed.trans h.blank.managed.symm)
  case size => exact h.capacity
  case slot =>
    exact fun ha ↦ (Array.getElem?_eq_none (h.capacity.trans_le ha)).trans (hnone ha).symm
  case ends =>
    rintro a (ha | ha)
    · exact absurd (ha.trans_eq h.blank.top) (Nat.not_lt_zero a)
    · exact h.blank.low.symm.trans_le ha
  case operand => exact fun ha ↦ absurd (ha.trans_eq h.blank.top) (Nat.not_lt_zero _)
  case leads => exact fun ha hx ↦ (habsent ha hx).elim
  case block => exact fun hd hx ↦ (habsent hd hx).elim
  case sized => exact fun hd hx ↦ (habsent hd hx).elim
  case room => exact fun hd hx ↦ (habsent hd hx).elim
  case field => exact fun hd hx ↦ (habsent hd hx).elim
  case above => exact fun hd hx ↦ (habsent hd hx).elim
  case levels => exact fun hv ↦ hv.elim
  case base => exact h.blank.base
  case fits => exact h.blank.low.le

theorem Running.Akin.equipped {r r' : Running} (h : r.Akin r') :
    r.interpreter.clear.Equipped r'.interpreter.clear :=
  ⟨h.id, h.capacity, r.interpreter.blank_clear, r'.interpreter.blank_clear⟩

/-! ### Errands -/

/-- What an interpreter is borrowed for: the call of a method, the construction of an object, and a
call that is streamed. The types are those of the parameters that it passes values for. -/
inductive Errand (n : Nat) (d : Domain) : List TypeId → {α : Type} → RunM α → Prop
  | invoke (fuel : Nat) {id : MethodId} {receiver : Option Value} {args : List Value}
      (haccepts : d.registry.Accepts id args)
      (hreceiver : (d.registry.method id).flags.hasThis = true → receiver.isSome) :
      Errand n d (d.registry.method id).params do
        if !(d.registry.method id).flags.hasThis then
          ensureInitialized (callees n) fuel (d.registry.method id).declaring
        invokeHost (callees n) fuel id receiver args
  | construct (fuel : Nat) {id : MethodId} {args : List Value}
      (haccepts : d.registry.Accepts id args) :
      Errand n d (d.registry.method id).params (constructHost (callees n) fuel id args)
  | stream (fuel : Nat) (id : MethodId) {xs : List StreamCall} (hxs : ∀ x ∈ xs, x.Plain) :
      Errand n d [] ((⟨id, false⟩ : Stream).calls (callees n) fuel xs)

variable {n : Nat} {d : Domain} {types : List TypeId} {α β : Type}

/-- An errand goes the same way on both. -/
theorem Errand.akin {x : RunM α} (hx : Errand n d types x) (hsolid : d.registry.Solid types)
    (hd : d.bindings.Honest) {i i' : Interpreter} (h : i.Equipped i') :
    Agreed (fun _ ↦ Running.Akin) Running.Akin (x ⟨d, i⟩) (x ⟨d, i'⟩) := by
  have hc := twins_callees n
  have hg : Guard.Shields ⟨i.stack.capacity, ∅⟩ := fun _ hv ↦ hv.elim
  have htwin := h.twin hd
  have hakin : Alike (fun _ ↦ Running.Akin) {a | i.stack.capacity ≤ a} x ⟨d, i⟩ ⟨d, i'⟩ := by
    cases hx with
    | invoke fuel haccepts hreceiver =>
      exact akin_invocation hc (extends_callees n) hg htwin fuel haccepts hsolid hreceiver
    | construct fuel haccepts => exact akin_constructHost hc hg htwin fuel haccepts hsolid
    | stream fuel id hxs =>
      exact (alike_streamCalls hc hg fuel _ hxs _ htwin).weaken fun _ _ _ ↦ Running.Twin.akin
  refine Agreed.imp hakin (fun _ _ _ hend ↦ ?_) fun _ _ hend ↦ ?_
  · obtain ⟨_, _, hend, -⟩ := hend
    exact hend
  · obtain ⟨_, _, hend⟩ := hend
    exact hend

namespace Domain

/-- The operation borrows an interpreter for an errand, or it borrows none. -/
inductive Hands (n : Nat) (y : DomainM α) (d : Domain) : Prop
  | nothing (h : (endState y d).pool = d.pool)
  | errand {x : RunM α} {d' : Domain} {types : List TypeId} (hx : Errand n d' types x)
      (hpool : d'.pool = d.pool) (h : y d = withInterpreter x d')

/-- What succeeds in a domain has succeeded in its registry. -/
theorem inRegistry_ok {x : RegistryM α} {a : α} {d' : Domain} (h : inRegistry x d = .ok a d') :
    x d.registry = .ok a d'.registry := by
  simp only [inRegistry] at h
  cases hx : x d.registry with
  | error e registry => simp only [hx, reduceCtorEq] at h
  | ok b registry =>
    simp only [hx] at h
    cases h
    rfl

/-- What comes before the interpreter is borrowed needs none. -/
theorem Hands.bind {y : DomainM α} {f : α → DomainM β} (hy : Keeps Idle y)
    (hf : ∀ a d', y d = .ok a d' → d.Idle d' → Hands n (f a) d') : Hands n (y >>= f) d := by
  cases hrun : y d with
  | error e d' => exact .nothing (by rw [endState_error (bind_of_error hrun), (hy.error hrun).pool])
  | ok a d' =>
    have hidle := hy.ok hrun
    cases hf a d' hrun hidle with
    | nothing h => exact .nothing (by rw [endState_bind hrun, h, hidle.pool])
    | errand hx hpool h =>
      exact .errand hx (hpool.trans hidle.pool) ((bind_of_ok hrun).trans h)

/-- An errand may be refused before the interpreter is used. -/
theorem Hands.checked {p : Prop} [Decidable p] {e : Error} {y : DomainM α} (hy : ¬p → Hands n y d) :
    Hands n (if p then (MonadExcept.throw e : DomainM PUnit) >>= fun _ ↦ y else y) d := by
  split
  · exact .nothing rfl
  · next h => exact hy h

/-- A receiver that passed its check is there exactly if the method takes one. -/
theorem checkReceiver_ok {m : Method} {receiver found : Option Value} {d' : Domain}
    (h : checkReceiver m receiver d = .ok found d') :
    (m.flags.hasThis = true → found.isSome) ∧ (found.isSome → m.flags.hasThis = true) := by
  unfold checkReceiver at h
  cases hthis : m.flags.hasThis <;> rw [hthis] at h
  · cases h
    exact ⟨nofun, nofun⟩
  · refine ⟨fun _ ↦ ?_, fun _ ↦ rfl⟩
    rw [if_neg (by decide)] at h
    split at h
    · cases h
    · cases h
    · cases h
      rfl

/-- The call of a method that was chosen. -/
theorem hands_chosen (n fuel : Nat) {target : MethodId} {receiver : Option Value}
    {args : List Value} (haccepts : d.registry.Accepts target args)
    (hreceiver : (d.registry.method target).flags.hasThis = true → receiver.isSome) :
    Hands n (do
      let m ← ask fun d ↦ d.registry.method target
      withInterpreter do
        if !m.flags.hasThis then ensureInitialized (callees n) fuel m.declaring
        invokeHost (callees n) fuel target receiver args) d :=
  .errand (.invoke fuel haccepts hreceiver) rfl rfl

/-- Invoking a method is handing it to the interpreter, once receiver and arguments have been
checked. -/
theorem hands_invoke (n fuel : Nat) {id : MethodId} (hid : d.registry.HasMethod id)
    (receiver : Option Value) (args : List Value) :
    Hands n (invoke (callees n) fuel id receiver args) d := by
  unfold invoke
  refine .bind (grows_ask _) fun m d₁ hm hidle ↦ .checked fun hcount ↦ ?_
  cases hm
  have haccepts : d.registry.Accepts id args := ⟨hid, not_not.mp hcount⟩
  refine .bind (grows_checkReceiver _ _) fun found d₂ hfound hidle₂ ↦
    .bind (grows_checkArguments _ _ _) fun _ d₃ _ hidle₃ ↦ ?_
  obtain ⟨hreceiver, hgiven⟩ := checkReceiver_ok hfound
  have hextends := hidle₂.registry.trans hidle₃.registry
  replace haccepts := haccepts.extends hextends
  have hsame := hextends.method_eq hid
  have hsome : (d₃.registry.method id).flags.hasThis = true → found.isSome :=
    hsame.symm ▸ hreceiver
  have hitself := hands_chosen n fuel haccepts hsome
  dsimp only
  split
  · split
    · refine .bind (grows_ask _) fun t d₄ ht _ ↦ ?_
      cases ht
      refine .bind (grows_inRegistry (Registry.grows_findOverride _ _ _)) fun target d₅ hrun _ ↦ ?_
      replace hrun := inRegistry_ok hrun
      exact hands_chosen n fuel ⟨Registry.findOverride_hasMethod haccepts.present hrun,
        (Registry.findOverride_params haccepts.present hrun).symm ▸ haccepts.count⟩ fun _ ↦ rfl
    · exact hitself
  · exact hitself

/-- So is making an object with one of its constructors. -/
theorem hands_instantiate (n fuel : Nat) (typeName : String) (args : List Value) :
    Hands n (instantiate (callees n) fuel typeName args) d := by
  unfold instantiate
  refine .bind (grows_inRegistry (Registry.grows_resolve _)) fun t d₁ _ _ ↦
    .bind (grows_inRegistry (Registry.grows_constructors t)) fun candidates d₂ hcandidates _ ↦
      .bind (grows_inRegistry (Registry.grows_firstMethod _ _)) fun found d₃ hfirst _ ↦ ?_
  cases found with
  | some id =>
    refine .bind (grows_ask _) fun m d₄ hm _ ↦
      .bind (grows_checkArguments _ _ _) fun _ d₅ _ hidle ↦ .errand (.construct fuel ?_) rfl rfl
    cases hm
    obtain ⟨hsame, hmem, hcount⟩ := Registry.firstMethod_ok (inRegistry_ok hfirst)
    have hconstructor := Registry.constructors_ok (inRegistry_ok hcandidates) id hmem
    rw [← hsame] at hconstructor hcount
    have hpresent := Registry.hasMethod_of (·.flags.constructor) hconstructor rfl
    exact Registry.Accepts.extends ⟨hpresent, (beq_iff_eq.mp hcount).symm⟩ hidle.registry
  | none =>
    refine .bind (grows_ask _) fun isStruct d₄ _ _ ↦ ?_
    split
    · exact .nothing ((grows_defaultValue (R := Idle) fuel t) _).pool
    · exact .nothing rfl

/-- What the host asks of a domain that can need an interpreter: to call a method that the domain
has, to construct an object, and to stream a call that pushes as they are only numbers and null. -/
inductive Asked (n : Nat) (d : Domain) : {α : Type} → DomainM α → Prop
  | invoke (fuel : Nat) {id : MethodId} (hid : d.registry.HasMethod id) (receiver : Option Value)
      (args : List Value) : Asked n d (invoke (callees n) fuel id receiver args)
  | instantiate (fuel : Nat) (typeName : String) (args : List Value) :
      Asked n d (instantiate (callees n) fuel typeName args)
  | stream (fuel : Nat) (id : MethodId) {xs : List StreamCall} (hxs : ∀ x ∈ xs, x.Plain) :
      Asked n d (Stream.run (callees n) fuel id xs)

/-- Whatever the host asks of a domain, an interpreter is borrowed for an errand and for nothing
else: the checks before it leave the pool alone, and all that the operation does then is the
errand. -/
theorem Asked.hands {y : DomainM α} (hy : Asked n d y) : Hands n y d := by
  cases hy with
  | invoke fuel hid receiver args => exact hands_invoke n fuel hid receiver args
  | instantiate fuel typeName args => exact hands_instantiate n fuel typeName args
  | stream fuel id hxs => exact .errand (.stream fuel id hxs) rfl rfl

end Domain

/-! ### Histories -/

/-- The result or the error of a run. -/
def Engine.outcome {α : Type} : EStateM.Result Error Running α → Except Error α
  | .ok a _ => .ok a
  | .error e _ => .error e

theorem Running.Akin.of_agreed {α : Type} {x : RunM α} {r r' : Running}
    (h : Agreed (fun _ ↦ Running.Akin) Running.Akin (x r) (x r')) :
    outcome (x r') = outcome (x r) ∧ (endState x r).Akin (endState x r') := by
  unfold endState
  generalize x r = y, x r' = y' at h
  cases h with
  | ok h => exact ⟨rfl, h⟩
  | error h => exact ⟨rfl, h⟩

/-- What happens while an interpreter is kept: it runs an errand, which has an outcome, or something
happens to the domain elsewhere. -/
inductive Interpreter.Event where
  | errand {α : Type} (x : RunM α) (outcome : Except Error α)
  | elsewhere (d : Domain)

/-- A history of a domain and an interpreter that is cleared after every errand. -/
inductive History (n : Nat) :
    Domain → Interpreter → List Interpreter.Event → Domain → Interpreter → Prop
  | nil (d : Domain) (i : Interpreter) : History n d i [] d i
  | errand {d d' : Domain} {i i' : Interpreter} {α : Type} {x : RunM α}
      {events : List Interpreter.Event}
      {types : List TypeId} (hx : Errand n d types x) (hsolid : d.registry.Solid types)
      (hrest : History n (endState x ⟨d, i⟩).domain (endState x ⟨d, i⟩).interpreter.clear events
        d' i') :
      History n d i (.errand x (outcome (x ⟨d, i⟩)) :: events) d' i'
  | elsewhere {d d₁ d' : Domain} {i i' : Interpreter} {events : List Interpreter.Event}
      (hd₁ : d₁.bindings.Honest) (hrest : History n d₁ i events d' i') :
      History n d i (.elsewhere d₁ :: events) d' i'

/-- By induction on the history. Each errand leaves interpreters that are alike for the next one. -/
theorem History.equipped {n : Nat} {d d' : Domain} {i j : Interpreter}
    {events : List Interpreter.Event}
    (h : History n d i events d' j) (hd : d.bindings.Honest) : ∀ {i' : Interpreter}, i.Equipped i' →
      ∃ j', History n d i' events d' j' ∧ j.Equipped j' := by
  induction h with
  | nil d i => exact fun {i'} hi ↦ ⟨i', .nil d i', hi⟩
  | errand hx hsolid _ ih =>
    intro i' hi
    obtain ⟨houtcome, hend⟩ := Running.Akin.of_agreed (hx.akin hsolid hd hi)
    obtain ⟨j', hrest, hj⟩ := ih hend.honest hend.equipped
    rw [← houtcome, ← hend.domain] at *
    exact ⟨j', .errand hx hsolid hrest, hj⟩
  | elsewhere hd₁ _ ih =>
    intro i' hi
    obtain ⟨j', hrest, hj⟩ := ih hd₁ hi
    exact ⟨j', .elsewhere hd₁ hrest, hj⟩

/-- A reused interpreter behaves like a new one: whatever earlier calls have left in its slots,
after it was cleared it has the same histories as a new interpreter of its size. The errands in them
are the same, with the same results and errors, and the domain ends the same. -/
theorem reused_like_new (n : Nat) (i : Interpreter) (events : List Interpreter.Event) {d : Domain}
    (d' : Domain) (hd : d.bindings.Honest) :
    (∃ j, History n d i.clear events d' j) ↔
      ∃ j, History n d (.fresh i.id i.stack.capacity) events d' j := by
  have hequipped := i.equipped_clear_fresh
  constructor
  · rintro ⟨j, h⟩
    obtain ⟨j', h', -⟩ := h.equipped hd hequipped
    exact ⟨j', h'⟩
  · rintro ⟨j, h⟩
    obtain ⟨j', h', -⟩ := h.equipped hd hequipped.symm
    exact ⟨j', h'⟩

/-! ### An interpreter that has been used -/

/-- An interpreter on which a call has left two slots. -/
def Interpreter.used (s s' : Slot) : Interpreter :=
  ⟨1, endState (do Stack.push s; Stack.push s') (.empty 8), []⟩

/-- The cleared interpreter still has a number and the address of a struct in its slots, which a new
one of the same size does not have. -/
theorem reused_like_new_loadNull :
    (Interpreter.used (.int32 7) (.block 3)).clear.stack.slots ≠
      (Interpreter.fresh 1 8).stack.slots ∧
    (Running.sample [#[.loadNull, .ret]]).domain.bindings.Honest ∧ ∃ j,
      History 3 (Running.sample [#[.loadNull, .ret]]).domain (.fresh 1 8)
        [.errand (constructHost (callees 3) 9 ⟨0⟩ []) (outcome (constructHost (callees 3) 9 ⟨0⟩ []
          ⟨(Running.sample [#[.loadNull, .ret]]).domain,
            (Interpreter.used (.int32 7) (.block 3)).clear⟩))]
        (endState (constructHost (callees 3) 9 ⟨0⟩ [])
          ⟨(Running.sample [#[.loadNull, .ret]]).domain,
            (Interpreter.used (.int32 7) (.block 3)).clear⟩).domain
        j := by
  have hhonest : (Running.sample [#[.loadNull, .ret]]).domain.bindings.Honest :=
    fun _ _ h ↦ nomatch Std.HashMap.getElem?_empty.symm.trans h
  have haccepts : (Running.sample [#[.loadNull, .ret]]).domain.registry.Accepts ⟨0⟩ [] :=
    ⟨Nat.zero_lt_one, rfl⟩
  have hreused := History.errand (i := (Interpreter.used (.int32 7) (.block 3)).clear)
    (.construct (n := 3) 9 haccepts) (fun _ _ _ ht ↦ nomatch ht) (.nil _ _)
  exact ⟨by decide, hhonest, (reused_like_new 3 (.used (.int32 7) (.block 3)) _ _ hhonest).mp
    ⟨_, hreused⟩⟩

/-- A host method with a receiver and a parameter of type void, which gives that argument back. -/
def HostMethod.take : HostMethod :=
  ⟨"Take", [], "", default, [], fun call ↦ .done (call.args.headD .null)⟩

def Domain.takingVoid : Domain :=
  { (default : Domain) with
    registry := { Registry.empty with
      types := #[⟨"System.Void",
        .native { HostType.plain .struct "System" "Void" with primitive := some .void }, [], none⟩]
      methods := #[{ (default : Method) with
        flags := { (default : MethodFlags) with hasThis := true }
        declaring := ⟨1⟩
        params := [⟨0⟩]
        ret := ⟨1⟩
        origin := .native .take }] } }

/-- The receiver is in the first slot, and no argument was put into the second one. -/
def Interpreter.givingReceiver (s : Slot) : Interpreter :=
  ⟨1, ⟨#[.object 0, s, .null, .null, .null, .null, .null, .null], 1, 8, 8, 0, #[.bool true]⟩, []⟩

namespace Engine

variable {α : Type}

theorem afterwards_congr {x y : RunM α} {after : RunM Unit} {r : Running} (h : x r = y r) :
    afterwards x after r = afterwards y after r := by
  simp only [afterwards, h]

theorem bind_congr_left {β : Type} {x y : RunM α} {f : α → RunM β} {r : Running} (h : x r = y r) :
    (x >>= f) r = (y >>= f) r := by
  change EStateM.bind x f r = EStateM.bind y f r
  rw [EStateM.bind, EStateM.bind, h]

theorem callHost_native {c : Callees} {fuel : Nat} {m : Method} {argBase : Nat}
    {hasReceiver : Bool} (host : HostMethod) {r : Running}
    (hredirect : r.domain.bindings.redirection? (r.domain.registry.key m) = none)
    (hhost : m.native? = some host) (hallow : r.domain.config.allowUnboundNative = true) :
    callHost c fuel m argBase hasReceiver r = (do
      finishHostCall fuel ⟨m, argBase, hasReceiver⟩
        (some (← callHostCode c fuel ⟨m, argBase, hasReceiver⟩ host))) r := by
  unfold callHost
  have hask : (Running.onDomain (Domain.ask fun d ↦ d) : RunM Domain) r = .ok r.domain r := rfl
  refine (bind_of_ok hask).trans ?_
  simp only [hredirect, hhost, hallow]
  rfl

/-- What is left of the call once its receiver lies on the stack. -/
def answering (call : RunM Unit) : RunM (Option Value) :=
  afterwards (do
    call
    if (← descriptor ⟨1⟩).isVoid then return none
    else return some (← readValue 9 (← read (·.topSlot)) ⟨1⟩))
    (modifyStack (Stack.reset ⟨0, 8, 8, 0, 0⟩))

/-- A call of host code that takes its first argument, on the operands that are there. -/
def takeArgument : RunM (Option Value) :=
  let taken : HostFrame := ⟨Domain.takingVoid.registry.method ⟨0⟩, 0, true⟩
  answering do finishHostCall 9 taken (some (← callHostCode (callees 1) 9 taken .take))

theorem invokeHost_take (s s' : Slot) :
    invokeHost (callees 1) 9 ⟨0⟩ (some (.bool true)) [.null]
        ⟨.takingVoid,
          ⟨1, ⟨#[s, s', .null, .null, .null, .null, .null, .null], 0, 8, 8, 0, #[]⟩, []⟩⟩ =
      takeArgument ⟨.takingVoid, .givingReceiver s'⟩ :=
  calc
    _ = answering (callHost (callees 1) 9 (Domain.takingVoid.registry.method ⟨0⟩) 0 true)
        ⟨.takingVoid, .givingReceiver s'⟩ := rfl
    _ = takeArgument ⟨.takingVoid, .givingReceiver s'⟩ :=
      afterwards_congr <| bind_congr_left <|
        callHost_native .take Std.HashMap.getElem?_empty rfl rfl

theorem takeArgument_int32 :
    outcome (takeArgument ⟨.takingVoid, .givingReceiver (.int32 7)⟩) = .ok (some (.int32 7)) := by
  cbv

theorem takeArgument_null :
    outcome (takeArgument ⟨.takingVoid, .givingReceiver .null⟩) = .ok (some .null) := by
  cbv

end Engine

/-- Without the condition on the parameters it fails: the host method gives back what an earlier
call has left in the slot that its argument would have. -/
theorem leftover_argument : ¬∀ (n : Nat) (d : Domain) (types : List TypeId)
    (x : RunM (Option Value)), Errand n d types x → d.bindings.Honest → ∀ i : Interpreter,
      outcome (x ⟨d, i.clear⟩) = outcome (x ⟨d, .fresh i.id i.stack.capacity⟩) := by
  intro hreused
  have hhonest : Domain.takingVoid.bindings.Honest :=
    fun _ _ h ↦ nomatch Std.HashMap.getElem?_empty.symm.trans h
  have haccepts : Domain.takingVoid.registry.Accepts ⟨0⟩ [.null] := ⟨Nat.zero_lt_one, rfl⟩
  have htake :
      Errand 1 .takingVoid [⟨0⟩] (invokeHost (callees 1) 9 ⟨0⟩ (some (.bool true)) [.null]) :=
    @Errand.invoke 1 _ 9 ⟨0⟩ (some (.bool true)) [.null] haccepts fun _ ↦ rfl
  have h := hreused 1 _ _ _ htake hhonest (.used .null (.int32 7))
  have hused := invokeHost_take .null (.int32 7)
  have hfresh := invokeHost_take .null .null
  exact absurd ((takeArgument_int32.symm.trans (congrArg outcome hused).symm).trans
    (h.trans ((congrArg outcome hfresh).trans takeArgument_null))) nofun

end ManagedMachine
