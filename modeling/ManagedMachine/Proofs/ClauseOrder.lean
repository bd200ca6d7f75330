import ManagedMachine.Proofs.HandlerEntry

/-!
# Pending clauses run in order, once each

A leave or an exception yields a list of finally and fault clauses and something to do after them.
The continuation is kept on the unwind stack of the frame while the clauses run, and clause bodies
may start unwindings of their own on top of it. `clauses_run_in_order` puts the pieces of such a run
together: if every body gets to its end with the unwind stack that it began with, the clauses are
entered one after another, and then comes what was to come after them, on the unwind stack from
before. A place has at most one place after it (`Follows.unique`), so that is the only run there is.

An exception that no clause of the frame was to catch is raised again where the last clause ends. It
leaves the frame from there only if no clause claims it at that address.
-/

set_option autoImplicit false
set_option relaxedAutoImplicit false

namespace ManagedMachine

open Engine

/-- The exception with the calls under way, unless it has a trace already. -/
def Raised.tracedIn (raised : Raised) (r : Running) : Raised :=
  if raised.trace.isEmpty then
    { raised with trace := traceOf r.domain.registry r.interpreter.frames }
  else raised

/-! ### The parts of an unwinding -/

/-- The instruction at a place yields the clauses that are to run, what to do after them, and the
unwind stack beneath. -/
inductive Yields (c : Callees) (p : Place) : List Nat → Resume → List Unwind → Prop
  | leave {target : UInt32} {r : Running} (hfuel : p.fuel ≠ 0)
    (hi : p.instruction? = some (.leave target))
    (hpop : (Stack.popTo p.frame.evalBase : RunM Unit) p.noted = .ok () r) :
    Yields c p (leaveClauses p.frame.body.clauses p.addr target.toNat) (.leave target.toNat)
      p.frame.unwinds
  | caught {fuel k : Nat} {f : Frame} {raised : Raised} {r r₁ r₂ : Running}
      (hfuel : p.fuel = fuel + 1)
    (hraises : Raises c fuel p f raised r)
    (hcatch : selectCatch f.body.clauses p.addr (fun _ ↦ catchFit fuel f raised.value) r =
      .ok (some k) r₁)
    (hpop : (Stack.popTo f.evalBase : RunM Unit) r₁ = .ok () r₂)
    (hroom : unwindClauses f.body.clauses p.addr (some (f.clause k)) = [] →
      f.evalBase < r₂.stack.low) :
    Yields c p (unwindClauses f.body.clauses p.addr (some (f.clause k)))
      (.catch k (raised.tracedIn r)) (f.abandon p.addr (some k) f.unwinds)
  | uncaught {fuel : Nat} {f : Frame} {raised : Raised} {r r₁ r₂ : Running}
      (hfuel : p.fuel = fuel + 1)
    (hraises : Raises c fuel p f raised r)
    (hcatch : selectCatch f.body.clauses p.addr (fun _ ↦ catchFit fuel f raised.value) r =
      .ok none r₁)
    (hpop : (Stack.popTo f.evalBase : RunM Unit) r₁ = .ok () r₂) :
    Yields c p (unwindClauses f.body.clauses p.addr none) (.propagate (raised.tracedIn r))
      (f.abandon p.addr none f.unwinds)

/-- Control has come to the start of a clause, and the clauses in `rest` are to follow. -/
structure EntersClause (k : Nat) (rest : List Nat) (resume : Resume) (others : List Unwind)
    (p : Place) : Prop where
  unwinds : p.frame.unwinds = ⟨k, rest, resume⟩ :: others
  addr : p.addr = (p.frame.clause k).handlerStart

/-- The code of a clause, which is running with the unwind stack `U`, gets from `p` to its end at
`q`. The unwindings of `U` stay under way, and it is the first end of a clause with no others. -/
inductive RunsTo (c : Callees) (U : List Unwind) : Place → Place → Prop
  | ends {p : Place} (hfuel : p.fuel ≠ 0) (hi : p.instruction? = some .endFinally)
    (hU : p.frame.unwinds = U) : RunsTo c U p p
  | step {p q z : Place} (h : Follows c p q) (hover : U <:+ p.frame.unwinds)
    (hrunning : ¬(p.instruction? = some .endFinally ∧ p.frame.unwinds = U))
    (hrest : RunsTo c U q z) :
    RunsTo c U p z

/-- From `p` control passes to the first of the clauses, from its end to the next one, and so on to
the end `z` of the last one. -/
inductive RunInOrder (c : Callees) (resume : Resume) (others : List Unwind) :
    List Nat → Place → Place → Prop
  | done (p : Place) : RunInOrder c resume others [] p p
  | next {k : Nat} {rest : List Nat} {p e b z : Place} (henter : Follows c p e)
    (hclause : EntersClause k rest resume others e)
    (hruns : RunsTo c (⟨k, rest, resume⟩ :: others) e b)
    (hrest : RunInOrder c resume others rest b z) : RunInOrder c resume others (k :: rest) p z

/-- What was to come after the clauses comes after `p`, with the given unwind stack. An exception
leaves the frame as it was raised, but for a trace that it did not have. -/
def Performs (c : Callees) (others : List Unwind) (p : Place) : Resume → Prop
  | .leave target => ∃ q, Follows c p q ∧ q.addr = target ∧ q.frame.unwinds = others
  | .catch k raised => ∃ q, Follows c p q ∧ q.addr = (q.frame.clause k).handlerStart ∧
    q.frame.caught.head? = some (k, raised) ∧ q.frame.unwinds = others
  | .propagate raised => ∃ r raised', p.run c = .error (.exception raised') r ∧
    raised'.value = raised.value ∧ (raised.trace ≠ [] → raised' = raised)

namespace Place

/-- The operands of the frame can be given up, and there is room for one. -/
def Droppable (p : Place) : Prop :=
  ∃ r, (Stack.popTo p.frame.evalBase : RunM Unit) p.noted = .ok () r ∧
  p.frame.evalBase < r.stack.low

/-- No clause of the frame claims an exception that is raised at the place. -/
def Unclaimed (p : Place) (raised : Raised) : Prop :=
  unwindClauses p.frame.body.clauses p.addr none = [] ∧
  ∃ r₁ r₂, selectCatch p.frame.body.clauses p.addr
      (fun _ ↦ catchFit (p.fuel - 1) p.frame raised.value) p.noted = .ok none r₁ ∧
    (Stack.popTo p.frame.evalBase : RunM Unit) r₁ = .ok () r₂

end Place

/-! ### Transitions -/

namespace Engine

variable {c : Callees} {fuel next : Nat} {f f' : Frame} {r r' : Running} {p : Place}

theorem withTrace_ok (raised : Raised) (r : Running) :
    withTrace raised r = .ok (raised.tracedIn r) r := by
  unfold withTrace Raised.tracedIn
  split <;> rfl

theorem popTo_self {a : Nat} (h : r.stack.top = a) :
    (Stack.popTo a : RunM Unit) r = .ok () r := by
  have hpop : Stack.popTo a r.stack = .ok () r.stack := by
    unfold Stack.popTo
    rw [if_neg (by omega), h, Nat.sub_self]
    rfl
  exact onStack_of_ok hpop

theorem pushObject_of_room (x : Value) (h : r.stack.top < r.stack.low) :
    ∃ r', (Stack.pushObject x : RunM Unit) r = .ok () r' := by
  have hpush (s : Slot) (st : Stack) (hroom : st.top < st.low) :
      ∃ st', Stack.push s st = .ok () st' := by
    rw [Stack.push, if_neg (Nat.not_le.mpr hroom)]
    exact ⟨_, rfl⟩
  have hobject : ∃ st, Stack.pushObject x r.stack = .ok () st := by
    unfold Stack.pushObject
    split
    · exact hpush .null r.stack h
    · exact hpush (.object r.stack.managed.size)
        { r.stack with managed := r.stack.managed.push x } h
  obtain ⟨st, hst⟩ := hobject
  exact ⟨_, onStack_of_ok hst⟩

theorem follows_leave {target : UInt32} (hfuel : p.fuel = fuel + 1)
    (hi : p.instruction? = some (.leave target))
    (h : leave p.frame p.addr target.toNat p.noted = .ok (.at next, f') r') :
    Follows c p ⟨fuel, f', next, r'⟩ := by
  have hstep : step c fuel p.frame p.addr (.leave target) p.noted = .ok (.jump next, f') r' :=
    bind_of_ok h
  refine ⟨hfuel, _, hi, ?_⟩
  rw [advance, hstep]

theorem follows_endFinally (hfuel : p.fuel = fuel + 1) (hi : p.instruction? = some .endFinally)
    (h : endFinally p.frame p.noted = .ok (.at next, f') r') :
    Follows c p ⟨fuel, f', next, r'⟩ := by
  have hstep : step c fuel p.frame p.addr .endFinally p.noted = .ok (.jump next, f') r' :=
    bind_of_ok h
  refine ⟨hfuel, _, hi, ?_⟩
  rw [advance, hstep]

/-- A raised exception is dispatched at the address of the instruction. -/
theorem advance_of_raises {raised : Raised} (h : Raises c fuel p f raised r) :
    ∃ i, p.instruction? = some i ∧
      advance c fuel p.frame p.addr i p.noted = dispatch fuel f p.addr raised r := by
  cases h with
  | step hi hstep => exact ⟨_, hi, by rw [advance, hstep]⟩
  | heldBack hi hend =>
    have hstep : step c fuel p.frame p.addr .endFinally p.noted = .ok (.raise raised, f) r :=
      bind_of_ok hend
    exact ⟨_, hi, by rw [advance, hstep]⟩

theorem follows_raises {raised : Raised} (hfuel : p.fuel = fuel + 1)
    (hraises : Raises c fuel p f raised r)
    (h : handleException fuel f p.addr raised r = .ok (.at next, f') r') :
    Follows c p ⟨fuel, f', next, r'⟩ := by
  obtain ⟨i, hi, hadvance⟩ := advance_of_raises hraises
  refine ⟨hfuel, i, hi, hadvance.trans ?_⟩
  rw [dispatch, bind_of_ok h]
  rfl

theorem run_raises {raised raised' : Raised} (hfuel : p.fuel = fuel + 1)
    (hraises : Raises c fuel p f raised r)
    (h : handleException fuel f p.addr raised r = .ok (.raise raised', f') r') :
    p.run c = .error (.exception raised') r' := by
  obtain ⟨i, hi, hadvance⟩ := advance_of_raises hraises
  rw [Place.run, hfuel]
  refine loop_failed hi (hadvance.trans ?_)
  rw [dispatch, bind_of_ok h]
  rfl

theorem tracedIn_value (raised : Raised) (r : Running) :
    (raised.tracedIn r).value = raised.value := by
  unfold Raised.tracedIn
  split <;> rfl

/-- An exception that a clause of the frame is to catch: the clauses up to it are left pending, and
what comes after them is the catch. -/
theorem handleException_caught {addr k : Nat} {raised : Raised} {r₁ r₂ : Running}
    (hcatch : selectCatch f.body.clauses addr (fun _ ↦ catchFit fuel f raised.value) r =
      .ok (some k) r₁)
    (hpop : (Stack.popTo f.evalBase : RunM Unit) r₁ = .ok () r₂) :
    handleException fuel f addr raised r =
      unwind { f with unwinds := f.abandon addr (some k) f.unwinds }
        (unwindClauses f.body.clauses addr (some (f.clause k))) (.catch k (raised.tracedIn r))
        r₂ := by
  unfold handleException
  rw [bind_of_ok (withTrace_ok raised r), tracedIn_value, bind_of_ok hcatch]
  exact bind_of_ok hpop

/-- An exception that no clause is to catch: the same with the raise out of the frame at the end. -/
theorem handleException_uncaught {addr : Nat} {raised : Raised} {r₁ r₂ : Running}
    (hcatch : selectCatch f.body.clauses addr (fun _ ↦ catchFit fuel f raised.value) r =
      .ok none r₁)
    (hpop : (Stack.popTo f.evalBase : RunM Unit) r₁ = .ok () r₂) :
    handleException fuel f addr raised r =
      unwind { f with unwinds := f.abandon addr none f.unwinds }
        (unwindClauses f.body.clauses addr none) (.propagate (raised.tracedIn r)) r₂ := by
  unfold handleException
  rw [bind_of_ok (withTrace_ok raised r), tracedIn_value, bind_of_ok hcatch]
  exact bind_of_ok hpop

/-- An exception for which there is room gets to its catch clause. -/
theorem finish_catch {k : Nat} (raised : Raised) {r₁ : Running}
    (hpop : (Stack.popTo f.evalBase : RunM Unit) r = .ok () r₁)
    (hroom : f.evalBase < r₁.stack.low) :
    ∃ r', finish f (.catch k raised) r =
      .ok (.at (f.clause k).handlerStart, { f with caught := (k, raised) :: f.caught }) r' := by
  obtain ⟨r', hpush⟩ := pushObject_of_room raised.value (popTo_top hpop ▸ hroom)
  refine ⟨r', ?_⟩
  refine (bind_of_ok hpop).trans ?_
  exact bind_of_ok hpush

end Engine

/-! ### The steps of an unwinding -/

variable {c : Callees} {resume : Resume} {others : List Unwind} {clauses : List Nat} {p q z : Place}

/-- Control is about to pass to the first of the clauses, or to what comes after them. -/
structure AboutTo (c : Callees) (resume : Resume) (others : List Unwind) (clauses : List Nat)
    (p : Place) : Prop where
  enter : ∀ k rest, clauses = k :: rest → ∃ e, Follows c p e ∧ EntersClause k rest resume others e
  perform : clauses = [] → Performs c others p resume

/-- So it is where the clauses are yielded. -/
theorem Yields.aboutTo (h : Yields c p clauses resume others) :
    AboutTo c resume others clauses p := by
  cases h with
  | @leave target r hfuel hi hpop =>
    obtain ⟨fuel, hfuel⟩ := Nat.exists_eq_succ_of_ne_zero hfuel
    have hleave : Engine.leave p.frame p.addr target.toNat p.noted =
        unwind { p.frame with caught := p.frame.keptOnLeave p.addr target.toNat }
          (leaveClauses p.frame.body.clauses p.addr target.toNat) (.leave target.toNat) r :=
      bind_of_ok hpop
    refine ⟨fun k rest hclauses ↦ ?_, fun hclauses ↦ ?_⟩
    · rw [hclauses] at hleave
      exact ⟨_, follows_leave hfuel hi hleave, rfl, rfl⟩
    · rw [hclauses] at hleave
      exact ⟨_, follows_leave hfuel hi hleave, rfl, rfl⟩
  | @caught fuel k f raised r r₁ r₂ hfuel hraises hcatch hpop hroom =>
    have hhandle := handleException_caught hcatch hpop
    refine ⟨fun k' rest hclauses ↦ ?_, fun hclauses ↦ ?_⟩
    · rw [hclauses] at hhandle
      exact ⟨_, follows_raises hfuel hraises hhandle, rfl, rfl⟩
    · rw [hclauses, unwind_nil] at hhandle
      obtain ⟨r', hfinish⟩ := finish_catch (k := k)
        (f := { f with unwinds := f.abandon p.addr (some k) f.unwinds }) (raised.tracedIn r)
        (popTo_self (popTo_top hpop)) (hroom hclauses)
      exact ⟨_, follows_raises hfuel hraises (hhandle.trans hfinish), rfl, rfl, rfl⟩
  | @uncaught fuel f raised r r₁ r₂ hfuel hraises hcatch hpop =>
    have hhandle := handleException_uncaught hcatch hpop
    refine ⟨fun k rest hclauses ↦ ?_, fun hclauses ↦ ?_⟩
    · rw [hclauses] at hhandle
      exact ⟨_, follows_raises hfuel hraises hhandle, rfl, rfl⟩
    · rw [hclauses] at hhandle
      exact ⟨r₂, _, run_raises hfuel hraises hhandle, rfl, fun _ ↦ rfl⟩

/-- And so it is where a clause ends. -/
theorem aboutTo_of_end {k : Nat} {rest : List Nat} (hfuel : p.fuel ≠ 0)
    (hi : p.instruction? = some .endFinally)
    (hunwinds : p.frame.unwinds = ⟨k, rest, resume⟩ :: others)
    (hdrop : p.Droppable)
    (hclaim : rest = [] → ∀ raised, resume = .propagate raised → p.Unclaimed raised) :
    AboutTo c resume others rest p := by
  obtain ⟨fuel, hfuel⟩ := Nat.exists_eq_succ_of_ne_zero hfuel
  obtain ⟨r, hpop, hroom⟩ := hdrop
  refine ⟨fun d rest' hrest ↦ ?_, fun hrest ↦ ?_⟩
  · have hend : endFinally p.frame p.noted = .ok (.at (p.frame.clause d).handlerStart,
        { p.frame with unwinds := ⟨d, rest', resume⟩ :: others }) r := by
      simp only [endFinally, hunwinds, hrest]
      exact bind_of_ok hpop
    exact ⟨_, follows_endFinally hfuel hi hend, rfl, rfl⟩
  · have hend : endFinally p.frame p.noted =
        finish { p.frame with unwinds := others } resume p.noted := by
      simp only [endFinally, hunwinds, hrest]
    cases resume with
    | leave target => exact ⟨_, follows_endFinally hfuel hi hend, rfl, rfl⟩
    | «catch» k' raised =>
      obtain ⟨r', hfinish⟩ :=
        finish_catch (k := k') (f := { p.frame with unwinds := others }) raised
        hpop hroom
      exact ⟨_, follows_endFinally hfuel hi (hend.trans hfinish), rfl, rfl, rfl⟩
    | propagate raised =>
      obtain ⟨hnone, r₁, r₂, hcatch, hpop'⟩ := hclaim hrest raised rfl
      rw [hfuel] at hcatch
      have hraises : Raises c fuel p { p.frame with unwinds := others } raised p.noted :=
        .heldBack hi hend
      have hhandle :=
        handleException_uncaught (f := { p.frame with unwinds := others }) hcatch hpop'
      rw [hnone] at hhandle
      refine ⟨r₂, _, run_raises hfuel hraises hhandle, tracedIn_value raised p.noted,
        fun htrace ↦ ?_⟩
      unfold Raised.tracedIn
      rw [if_neg (by simpa using htrace)]

/-! ### Runs -/

/-- A run that keeps to its unwind stack is a run. -/
theorem RunsTo.path {U : List Unwind} (h : RunsTo c U p q) :
    Relation.ReflTransGen (Follows c) p q := by
  induction h with
  | ends => exact .refl
  | step h _ _ _ ih => exact .head h ih

theorem RunsTo.at_end {U : List Unwind} (h : RunsTo c U p q) :
    q.fuel ≠ 0 ∧ q.instruction? = some .endFinally ∧ q.frame.unwinds = U := by
  induction h with
  | ends hfuel hi hU => exact ⟨hfuel, hi, hU⟩
  | step _ _ _ _ ih => exact ih

theorem RunInOrder.path (h : RunInOrder c resume others clauses p z) :
    Relation.ReflTransGen (Follows c) p z := by
  induction h with
  | done => exact .refl
  | next henter _ hruns _ ih => exact .head henter (hruns.path.trans ih)

/-- The run of a list of clauses, by induction on the list: each body is run to its end, where the
unwind stack is again as it was when the body began, and the next clause is entered from there. -/
theorem AboutTo.runs (h : AboutTo c resume others clauses p)
    (hbody : ∀ k rest e, (k :: rest) <:+ clauses → Relation.ReflTransGen (Follows c) p e →
      EntersClause k rest resume others e → ∃ b, RunsTo c (⟨k, rest, resume⟩ :: others) e b ∧
        b.Droppable ∧ (rest = [] → ∀ raised, resume = .propagate raised → b.Unclaimed raised)) :
    ∃ z, RunInOrder c resume others clauses p z ∧ Performs c others z resume := by
  induction clauses generalizing p with
  | nil => exact ⟨p, .done p, h.perform rfl⟩
  | cons k rest ih =>
    obtain ⟨e, henter, hclause⟩ := h.enter k rest rfl
    obtain ⟨b, hruns, hdrop, hclaim⟩ := hbody k rest e List.suffix_rfl (.single henter) hclause
    obtain ⟨hfuel, hi, hunwinds⟩ := hruns.at_end
    obtain ⟨z, hrest, hperform⟩ := ih (aboutTo_of_end hfuel hi hunwinds hdrop hclaim)
      fun k' rest' e' hsuffix hpath ↦ hbody k' rest' e' (hsuffix.trans (List.suffix_cons k rest))
        (.head henter (hruns.path.trans hpath))
    exact ⟨z, .next henter hclause hruns hrest, hperform⟩

/-- The clauses that a leave or an exception yields are run one after another, each of them once,
and what was to come after them comes after the last one, on the unwind stack from before. Every
body has to get to its end with the unwind stack that it was entered with, and with nothing but
operands of its own missing; and an exception that goes on behind the last clause must not be
claimed there. -/
theorem clauses_run_in_order (h : Yields c p clauses resume others)
    (hbody : ∀ k rest e, (k :: rest) <:+ clauses → Relation.ReflTransGen (Follows c) p e →
      EntersClause k rest resume others e → ∃ b, RunsTo c (⟨k, rest, resume⟩ :: others) e b ∧
        b.Droppable ∧ (rest = [] → ∀ raised, resume = .propagate raised → b.Unclaimed raised)) :
    ∃ z, RunInOrder c resume others clauses p z ∧ p.run c = z.run c ∧
    Performs c others z resume := by
  obtain ⟨z, hruns, hperform⟩ := h.aboutTo.runs hbody
  exact ⟨z, hruns, run_of_path hruns.path, hperform⟩

/-- A leave through two finally clauses. -/
def twoClausesBody : Body :=
  ⟨[], #[.leave 3, .endFinally, .endFinally, .ret],
    [⟨.finally, 0, 0, 1, 1, none⟩, ⟨.finally, 0, 1, 2, 2, none⟩]⟩

/-- Is no clause running at the place, or is the one that runs at its end, with no operands? -/
def Place.idle (p : Place) : Bool :=
  p.frame.unwinds.isEmpty || p.fuel != 0 && p.instruction? == some .endFinally &&
    p.machine.stack.top == p.frame.evalBase && decide (p.frame.evalBase < p.machine.stack.low)

/-- A clause whose body is only its end. -/
theorem Place.runs_of_idle {k : Nat} {rest : List Nat} (h : p.idle = true)
    (hclause : EntersClause k rest resume others p) :
    RunsTo c (⟨k, rest, resume⟩ :: others) p p ∧ p.Droppable := by
  simp only [idle, hclause.unwinds, List.isEmpty_cons, Bool.false_or, Bool.and_eq_true, bne_iff_ne,
    beq_iff_eq, decide_eq_true_eq] at h
  obtain ⟨⟨⟨hfuel, hi⟩, htop⟩, hroom⟩ := h
  refine ⟨.ends hfuel hi hclause.unwinds, p.noted, popTo_self ?_, ?_⟩
  · rw [p.noted_stack, htop]
  · rwa [p.noted_stack]

/-- The start of a method whose leave passes two finally clauses. -/
def twoClauses? : Option Place :=
  Place.opening? 4 ⟨0⟩ twoClausesBody ⟨0⟩ 0 (.ofBodies [twoClausesBody])

theorem clauses_run_in_order_twoClauses :
    ∃ p, twoClauses? = some p ∧ Yields (callees 4) p [0, 1] (.leave 3) [] ∧
      (∀ k rest e, (k :: rest) <:+ [0, 1] → Relation.ReflTransGen (Follows (callees 4)) p e →
        EntersClause k rest (.leave 3) [] e → ∃ b, RunsTo (callees 4) [⟨k, rest, .leave 3⟩] e b ∧
          b.Droppable ∧ (rest = [] → ∀ raised, .leave 3 = Resume.propagate raised →
            b.Unclaimed raised)) ∧
      ∃ z, RunInOrder (callees 4) (.leave 3) [] [0, 1] p z ∧ p.run (callees 4) = z.run (callees 4) ∧
        Performs (callees 4) [] z (.leave 3) := by
  have hstart : twoClauses?.map (fun p ↦ (p.fuel, p.instruction?, p.addr, p.frame.body.clauses,
      p.frame.unwinds, p.machine.stack.top, p.frame.evalBase,
      (p.trail (callees 4) 4).all Place.idle)) =
        some (4, some (.leave 3), 0, twoClausesBody.clauses, [], 0, 0, true) := by cbv
  obtain ⟨p, hp, hfacts⟩ := Option.map_eq_some_iff.mp hstart
  simp only [Prod.mk.injEq] at hfacts
  obtain ⟨hfuel, hi, haddr, hclauses, hunwinds, htop, hbase, hidle⟩ := hfacts
  have hyields : Yields (callees 4) p [0, 1] (.leave 3) [] := by
    have hpop : (Stack.popTo p.frame.evalBase : RunM Unit) p.noted = .ok () p.noted :=
      popTo_self (by rw [p.noted_stack, htop, hbase])
    have h := Yields.leave (c := callees 4) (by omega) hi hpop
    rw [hclauses, haddr, hunwinds] at h
    have hleave : leaveClauses twoClausesBody.clauses 0 3 = [0, 1] := by cbv
    exact hleave ▸ h
  have hbody (k : Nat) (rest : List Nat) (e : Place) (_ : (k :: rest) <:+ [0, 1])
      (hpath : Relation.ReflTransGen (Follows (callees 4)) p e)
      (hclause : EntersClause k rest (.leave 3) [] e) :
      ∃ b, RunsTo (callees 4) [⟨k, rest, .leave 3⟩] e b ∧ b.Droppable ∧
        (rest = [] → ∀ raised, .leave 3 = Resume.propagate raised → b.Unclaimed raised) := by
    have he := List.all_eq_true.mp hidle e (Place.mem_trail hfuel.le hpath)
    obtain ⟨hruns, hdrop⟩ := Place.runs_of_idle he hclause
    refine ⟨e, hruns, hdrop, fun _ raised h ↦ ?_⟩
    cases h
  exact ⟨p, hp, hyields, hbody, clauses_run_in_order hyields hbody⟩

/-- A catch clause that raises its exception again, out of a finally clause whose end another catch
clause protects. -/
def reclaimingBody : Body :=
  ⟨[], #[.rethrow, .endFinally, .constInt32 1, .ret],
    [⟨.catch, 9, 9, 0, 0, none⟩, ⟨.finally, 0, 0, 1, 1, none⟩, ⟨.catch, 1, 1, 2, 3, none⟩]⟩

/-- The start of a method with an exception that its first catch clause has caught. -/
def reclaiming? : Option Place :=
  (Place.opening? 6 ⟨0⟩ reclaimingBody ⟨0⟩ 0 (.ofBodies [reclaimingBody])).map fun p ↦
    { p with frame := { p.frame with caught := [(0, ⟨.string "raised", []⟩)] } }

/-- An exception that has passed its last clause need not leave the frame: a clause that protects
the end of the last one may claim it. -/
theorem exception_claimed_behind_clause : ¬∀ (c : Callees) (p : Place) (clauses : List Nat)
    (resume : Resume) (others : List Unwind), Yields c p clauses resume others →
    (∀ k rest e, (k :: rest) <:+ clauses → Relation.ReflTransGen (Follows c) p e →
      EntersClause k rest resume others e →
        ∃ b, RunsTo c (⟨k, rest, resume⟩ :: others) e b ∧ b.Droppable) →
    ∃ z, RunInOrder c resume others clauses p z ∧ Performs c others z resume := by
  intro h
  have hstart : reclaiming?.map (fun p ↦ (p.fuel, p.instruction?, p.addr, p.frame.body.clauses,
      p.frame.unwinds, p.frame.rethrown? p.addr, p.machine.stack.top, p.frame.evalBase,
      (p.trail (callees 6) 6).all Place.idle, p.returns (callees 6))) =
        some (6, some .rethrow, 0, reclaimingBody.clauses, [], some ⟨.string "raised", []⟩, 0, 0,
        true,
          true) := by cbv
  obtain ⟨p, -, hfacts⟩ := Option.map_eq_some_iff.mp hstart
  simp only [Prod.mk.injEq] at hfacts
  obtain ⟨hfuel, hi, haddr, hclauses, hunwinds, hrethrown, htop, hbase, hidle, hreturns⟩ := hfacts
  have hraises : Raises (callees 6) 5 p p.frame ⟨.string "raised", []⟩ p.noted := by
    refine .step hi ?_
    change rethrow p.frame p.addr p.noted = _
    unfold rethrow
    rw [hrethrown]
    rfl
  have hcatch : selectCatch p.frame.body.clauses p.addr
      (fun _ ↦ catchFit 5 p.frame (.string "raised")) p.noted = .ok none p.noted := by
    rw [hclauses, haddr]
    rfl
  have hpop : (Stack.popTo p.frame.evalBase : RunM Unit) p.noted = .ok () p.noted :=
    popTo_self (by rw [p.noted_stack, htop, hbase])
  have hyields := Yields.uncaught hfuel hraises hcatch hpop
  have hbody (k : Nat) (rest : List Nat) (e : Place) {resume : Resume} {others : List Unwind}
      (hpath : Relation.ReflTransGen (Follows (callees 6)) p e)
      (hclause : EntersClause k rest resume others e) :
      ∃ b, RunsTo (callees 6) (⟨k, rest, resume⟩ :: others) e b ∧ b.Droppable := by
    have he := List.all_eq_true.mp hidle e (Place.mem_trail hfuel.le hpath)
    exact ⟨e, Place.runs_of_idle he hclause⟩
  obtain ⟨z, hruns, r, raised, herror, -⟩ := h _ p _ _ _ hyields fun k rest e _ ↦ hbody k rest e
  unfold Place.returns at hreturns
  rw [run_of_path hruns.path, herror] at hreturns
  cases hreturns

end ManagedMachine
