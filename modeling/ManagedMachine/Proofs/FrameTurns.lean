import ManagedMachine.Body
import ManagedMachine.Proofs.ClauseOrder

/-!
# What a frame turns into

From one place to the next a frame only changes where its clauses have a say, and there it changes
in one way: a list of clauses, with something to do after them, sends control to the first of the
clauses, or on to what comes after them (`Sends`). `Moves` lists the occasions: a leave, the end of
a clause, and an exception that the instruction raises or that its last clause held back. What a
frame keeps along a path is shown by going through them.
-/

set_option autoImplicit false
set_option relaxedAutoImplicit false

namespace ManagedMachine

open Engine

/-- A list of clauses, with something to do after them, sends control to an address, with a
frame. -/
inductive Sends (f : Frame) : List Nat → Resume → Nat → Frame → Prop
  | clause (k : Nat) (rest : List Nat) (resume : Resume) :
    Sends f (k :: rest) resume (f.clause k).handlerStart
      { f with unwinds := ⟨k, rest, resume⟩ :: f.unwinds }
  | target (target : Nat) : Sends f [] (.leave target) target f
  | handler (k : Nat) (raised : Raised) :
    Sends f [] (.catch k raised) (f.clause k).handlerStart
      { f with caught := (k, raised) :: f.caught }

/-- What follows the clauses of an exception. -/
def Raised.resumes (raised : Raised) : Option Nat → Resume
  | some k => .catch k raised
  | none => .propagate raised

/-- The exception of the instruction at `p` is its own, or its last clause held it back. -/
inductive Origin (p : Place) (raised : Raised) : Frame → Prop
  | own : Origin p raised p.frame
  | heldBack (k : Nat) (others : List Unwind) (hi : p.instruction? = some .endFinally)
    (hunwinds : p.frame.unwinds = ⟨k, [], .propagate raised⟩ :: others) :
    Origin p raised { p.frame with unwinds := others }

/-- How the frame at `p` becomes the frame at `q`. -/
inductive Moves (c : Callees) (p q : Place) : Prop
  | onward (i : Instruction) (hi : p.instruction? = some i) (hframe : q.frame = p.frame)
    (haddr : Body.endsFlow i.flow = false ∧ q.addr = p.addr + 1 ∨
      ∃ target, i.target? = some target ∧ q.addr = target.toNat)
    (hstraight : ¬Turns c q.fuel p)
  | leave (target : UInt32) (hi : p.instruction? = some (.leave target))
    (hsends : Sends { p.frame with caught := p.frame.keptOnLeave p.addr target.toNat }
      (leaveClauses p.frame.body.clauses p.addr target.toNat) (.leave target.toNat) q.addr q.frame)
  | endFinally (k : Nat) (rest : List Nat) (resume : Resume) (others : List Unwind)
    (hi : p.instruction? = some .endFinally)
    (hunwinds : p.frame.unwinds = ⟨k, rest, resume⟩ :: others)
    (hsends : Sends { p.frame with unwinds := others } rest resume q.addr q.frame)
  | raised (f : Frame) (raised : Raised) (catcher : Option Nat) (r r₁ : Running)
    (hraises : Raises c q.fuel p f raised r) (horigin : Origin p raised f)
    (hcatch : selectCatch f.body.clauses p.addr (fun _ ↦ catchFit q.fuel f raised.value) r =
      .ok catcher r₁)
    (hsends : Sends { f with unwinds := f.abandon p.addr catcher f.unwinds }
      (unwindClauses f.body.clauses p.addr (catcher.map f.clause))
      ((raised.tracedIn r).resumes catcher) q.addr q.frame)

namespace Engine

variable {c : Callees} {fuel addr next : Nat} {f f' : Frame} {i : Instruction} {r r' : Running}
variable {o : Outcome} {clauses : List Nat} {resume : Resume} {raised : Raised}

/-- What comes after the last clause, where it is a place to go on at. -/
theorem finish_at (h : finish f resume r = .ok (.at next, f') r') : Sends f [] resume next f' := by
  cases resume with
  | leave target =>
    cases h
    exact .target _
  | «catch» k raised =>
    obtain ⟨haddr, rfl, -⟩ := finish_catch_ok h
    cases haddr
    exact .handler k raised
  | propagate raised => cases h

/-- The only end of a list of clauses that raises is the one that hands an exception on. -/
theorem finish_raise (h : finish f resume r = .ok (.raise raised, f') r') :
    resume = .propagate raised ∧ f' = f ∧ r' = r := by
  cases resume with
  | leave target => cases h
  | «catch» k raised => exact absurd (finish_catch_ok h).1 nofun
  | propagate raised =>
    cases h
    exact ⟨rfl, rfl, rfl⟩

theorem unwind_at (h : unwind f clauses resume r = .ok (.at next, f') r') :
    Sends f clauses resume next f' := by
  cases clauses with
  | cons k rest =>
    cases h
    exact .clause k rest resume
  | nil => exact finish_at h

theorem unwind_raise (h : unwind f clauses resume r = .ok (.raise raised, f') r') :
    clauses = [] ∧ resume = .propagate raised ∧ f' = f ∧ r' = r := by
  cases clauses with
  | cons k rest => cases h
  | nil => exact ⟨rfl, finish_raise h⟩

/-- An exception is traced, selects a clause, and takes its unwindings with it. -/
theorem handleException_ok {arrival : Arrival}
    (h : handleException fuel f addr raised r = .ok (arrival, f') r') :
    ∃ catcher r₁ r₂, selectCatch f.body.clauses addr (fun _ ↦ catchFit fuel f raised.value) r =
        .ok catcher r₁ ∧ (Stack.popTo f.evalBase : RunM Unit) r₁ = .ok () r₂ ∧
      unwind { f with unwinds := f.abandon addr catcher f.unwinds }
        (unwindClauses f.body.clauses addr (catcher.map f.clause))
        ((raised.tracedIn r).resumes catcher) r₂ = .ok (arrival, f') r' := by
  unfold handleException at h
  rw [bind_of_ok (withTrace_ok raised r), tracedIn_value] at h
  obtain ⟨catcher, r₁, hcatch, h⟩ := exists_of_bind h
  obtain ⟨_, r₂, hpop, h⟩ := exists_of_bind h
  refine ⟨catcher, r₁, r₂, hcatch, hpop, ?_⟩
  cases catcher <;> exact h

/-- An instruction that is not about clauses goes on to the next one, to its target, or returns. -/
theorem step_goes (h : step c fuel f addr i r = .ok (o, f') r')
    (hleave : ∀ target, i ≠ .leave target)
    (hend : i ≠ .endFinally) :
    (o = .next ∧ Body.endsFlow i.flow = false) ∨
      (∃ target, i.target? = some target ∧ o = .jump target.toNat) ∨ ∃ value, o = .ret value := by
  cases i with
  | leave target => exact absurd rfl (hleave target)
  | endFinally => exact absurd rfl hend
  | throw => exact absurd h throwTop_fails
  | rethrow => exact absurd h rethrow_fails
  | branch target =>
    cases h
    exact .inr (.inl ⟨target, rfl, rfl⟩)
  | branchTrue target | branchFalse target =>
    obtain ⟨o', _, hbranch, hend⟩ := exists_of_bind h
    cases hend
    rcases branchIf_ok hbranch with rfl | rfl
    · exact .inr (.inl ⟨target, rfl, rfl⟩)
    · exact .inl ⟨rfl, rfl⟩
  | branchOn op target =>
    obtain ⟨o', _, hbranch, hend⟩ := exists_of_bind h
    cases hend
    rcases branchOn_ok hbranch with rfl | rfl
    · exact .inr (.inl ⟨target, rfl, rfl⟩)
    · exact .inl ⟨rfl, rfl⟩
  | ret =>
    obtain ⟨value, _, -, hend⟩ := exists_of_bind h
    cases hend
    exact .inr (.inr ⟨value, rfl⟩)
  | _ =>
    obtain ⟨rfl, -⟩ := onward_ok h
    exact .inl ⟨rfl, rfl⟩

end Engine

variable {c : Callees} {fuel : Nat} {p q : Place} {f : Frame} {raised : Raised} {r : Running}

/-- The body of a frame is the same at all times. -/
theorem Sends.body {f' : Frame} {clauses : List Nat} {resume : Resume} {addr : Nat}
    (h : Sends f clauses resume addr f') : f'.body = f.body := by
  cases h <;> rfl

theorem Origin.body (h : Origin p raised f) : f.body = p.frame.body := by
  cases h <;> rfl

/-- An exception is raised by the instruction, or it is one that the last clause held back. -/
theorem Raises.origin (h : Raises c fuel p f raised r) : Origin p raised f := by
  cases h with
  | step => exact .own
  | heldBack hi h =>
    obtain ⟨k, rest, resume, others, hunwinds, ⟨rfl, hfinish⟩ | ⟨hrest, r₁, -, hunwind⟩⟩ :=
      endFinally_ok h
    · obtain ⟨rfl, rfl, -⟩ := finish_raise hfinish
      exact .heldBack k others hi hunwinds
    · exact absurd (unwind_raise hunwind).1 hrest

/-- What an instruction raises sends control on, from the clauses that the exception selects. -/
theorem Raises.sends (h : Raises c q.fuel p f raised r) (hq : Follows c p q) : ∃ catcher r₁,
    selectCatch f.body.clauses p.addr (fun _ ↦ catchFit q.fuel f raised.value) r =
        .ok catcher r₁ ∧
      Sends { f with unwinds := f.abandon p.addr catcher f.unwinds }
        (unwindClauses f.body.clauses p.addr (catcher.map f.clause))
        ((raised.tracedIn r).resumes catcher) q.addr q.frame := by
  obtain ⟨-, i, hi, hadvance⟩ := hq
  obtain ⟨i', hi', hraised⟩ := advance_of_raises h
  obtain rfl : i = i' := Option.some.inj (hi.symm.trans hi')
  obtain ⟨catcher, r₁, r₂, hcatch, -, hunwind⟩ :=
    handleException_ok (dispatch_at (hraised ▸ hadvance))
  exact ⟨catcher, r₁, hcatch, unwind_at hunwind⟩

/-- Without a turn, control goes to the next instruction or to the target of a branch. -/
theorem Follows.onward_addr (h : Follows c p q) (hstraight : ¬Turns c q.fuel p) :
    ∃ i, p.instruction? = some i ∧ (Body.endsFlow i.flow = false ∧ q.addr = p.addr + 1 ∨
      ∃ target, i.target? = some target ∧ q.addr = target.toNat) := by
  obtain ⟨fuel, f', next, r'⟩ := q
  obtain ⟨-, i, hi, h⟩ := h
  refine ⟨i, hi, ?_⟩
  have hleave (target : UInt32) : i ≠ .leave target := by
    rintro rfl
    exact hstraight (.inl ⟨target, hi⟩)
  have hend : i ≠ .endFinally := by
    rintro rfl
    exact hstraight (.inr (.inl hi))
  unfold advance at h
  cases hstep : step c fuel p.frame p.addr i p.noted with
  | error e r =>
    rw [hstep] at h
    cases e with
    | exception raised => exact absurd (.inr (.inr ⟨_, raised, r, .step hi hstep⟩)) hstraight
    | _ => cases h
  | ok result r =>
    obtain ⟨o, f⟩ := result
    rw [hstep] at h
    rcases step_goes hstep hleave hend with ⟨rfl, hflow⟩ | ⟨target, htarget, rfl⟩ | ⟨value, rfl⟩
    · cases h
      exact .inl ⟨hflow, rfl⟩
    · cases h
      exact .inr ⟨target, htarget, rfl⟩
    · cases h

/-- Whatever follows does so by one of these moves. -/
theorem Follows.moves (h : Follows c p q) : Moves c p q := by
  cases h.turn with
  | onward hframe hstraight =>
    obtain ⟨i, hi, haddr⟩ := h.onward_addr hstraight
    exact .onward i hi hframe haddr hstraight
  | leave target hi hleave =>
    obtain ⟨r₁, -, hunwind⟩ := leave_ok hleave
    exact .leave target hi (unwind_at hunwind)
  | endFinally hi hend =>
    obtain ⟨k, rest, resume, others, hunwinds, ⟨rfl, hfinish⟩ | ⟨-, r₁, -, hunwind⟩⟩ :=
      endFinally_ok hend
    · exact .endFinally k [] resume others hi hunwinds (finish_at hfinish)
    · exact .endFinally k rest resume others hi hunwinds (unwind_at hunwind)
  | raised f raised r hraises hhandle =>
    obtain ⟨catcher, r₁, r₂, hcatch, -, hunwind⟩ := handleException_ok hhandle
    exact .raised f raised catcher r r₁ hraises hraises.origin hcatch (unwind_at hunwind)

theorem Follows.body (h : Follows c p q) : q.frame.body = p.frame.body := by
  cases h.moves with
  | onward i hi hframe => rw [hframe]
  | leave target hi hsends => exact hsends.body
  | endFinally k rest resume others hi hunwinds hsends => exact hsends.body
  | raised f raised catcher r r₁ hraises horigin hcatch hsends =>
    exact hsends.body.trans horigin.body

/-- Giving up unwindings takes some of them off the top. -/
theorem Frame.abandon_suffix (f : Frame) (addr : Nat) (catcher : Option Nat)
    (unwinds : List Unwind) : f.abandon addr catcher unwinds <:+ unwinds := by
  induction unwinds with
  | nil => exact List.suffix_rfl
  | cons u rest ih =>
    have hcases : f.abandon addr catcher (u :: rest) = f.abandon addr catcher rest ∨
        f.abandon addr catcher (u :: rest) = u :: rest := by
      cases catcher <;> exact ite_eq_or_eq _ _ _
    rcases hcases with h | h
    · rw [h]
      exact ih.trans (List.suffix_cons u rest)
    · rw [h]

/-! ### How a frame begins and ends -/

/-- A frame begins with nothing caught and nothing pending. -/
theorem fresh_of_opening {n argBase : Nat} {id : MethodId} {m : Method} {body : Body}
    {home : ModuleId} {r' : Running}
    (hopen : openFrame n id m body home argBase r = .ok f r') :
    f.body = body ∧ f.caught = [] ∧ f.unwinds = [] := by
  obtain ⟨⟨localBase, localCount⟩, _, -, h⟩ := exists_of_bind hopen
  obtain ⟨_, _, -, h⟩ := exists_of_bind h
  obtain ⟨evalBase, _, -, hend⟩ := exists_of_bind h
  cases hend
  exact ⟨rfl, rfl, rfl⟩

/-- A frame that fails does so at one of its places: the bound on its work is used up, its
instruction fails, or there is none. -/
theorem exists_of_loop_error {addr : Nat} {e : Error} {t : Running}
    (h : loop c fuel f addr r = .error e t) :
    ∃ p, Relation.ReflTransGen (Follows c) ⟨fuel, f, addr, r⟩ p ∧
      (p.fuel = 0 ∧ e = .outOfFuel ∨
        p.instruction? = none ∧ (∃ name, e = .malformed (.pastEnd name p.addr)) ∨
        ∃ n i, p.fuel = n + 1 ∧ p.instruction? = some i ∧
          advance c n p.frame p.addr i p.noted = .error e t) := by
  induction fuel generalizing f addr r with
  | zero =>
    cases h
    exact ⟨_, .refl, .inl ⟨rfl, rfl⟩⟩
  | succ fuel ih =>
    cases hi : f.body.code[addr]? with
    | none =>
      rw [loop_outside hi] at h
      cases h
      exact ⟨_, .refl, .inr (.inl ⟨hi, _, rfl⟩)⟩
    | some i =>
      cases hadvance : advance c fuel f addr i (r.noting addr) with
      | error e' t' =>
        rw [loop_failed hi hadvance] at h
        cases h
        exact ⟨_, .refl, .inr (.inr ⟨fuel, i, rfl, hi, hadvance⟩)⟩
      | ok control t' =>
        cases control with
        | «at» addr' f' =>
          rw [loop_next hi hadvance] at h
          have hstep : Follows c ⟨fuel + 1, f, addr, r⟩ ⟨fuel, f', addr', t'⟩ :=
            ⟨rfl, i, hi, hadvance⟩
          obtain ⟨p, hpath, hp⟩ := ih h
          exact ⟨p, .head hstep hpath, hp⟩
        | done value =>
          rw [loop_done hi hadvance] at h
          cases h

end ManagedMachine
