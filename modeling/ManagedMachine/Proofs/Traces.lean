import ManagedMachine.Engine.Stream
import ManagedMachine.Proofs.FrameTurns
import ManagedMachine.Proofs.MadeCalls
import ManagedMachine.Proofs.OpeningFaults

/-!
# The trace of an exception

An exception is raised without a trace, and gets it in the frame whose instruction raises it, before
anything else is done with it. The trace lists the frames of the interpreter. That these are the
frames that execute an instruction at this moment, each with the address of its instruction, is
shown for `Stands`, which follows the calls that instructions make and does not look at what the
interpreter notes of them.

From then on nothing changes the exception: not the clauses that hold it back, the catch clause that
receives it, the instruction that raises it again, or the calls that it leaves. So every exception
that a frame keeps, or is left with, has come up as it is at some instruction (`Arose`).

An exception that comes up while a frame is opened belongs to no instruction. It gets no trace
there, although the frame is one of the interpreter by then.
-/

set_option autoImplicit false
set_option relaxedAutoImplicit false

namespace ManagedMachine

open Engine

/-! ### What a place does with exceptions -/

/-- The exception that is to go on after pending clauses. -/
def Resume.raised? : Resume → Option Raised
  | .leave _ => none
  | .catch _ raised | .propagate raised => some raised

/-- The exceptions that a frame keeps: those of the catch clauses being executed, and those that
pending clauses hold back. -/
def Frame.held (f : Frame) : List Raised :=
  f.caught.map Prod.snd ++ f.unwinds.filterMap fun u ↦ u.resume.raised?

namespace Place

/-- The instruction at the place raises an exception. -/
def Fails (c : Callees) (p : Place) (raised : Raised) (r : Running) : Prop :=
  ∃ n i, p.fuel = n + 1 ∧ p.instruction? = some i ∧
    step c n p.frame p.addr i p.noted = .error (.exception raised) r

/-- The instruction at the place calls a method. -/
def Calls (c : Callees) (p : Place) (id : MethodId) (a : Nat) (r : Running) : Prop :=
  ∃ n i, p.fuel = n + 1 ∧ p.instruction? = some i ∧
    Makes c (fun c ↦ step c n p.frame p.addr i) p.noted id a r

/-- An exception leaves the frame at the place. -/
def Leaves (c : Callees) (p : Place) (raised : Raised) (r : Running) : Prop :=
  ∃ n i, p.fuel = n + 1 ∧ p.instruction? = some i ∧
    advance c n p.frame p.addr i p.noted = .error (.exception raised) r

/-- What the frame does with an exception: it is kept, next to what was kept before, or leaves the
frame. -/
structure HandsOn (c : Callees) (p : Place) (x : Raised) : Prop where
  kept : ∀ q, Follows c p q → x ∈ q.frame.held
  others : ∀ q, Follows c p q → ∀ y ∈ q.frame.held, y = x ∨ y ∈ p.frame.held
  leaves : ∀ y r, p.Leaves c y r → y = x

end Place

variable {c : Callees} {fuel n : Nat} {p q : Place} {f f' : Frame} {raised x y : Raised}
variable {r s t : Running}

theorem mem_held : x ∈ f.held ↔ (∃ k, (k, x) ∈ f.caught) ∨
    ∃ u ∈ f.unwinds, u.resume.raised? = some x := by
  simp [Frame.held]

/-- A frame with fewer exceptions of catch clauses and fewer unwindings keeps fewer exceptions. -/
theorem held_subset {caught : List (Nat × Raised)} {unwinds : List Unwind}
    (hcaught : caught ⊆ f.caught) (hunwinds : unwinds ⊆ f.unwinds) :
    ({ f with caught, unwinds } : Frame).held ⊆ f.held := by
  intro x hx
  refine mem_held.mpr ((mem_held.mp hx).imp ?_ ?_)
  · exact fun ⟨k, hk⟩ ↦ ⟨k, hcaught hk⟩
  · exact fun ⟨u, hu, hx⟩ ↦ ⟨u, hunwinds hu, hx⟩

/-- Control that is sent on takes with it the exception that is to go on, and no other. -/
theorem Sends.held {clauses : List Nat} {resume : Resume} {addr : Nat}
    (h : Sends f clauses resume addr f') :
    (∀ x, resume.raised? = some x → x ∈ f'.held) ∧
      ∀ y ∈ f'.held, resume.raised? = some y ∨ y ∈ f.held := by
  cases h with
  | clause k rest resume =>
    refine ⟨fun x hx ↦ mem_held.mpr (.inr ⟨_, List.mem_cons_self, hx⟩), fun y hy ↦ ?_⟩
    rcases mem_held.mp hy with hcaught | ⟨u, hu, hy⟩
    · exact .inr (mem_held.mpr (.inl hcaught))
    · rcases List.mem_cons.mp hu with rfl | hu
      · exact .inl hy
      · exact .inr (mem_held.mpr (.inr ⟨u, hu, hy⟩))
  | target => exact ⟨nofun, fun y hy ↦ .inr hy⟩
  | handler k raised =>
    refine ⟨fun x hx ↦ ?_, fun y hy ↦ ?_⟩
    · obtain rfl := Option.some.inj hx
      exact mem_held.mpr (.inl ⟨k, List.mem_cons_self⟩)
    · rcases mem_held.mp hy with ⟨k', hk'⟩ | hunwind
      · rcases List.mem_cons.mp hk' with heq | hk'
        · cases heq
          exact .inl rfl
        · exact .inr (mem_held.mpr (.inl ⟨k', hk'⟩))
      · exact .inr (mem_held.mpr (.inr hunwind))

/-- An exception that is on its way leaves the frame no more than it held. -/
theorem Origin.held (h : Origin p raised f) : f.held ⊆ p.frame.held := by
  cases h with
  | own => exact fun _ hx ↦ hx
  | heldBack k others hi hunwinds =>
    refine held_subset (List.Subset.refl _) ?_
    rw [hunwinds]
    exact List.subset_cons_self _ _

theorem raised?_resumes (catcher : Option Nat) : (x.resumes catcher).raised? = some x := by
  cases catcher <;> rfl

/-! ### One instruction -/

theorem tracedIn_of_trace (h : raised.trace ≠ []) : raised.tracedIn r = raised := by
  unfold Raised.tracedIn
  rw [if_neg (by simpa using h)]

theorem tracedIn_of_empty (h : raised.trace = []) : raised.tracedIn r =
    ⟨raised.value, traceOf r.domain.registry r.interpreter.frames⟩ := by
  unfold Raised.tracedIn
  rw [if_pos (by simpa using h)]

theorem tracedIn_trace_ne_nil (h : r.interpreter.frames ≠ []) : (raised.tracedIn r).trace ≠ [] := by
  by_cases hempty : raised.trace = []
  · rw [tracedIn_of_empty hempty]
    simpa [traceOf] using h
  · rwa [tracedIn_of_trace hempty]

/-- A raised exception leaves the frame with its trace, or with that of the frames if it has
none. -/
theorem Raises.eq_of_leaves (h : Raises c n p f raised r) (hfuel : p.fuel = n + 1)
    (hleaves : p.Leaves c y t) : y = raised.tracedIn r := by
  obtain ⟨i, hi, hadvance⟩ := advance_of_raises h
  obtain ⟨n', i', hfuel', hi', hleaves⟩ := hleaves
  obtain rfl : n' = n := Nat.succ.inj (hfuel'.symm.trans hfuel)
  obtain rfl : i' = i := Option.some.inj (hi'.symm.trans hi)
  rw [hadvance, dispatch] at hleaves
  cases hhandle : handleException n' f p.addr raised r with
  | error e u =>
    rw [bind_of_error hhandle] at hleaves
    cases hleaves
    exact absurd hhandle (unexceptional_handleException n' f p.addr raised _ _ _)
  | ok result u =>
    obtain ⟨arrival, f'⟩ := result
    rw [bind_of_ok hhandle] at hleaves
    cases arrival with
    | «at» next => cases hleaves
    | raise raised' =>
      cases hleaves
      obtain ⟨catcher, r₁, r₂, -, -, hunwind⟩ := handleException_ok hhandle
      have hresume := congrArg Resume.raised? (unwind_raise hunwind).2.1
      rw [raised?_resumes] at hresume
      exact (Option.some.inj hresume).symm

/-- An exception is handed on with its trace, or with that of the frames if it has none. -/
theorem Raises.handsOn (h : Raises c n p f raised r) (hfuel : p.fuel = n + 1) :
    p.HandsOn c (raised.tracedIn r) := by
  refine ⟨fun q hq ↦ ?_, fun q hq y hy ↦ ?_, fun y t ↦ h.eq_of_leaves hfuel⟩
  · obtain rfl : n = q.fuel := Nat.succ.inj (hfuel.symm.trans hq.1)
    obtain ⟨catcher, -, -, hsends⟩ := h.sends hq
    exact hsends.held.1 _ (raised?_resumes catcher)
  · obtain rfl : n = q.fuel := Nat.succ.inj (hfuel.symm.trans hq.1)
    obtain ⟨catcher, -, -, hsends⟩ := h.sends hq
    refine (hsends.held.2 y hy).imp (fun hy ↦ ?_) fun hy ↦ h.origin.held ?_
    · exact Option.some.inj (hy.symm.trans (raised?_resumes catcher))
    · exact held_subset (List.Subset.refl _) (f.abandon_suffix p.addr catcher f.unwinds).subset hy

/-- Where the bound on the work of the frame is used up, nothing is handed on. -/
theorem Place.handsOn_of_exhausted (h : p.fuel = 0) : p.HandsOn c x := by
  have hnone (q : Place) : ¬Follows c p q := fun hq ↦ Nat.succ_ne_zero _ (hq.1.symm.trans h)
  refine ⟨fun q hq ↦ absurd hq (hnone q), fun q hq ↦ absurd hq (hnone q), fun y t hleaves ↦ ?_⟩
  obtain ⟨n, i, hfuel, -⟩ := hleaves
  exact absurd (hfuel.symm.trans h) (Nat.succ_ne_zero n)

/-- A raised exception with its trace is the instruction's own, or the frame kept it. -/
theorem Raises.held_or_fails (h : Raises c n p f raised r) (hfuel : p.fuel = n + 1)
    (htraced : ∀ x ∈ p.frame.held, x.trace ≠ []) :
    raised.tracedIn r ∈ p.frame.held ∨ p.Fails c raised r := by
  cases h with
  | step hi hstep => exact .inr ⟨n, _, hfuel, hi, hstep⟩
  | heldBack hi hend =>
    obtain ⟨k, rest, resume, others, hunwinds, ⟨rfl, hfinish⟩ | ⟨hrest, r₁, -, hunwind⟩⟩ :=
      endFinally_ok hend
    · obtain ⟨rfl, -⟩ := finish_raise hfinish
      have hheld : raised ∈ p.frame.held :=
        mem_held.mpr (.inr ⟨_, hunwinds ▸ List.mem_cons_self, rfl⟩)
      rw [tracedIn_of_trace (htraced raised hheld)]
      exact .inl hheld
    · exact absurd (unwind_raise hunwind).1 hrest

/-- What a frame keeps at the next place it kept before, or its instruction has raised it. -/
theorem Follows.held (h : Follows c p q) (htraced : ∀ x ∈ p.frame.held, x.trace ≠ []) :
    ∀ y ∈ q.frame.held, y ∈ p.frame.held ∨ ∃ raised r, p.Fails c raised r ∧
    y = raised.tracedIn r := by
  intro y hy
  cases h.moves with
  | onward i hi hframe haddr hstraight => exact .inl (hframe ▸ hy)
  | leave target hi hsends =>
    refine .inl ?_
    rcases hsends.held.2 y hy with hresume | hy
    · cases hresume
    · exact held_subset List.filter_sublist.subset (List.Subset.refl _) hy
  | endFinally k rest resume others hi hunwinds hsends =>
    refine .inl ?_
    rcases hsends.held.2 y hy with hresume | hy
    · refine mem_held.mpr (.inr ⟨⟨k, rest, resume⟩, ?_, hresume⟩)
      rw [hunwinds]
      exact List.mem_cons_self
    · refine held_subset (List.Subset.refl _) ?_ hy
      rw [hunwinds]
      exact List.subset_cons_self _ _
  | raised f raised catcher r r₁ hraises horigin hcatch hsends =>
    rcases (hraises.handsOn h.1).others q h y hy with rfl | hy
    · exact (hraises.held_or_fails h.1 htraced).imp_right fun hfails ↦ ⟨raised, r, hfails, rfl⟩
    · exact .inl hy

/-- An exception that leaves a frame has been raised at the place. -/
theorem Place.Leaves.raises (h : p.Leaves c y t) :
    ∃ f raised r n, p.fuel = n + 1 ∧ Raises c n p f raised r := by
  obtain ⟨n, i, hfuel, hi, h⟩ := h
  unfold advance at h
  cases hstep : step c n p.frame p.addr i p.noted with
  | error e r =>
    rw [hstep] at h
    cases e with
    | exception raised => exact ⟨p.frame, raised, r, n, hfuel, .step hi hstep⟩
    | _ => cases h
  | ok result r =>
    obtain ⟨o, f⟩ := result
    rw [hstep] at h
    cases o with
    | raise raised =>
      rcases step_ok hstep with ⟨-, hraise, -⟩ | ⟨target, rfl, harrive⟩ | ⟨rfl, harrive⟩
      · exact absurd rfl (hraise raised)
      · rcases arrive_ok harrive with ⟨next, ho, -⟩ | ⟨raised', ho, hleave⟩
        · cases ho
        · exact absurd (leave_arrives hleave) nofun
      · rcases arrive_ok harrive with ⟨next, ho, -⟩ | ⟨raised', ho, hend⟩
        · cases ho
        · cases ho
          exact ⟨f, raised, r, n, hfuel, .heldBack hi hend⟩
    | _ => cases h

/-- An exception that leaves a frame was raised by the instruction, or the frame kept it. -/
theorem Place.Leaves.held (h : p.Leaves c y t) (htraced : ∀ x ∈ p.frame.held, x.trace ≠ []) :
    y ∈ p.frame.held ∨ ∃ raised r, p.Fails c raised r ∧ y = raised.tracedIn r := by
  obtain ⟨f, raised, r, n, hfuel, hraises⟩ := h.raises
  obtain rfl := hraises.eq_of_leaves hfuel h
  exact (hraises.held_or_fails hfuel htraced).imp_right fun hfails ↦ ⟨raised, r, hfails, rfl⟩

/-! ### The frames of a call -/

/-- The frames that a call executes, when the innermost of them is at the place `p` and makes its
calls with the bound `k`: each is at an instruction, which calls the next one. -/
inductive Stands : (fuel : Nat) → (id : MethodId) → (argBase : Nat) → Running → (k : Nat) → Place →
    List Activation → Prop
  | here {fuel : Nat} {id : MethodId} {argBase : Nat} {r : Running} {p : Place}
    (hp : Visits fuel id argBase r p) : Stands fuel id argBase r fuel p [⟨id, p.addr⟩]
  | inCall {fuel k : Nat} {id id' : MethodId} {argBase a : Nat} {r s : Running} {p q : Place}
    {active : List Activation} (hq : Visits (fuel + 1) id argBase r q)
    (hcall : q.Calls (callees (fuel + 1)) id' a s) (h : Stands fuel id' a s k p active) :
    Stands (fuel + 1) id argBase r k p (active ++ [⟨id, q.addr⟩])

section

variable {k argBase a : Nat} {id id' : MethodId} {active : List Activation}

theorem Running.noting_frames {frames : List Activation} {a : Activation}
    (h : r.interpreter.frames = a :: frames) (addr : Nat) :
    (r.noting addr).interpreter.frames = { a with addr } :: frames := by
  obtain ⟨d, n, st, frames'⟩ := r
  obtain rfl : frames' = a :: frames := h
  rfl

/-- What any instruction can do, up to the handling of the exception that it raises. -/
theorem does_step_anywhere (hc : c.Protects) (h : Ordered f) (fuel addr : Nat) (i : Instruction)
    (r : Running) :
    Does freeScope c (fun c ↦ step c fuel f addr i) (View.start r)
      fun p w ↦ p.2.core = f.core ∧ w.Yields p.1 := by
  refine does_step (meet_of_protects hc _) fuel addr i ?_ ?_
  · exact ⟨Nat.zero_le _, h.1, h.2, fun _ _ _ ↦ ⟨trivial, trivial⟩⟩
  · exact ⟨Nat.zero_le _, fun _ _ _ ↦ trivial, rfl, trivial⟩

theorem frames_of_edits {v w : View} (h : Edits freeScope v w) :
    w.run.interpreter.frames = v.run.interpreter.frames :=
  (Edits.kept (fun _ _ _ _ h ↦ h) h).frames

/-- What fails without a call has the frames of the instruction. -/
theorem Place.Fails.frames (hc : c.Protects) (hord : Ordered p.frame) (h : p.Fails c raised r) :
    r.interpreter.frames = p.noted.interpreter.frames := by
  obtain ⟨n, i, -, -, h⟩ := h
  obtain ⟨w, rfl, hw⟩ := (does_step_anywhere hc hord n p.addr i p.noted).spec.error h
  exact frames_of_edits hw

/-- A call is made from the frames of the instruction. -/
theorem Place.Calls.frames (hc : c.Protects) (hord : Ordered p.frame) (h : p.Calls c id a r) :
    r.interpreter.frames = p.noted.interpreter.frames := by
  obtain ⟨n, i, -, -, h⟩ := h
  obtain ⟨w, rfl, hw, -⟩ := (does_step_anywhere hc hord n p.addr i p.noted).only.of_makes h
  exact frames_of_edits hw

/-- A call that fails with an exception ends the instruction with that exception. -/
theorem Place.Calls.fails (h : p.Calls c id a r) (hrun : c.run id a r = .error (.exception x) t) :
    ∃ s, p.Fails c x s := by
  obtain ⟨n, i, hfuel, hi, hmakes⟩ := h
  obtain ⟨s, hs⟩ := (PassesErrors.closed.step n p.frame p.addr i).error_of_makes hmakes hrun
  exact ⟨s, n, i, hfuel, hi, hs⟩

/-- The innermost frame that the interpreter notes is the one that the call executes. -/
theorem Visits.frames (h : Visits fuel id argBase r p) :
    p.noted.interpreter.frames = ⟨id, p.addr⟩ :: r.interpreter.frames := by
  have hmachine : ∃ addr, p.machine.interpreter.frames = ⟨id, addr⟩ :: r.interpreter.frames := by
    obtain ⟨body, home, f, r', henters, hopen, hpath⟩ := h
    induction hpath with
    | refl =>
      have hends : Ends (openFrame fuel id (r.domain.registry.method id) body home argBase)
          (r.entered id) (fun _ r' ↦ r'.interpreter.frames = ⟨id, 0⟩ :: r.interpreter.frames)
          fun _ ↦ True := by
        refine (ends_opening (S := freeScope) (v := View.start (r.entered id)) fuel id body home rfl
          (fun _ _ _ _ ↦ ⟨trivial, trivial⟩) rfl).imp (fun f r' h ↦ ?_) fun _ _ ↦ trivial
        obtain ⟨-, -, w, hgrows, -, rfl⟩ := h
        exact (Grows.grown hgrows).frames
      rw [Ends, hopen] at hends
      exact ⟨0, hends⟩
    | @tail p q hpath hstep ih =>
      obtain ⟨addr, hframes⟩ := ih
      have hord := (Visits.inside ⟨body, home, f, r', henters, hopen, hpath⟩).1
      obtain ⟨-, i, -, hadvance⟩ := hstep
      obtain ⟨w, hw, hedits, -⟩ :=
        (does_anywhere (protects_callees fuel).1 hord q.fuel p.addr i p.noted).spec.ok hadvance
      refine ⟨p.addr, ?_⟩
      rw [← hw, frames_of_edits hedits]
      exact Running.noting_frames hframes p.addr
  obtain ⟨addr, hframes⟩ := hmachine
  exact Running.noting_frames hframes p.addr

theorem Stands.visits (h : Stands fuel id argBase r k p active) :
    ∃ id' a s, Visits k id' a s p := by
  induction h with
  | here hp => exact ⟨_, _, _, hp⟩
  | inCall _ _ _ ih => exact ih

/-- The frames that the interpreter notes are those that execute an instruction, on top of those
from before the call. -/
theorem Stands.frames (h : Stands fuel id argBase r k p active) :
    p.noted.interpreter.frames = active ++ r.interpreter.frames := by
  induction h with
  | here hp => exact hp.frames
  | inCall hq hcall _ ih =>
    rw [ih, hcall.frames (protects_callees _).1 hq.inside.1, hq.frames, List.append_assoc]
    rfl

theorem Stands.fails_frames (h : Stands fuel id argBase r k p active)
    (hfails : p.Fails (callees k) raised s) :
    s.interpreter.frames = active ++ r.interpreter.frames := by
  obtain ⟨id', a, r', hp⟩ := h.visits
  rw [hfails.frames (protects_callees k).1 hp.inside.1, h.frames]

/-! ### Where exceptions come from -/

/-- What is said of the start of a frame and kept by its instructions holds at every place of it. -/
theorem Visits.induct {P : Place → Prop} (h : Visits fuel id argBase r p)
    (hstart : ∀ q, q.frame.held = [] → Visits fuel id argBase r q → P q)
    (hstep : ∀ p q, Visits fuel id argBase r p → P p → Follows (callees fuel) p q → P q) : P p := by
  obtain ⟨body, home, f, r', henters, hopen, hpath⟩ := h
  induction hpath with
  | refl =>
    refine hstart _ ?_ ⟨body, home, f, r', henters, hopen, .refl⟩
    obtain ⟨-, hcaught, hunwinds⟩ := fresh_of_opening hopen
    simp [Frame.held, hcaught, hunwinds]
  | tail hpath hfollows ih =>
    exact hstep _ _ ⟨body, home, f, r', henters, hopen, hpath⟩ ih hfollows

/-- A frame only keeps exceptions that have a trace. -/
theorem Visits.traced (h : Visits fuel id argBase r p) : ∀ x ∈ p.frame.held, x.trace ≠ [] := by
  refine h.induct (P := fun p ↦ ∀ x ∈ p.frame.held, x.trace ≠ []) (fun q hq _ x hx ↦ ?_)
    fun p q hp ih hfollows y hy ↦ ?_
  · rw [hq] at hx
    exact absurd hx List.not_mem_nil
  · rcases hfollows.held ih y hy with hy | ⟨raised, s, hfails, rfl⟩
    · exact ih y hy
    · refine tracedIn_trace_ne_nil ?_
      rw [hfails.frames (protects_callees fuel).1 hp.inside.1, hp.frames]
      exact List.cons_ne_nil _ _

/-- The instruction raises the exception itself, with the trace that it has: the exception is not
that of a catch clause, and no frame that the instruction calls is left with it. -/
structure Place.Brings (k : Nat) (p : Place) (x : Raised) : Prop where
  rethrows : p.instruction? ≠ some .rethrow
  calls : ∀ k' id a r q t, k = k' + 1 → p.Calls (callees k) id a r → Visits k' id a r q →
    ¬q.Leaves (callees k') x t

/-- The exception was raised at an instruction of the call: without a trace, and it has that of the
frames at that moment; or with a trace, and it has that one. -/
inductive Arose (fuel : Nat) (id : MethodId) (argBase : Nat) (r : Running) (x : Raised) : Prop
  | untraced {k : Nat} {p : Place} {active : List Activation} {raised : Raised} {s : Running}
    (h : Stands fuel id argBase r k p active) (hfails : p.Fails (callees k) raised s)
    (hempty : raised.trace = [])
    (hx : x = ⟨raised.value,
      traceOf s.domain.registry (active ++ r.interpreter.frames)⟩)
  | traced {k : Nat} {p : Place} {active : List Activation} {s : Running}
    (h : Stands fuel id argBase r k p active) (hfails : p.Fails (callees k) x s)
    (htrace : x.trace ≠ []) (hbrings : p.Brings k x)

/-- What comes up in a call that the instruction at a place makes comes up in the call of its
frame. -/
theorem Arose.inCall (hq : Visits (fuel + 1) id argBase r q)
    (hcall : q.Calls (callees (fuel + 1)) id' a s) (h : Arose fuel id' a s x) :
    Arose (fuel + 1) id argBase r x := by
  cases h with
  | untraced h hfails hempty hx =>
    refine .untraced (.inCall hq hcall h) hfails hempty ?_
    rw [hx, hcall.frames (protects_callees _).1 hq.inside.1, hq.frames, List.append_assoc]
    rfl
  | traced h hfails htrace hbrings => exact .traced (.inCall hq hcall h) hfails htrace hbrings

/-- The instruction that raises an exception again takes it from those that the frame keeps. -/
theorem Place.Fails.held_of_rethrow (h : p.Fails c x t) (hi : p.instruction? = some .rethrow) :
    x ∈ p.frame.held := by
  obtain ⟨n, i, -, hi', h⟩ := h
  obtain rfl : i = .rethrow := Option.some.inj (hi'.symm.trans hi)
  have hrethrow : (rethrow p.frame p.addr : RunM (Outcome × Frame)) p.noted =
      .error (.exception x) t := h
  unfold rethrow at hrethrow
  cases hfound : p.frame.rethrown? p.addr with
  | none =>
    rw [hfound] at hrethrow
    cases hrethrow
  | some raised =>
    rw [hfound] at hrethrow
    cases hrethrow
    obtain ⟨entry, hentry, rfl⟩ := Option.map_eq_some_iff.mp hfound
    exact mem_held.mpr (.inl ⟨entry.1, List.mem_of_find?_eq_some hentry⟩)

/-- What an instruction raises, with its trace, has come up in the call. -/
theorem Visits.arose_of_fails (hp : Visits fuel id argBase r p)
    (hheld : ∀ x ∈ p.frame.held, Arose fuel id argBase r x)
    (hcalls : ∀ k id a s q x t, fuel = k + 1 → Visits k id a s q → q.Leaves (callees k) x t →
      Arose k id a s x)
    (h : p.Fails (callees fuel) raised s) : Arose fuel id argBase r (raised.tracedIn s) := by
  by_cases hempty : raised.trace = []
  · refine .untraced (.here hp) h hempty ?_
    rw [tracedIn_of_empty hempty, h.frames (protects_callees fuel).1 hp.inside.1, hp.frames]
    rfl
  · rw [tracedIn_of_trace hempty]
    by_cases hbrings : p.Brings fuel raised
    · exact .traced (.here hp) h hempty hbrings
    · by_cases hi : p.instruction? = some .rethrow
      · exact hheld raised (h.held_of_rethrow hi)
      · have hleft : ∃ k' id a r q t, fuel = k' + 1 ∧ p.Calls (callees fuel) id a r ∧
            Visits k' id a r q ∧ q.Leaves (callees k') raised t := by
          by_contra hnone
          refine hbrings ⟨hi, fun k' id a r q t hfuel hcall hq hleaves ↦ hnone ?_⟩
          exact ⟨k', id, a, r, q, t, hfuel, hcall, hq, hleaves⟩
        obtain ⟨k, id', a, s', q, t, rfl, hcall, hq, hleaves⟩ := hleft
        exact (hcalls k id' a s' q raised t rfl hq hleaves).inCall hp hcall

/-- What a frame keeps or is left with has come up, if this holds in the calls that it makes. -/
theorem Visits.arose_of_calls (hp : Visits fuel id argBase r p)
    (hcalls : ∀ k id a s q x t, fuel = k + 1 → Visits k id a s q → q.Leaves (callees k) x t →
      Arose k id a s x) :
    (∀ x ∈ p.frame.held, Arose fuel id argBase r x) ∧
      ∀ x t, p.Leaves (callees fuel) x t → Arose fuel id argBase r x := by
  have hheld : ∀ x ∈ p.frame.held, Arose fuel id argBase r x := by
    refine hp.induct (P := fun p ↦ ∀ x ∈ p.frame.held, Arose fuel id argBase r x)
      (fun q hq _ x hx ↦ ?_) fun p q hp ih hfollows y hy ↦ ?_
    · rw [hq] at hx
      exact absurd hx List.not_mem_nil
    · rcases hfollows.held hp.traced y hy with hy | ⟨raised, s, hfails, rfl⟩
      · exact ih y hy
      · exact hp.arose_of_fails ih hcalls hfails
  refine ⟨hheld, fun x t hleaves ↦ ?_⟩
  rcases hleaves.held hp.traced with hx | ⟨raised, s, hfails, rfl⟩
  · exact hheld x hx
  · exact hp.arose_of_fails hheld hcalls hfails

/-- By induction on the bound: the calls that a frame makes have less. -/
theorem Visits.arose (hp : Visits fuel id argBase r p) :
    (∀ x ∈ p.frame.held, Arose fuel id argBase r x) ∧
      ∀ x t, p.Leaves (callees fuel) x t → Arose fuel id argBase r x := by
  induction fuel generalizing id argBase r p with
  | zero => exact hp.arose_of_calls fun _ _ _ _ _ _ _ h ↦ absurd h (by omega)
  | succ fuel ih =>
    refine hp.arose_of_calls fun k id a s q x t hk hq hleaves ↦ ?_
    obtain rfl : fuel = k := Nat.succ.inj hk
    exact (ih hq).2 x t hleaves

theorem Stands.arose (h : Stands fuel id argBase r k p active) :
    (∀ x ∈ p.frame.held, Arose fuel id argBase r x) ∧
      ∀ x t, p.Leaves (callees k) x t → Arose fuel id argBase r x := by
  induction h with
  | here hp => exact hp.arose
  | inCall hq hcall _ ih =>
    exact ⟨fun x hx ↦ (ih.1 x hx).inCall hq hcall, fun x t hx ↦ (ih.2 x t hx).inCall hq hcall⟩

/-! ### How a call ends -/

/-- An exception that leaves the frame of a call is what the call fails with. -/
theorem Visits.run_of_leaves {t : Running} (h : Visits fuel id argBase r p)
    (hleaves : p.Leaves (callees fuel) x t) :
    ∃ t', run (fuel + 1) id argBase r = .error (.exception x) t' := by
  obtain ⟨body, home, f, r', henters, hopen, hpath⟩ := h
  obtain ⟨n, i, hfuel, hi, hadvance⟩ := hleaves
  have hloop : loop (callees fuel) fuel f 0 r' = .error (.exception x) t := by
    refine (run_of_path hpath).trans ?_
    rw [Place.run, hfuel]
    exact loop_failed hi hadvance
  have hbody : runBody (callees fuel) fuel id (r.domain.registry.method id) body home argBase
      (r.entered id) = .error (.exception x) t := (bind_of_ok hopen).trans hloop
  change ∃ t', runMethod (callees fuel) fuel id argBase r = .error (.exception x) t'
  rw [runMethod_entered henters, hbody]
  exact ⟨_, rfl⟩

/-- An exception that a call fails with has left its frame, or a struct binder raised it before the
first instruction. -/
theorem exists_leaves_of_run {t : Running}
    (h : run (fuel + 1) id argBase r = .error (.exception x) t) :
    (∃ p t', Visits fuel id argBase r p ∧ p.Leaves (callees fuel) x t') ∨
      r.domain.bindings.Raises x := by
  change runMethod (callees fuel) fuel id argBase r = _ at h
  by_cases henters : ∃ body home, Enters r id body home
  · obtain ⟨body, home, henters⟩ := henters
    rw [runMethod_entered henters] at h
    cases hbody : runBody (callees fuel) fuel id (r.domain.registry.method id) body home argBase
      (r.entered id) with
    | ok found r₁ =>
      rw [hbody] at h
      dsimp only at h
      split at h
      · cases h
      · next hpop =>
        cases h
        exact absurd hpop (unexceptional_popTo argBase _ _ x)
    | error e r₁ =>
      rw [hbody] at h
      cases h
      cases hopen : openFrame fuel id (r.domain.registry.method id) body home argBase
        (r.entered id) with
      | error e r₂ =>
        rw [runBody, bind_of_error hopen] at hbody
        cases hbody
        exact .inr (raisedByBinder_openFrame fuel id _ body home argBase (r.entered id) x _ hopen)
      | ok f r₂ =>
        rw [runBody, bind_of_ok hopen] at hbody
        obtain ⟨p, hpath, ⟨-, hfuel⟩ | ⟨-, name, hpast⟩ | ⟨n, i, hfuel, hi, hadvance⟩⟩ :=
          exists_of_loop_error hbody
        · cases hfuel
        · cases hpast
        · exact .inl ⟨p, r₁, ⟨body, home, f, r₂, henters, hopen, hpath⟩, n, i, hfuel, hi, hadvance⟩
  · obtain ⟨e, hne, he⟩ := runMethod_refused (callees fuel) fuel argBase henters
    rw [he] at h
    cases h
    exact absurd rfl (hne x)

/-- The ways in which a host calls methods. -/
inductive HostEntry : {α : Type} → (Callees → RunM α) → Prop
  | method (n : Nat) (id : MethodId) (m : Method) (receiver : Option Value) (args : List Value) :
    HostEntry fun c ↦ do
      if !m.flags.hasThis then ensureInitialized c n m.declaring
      invokeHost c n id receiver args
  | constructor (n : Nat) (id : MethodId) (args : List Value) :
    HostEntry fun c ↦ constructHost c n id args
  | stream (n : Nat) (id : MethodId) : HostEntry fun c ↦ Stream.invoke c n id

theorem HostEntry.passesErrors {α : Type} {X : Callees → RunM α} (h : HostEntry X) :
    PassesErrors X := by
  have hclosed := PassesErrors.closed
  cases h with
  | method n id m receiver args =>
    refine CallClosed.either (hclosed.bind (hclosed.ensureInitialized n _) fun _ ↦ ?_) ?_
    · exact hclosed.invokeHost n id receiver args
    · exact hclosed.invokeHost n id receiver args
  | constructor n id args => exact hclosed.constructHost n id args
  | stream n id =>
    refine hclosed.bind (hclosed.const _) fun m ↦ hclosed.bind (hclosed.const _) fun found ↦ ?_
    exact CallClosed.either (hclosed.const _) (hclosed.callMethod n id _ _)

/-! ### The trace -/

/-- What becomes of exceptions at a place of a call, when `frames` are the frames that execute an
instruction, innermost first, and calls are made with the bound `k`. -/
structure Place.Treats (k : Nat) (p : Place) (frames : List Activation) : Prop where
  untraced : ∀ raised s, p.Fails (callees k) raised s → raised.trace = [] →
    p.HandsOn (callees k) ⟨raised.value, traceOf s.domain.registry frames⟩
  traced : ∀ raised s, p.Fails (callees k) raised s → raised.trace ≠ [] →
    p.HandsOn (callees k) raised
  rethrows : ∀ raised s, p.Fails (callees k) raised s → p.instruction? = some .rethrow →
    raised ∈ p.frame.held ∧ raised.trace ≠ []
  calls : ∀ id a s x t, p.Calls (callees k) id a s → Engine.run k id a s = .error (.exception x) t →
    ∃ t', p.Fails (callees k) x t'
  keeps : (∀ raised s, ¬p.Fails (callees k) raised s) →
    (∀ q, Follows (callees k) p q → q.frame.held ⊆ p.frame.held) ∧
      ∀ x t, p.Leaves (callees k) x t → x ∈ p.frame.held

/-- What a frame does with the exceptions that come up at one of its places. -/
theorem Visits.treats (hp : Visits fuel id argBase r p) {frames : List Activation}
    (hframes : ∀ raised s, p.Fails (callees fuel) raised s → s.interpreter.frames = frames) :
    p.Treats fuel frames := by
  have hhandsOn (raised : Raised) (s : Running) (h : p.Fails (callees fuel) raised s) :
      p.HandsOn (callees fuel) (raised.tracedIn s) := by
    obtain ⟨n, i, hfuel, hi, hstep⟩ := h
    exact Raises.handsOn (.step hi hstep) hfuel
  refine ⟨fun raised s h hempty ↦ ?_, fun raised s h htrace ↦ ?_, fun raised s h hi ↦ ?_,
    fun id a s x t hcall hrun ↦ hcall.fails hrun, fun hnone ↦ ⟨fun q hq y hy ↦ ?_, fun y t hy ↦ ?_⟩⟩
  · rw [← hframes raised s h, ← tracedIn_of_empty hempty]
    exact hhandsOn raised s h
  · rw [← tracedIn_of_trace (r := s) htrace]
    exact hhandsOn raised s h
  · have hheld := h.held_of_rethrow hi
    exact ⟨hheld, hp.traced raised hheld⟩
  · exact (hq.held hp.traced y hy).resolve_right fun ⟨raised, s, h, _⟩ ↦ hnone raised s h
  · exact (hy.held hp.traced).resolve_right fun ⟨raised, s, h, _⟩ ↦ hnone raised s h

theorem Stands.treats (h : Stands fuel id argBase r k p active) :
    p.Treats k (active ++ r.interpreter.frames) := by
  obtain ⟨id', a, s, hp⟩ := h.visits
  exact hp.treats fun raised t hfails ↦ h.fails_frames hfails

end

/-- An exception that an instruction raises without a trace gets the trace of the frames that
execute an instruction at this moment, and no other trace from then on: clauses, catch clauses, the
instruction that raises it again and calls hand it on as it is, out of the call of the host. What a
frame keeps, what it is left with and what the call fails with has been raised like this, unless it
was raised with a trace, or by a binder before the first instruction of the call: what opening a
frame fails with leaves the call as it is, with no trace if it comes without one
(`raised_before_first_instruction`). -/
theorem traces_record_the_raise (fuel argBase : Nat) (id : MethodId) (r : Running) :
    (∀ k p active, Stands fuel id argBase r k p active →
      p.Treats k (active ++ r.interpreter.frames) ∧
      ∀ x, (x ∈ p.frame.held ∨ ∃ t, p.Leaves (callees k) x t) → Arose fuel id argBase r x) ∧
    (∀ p x t, Visits fuel id argBase r p → p.Leaves (callees fuel) x t →
      ∃ t', run (fuel + 1) id argBase r = .error (.exception x) t') ∧
    ∀ x t, run (fuel + 1) id argBase r = .error (.exception x) t →
      (Arose fuel id argBase r x ∨ r.domain.bindings.Raises x) ∧
      ∀ (α : Type) (X : Callees → RunM α) (s : Running), HostEntry X →
        Makes (callees (fuel + 1)) X s id argBase r →
          ∃ t', X (callees (fuel + 1)) s = .error (.exception x) t' := by
  refine ⟨fun k p active h ↦ ⟨h.treats, ?_⟩, fun p x t hp hleaves ↦ hp.run_of_leaves hleaves,
    fun x t hrun ↦ ⟨?_, fun α X s hentry hmakes ↦ ?_⟩⟩
  · rintro x (hheld | ⟨t, hleaves⟩)
    · exact h.arose.1 x hheld
    · exact h.arose.2 x t hleaves
  · refine (exists_leaves_of_run hrun).imp_left fun ⟨p, t', hp, hleaves⟩ ↦ ?_
    exact hp.arose.2 x t' hleaves
  · exact hentry.passesErrors.error_of_makes hmakes hrun

/-- A method that calls one that throws its receiver, and raises again what it has caught. -/
def callingBody : Body :=
  ⟨[], #[.loadArg 0, .call ⟨0x06000002⟩, .ret, .rethrow], [⟨.catch, 0, 2, 3, 3, none⟩]⟩

/-- A body that throws its first argument. -/
def throwingBody : Body := ⟨[], #[.loadArg 0, .throw], []⟩

/-- A machine with an object on its stack, and the two methods. -/
def Running.calling : Running :=
  let methodOf (name : String) (body : Body) : Method := { (default : Method) with
    name
    flags := { (default : MethodFlags) with hasThis := true }
    origin := .interpreted ⟨⟨0⟩, .empty ""⟩ ⟨0⟩ (some body) }
  { domain := { (default : Domain) with
      registry := { Registry.empty with
        methods := #[methodOf "calling" callingBody, methodOf "throwing" throwingBody]
        tokens := { Registry.empty.tokens with
          methods := ({} : Std.HashMap Reference (Option MethodId)).insert ⟨⟨0⟩, ⟨0x06000002⟩⟩
            (some ⟨1⟩) } } }
    interpreter := { Interpreter.fresh 0 8 with
      stack := endState (Stack.pushObject (.string "raised")) (.empty 8) } }

theorem enters_calling : Enters .calling ⟨0⟩ callingBody ⟨0⟩ :=
  ⟨by decide, rfl, ⟨⟨0⟩, .empty ""⟩, ⟨0⟩, rfl, rfl⟩

/-- A call of an instance method of the interpreter, whose token has been resolved. -/
theorem Engine.makes_call {token : Token} {id : MethodId} {addr : Nat} {m : Method}
    (hfound : r.domain.registry.tokens.methods[(⟨f.home, token⟩ : Reference)]? = some (some id))
    (hm : r.domain.registry.method id = m) (hthis : m.flags.hasThis = true)
    (hnative : m.native? = none) (hroom : f.evalBase + m.argCount ≤ r.stack.top) :
    Makes c (fun c ↦ step c n f addr (.call token)) r id (r.stack.top - m.argCount) r := by
  intro e run he hfails hother
  have hmethod : method id r = .ok m r := hm ▸ rfl
  have hoperand : methodOperand n f token r = .ok (some id) r := by
    have hresolve : Registry.resolveMethod n f.home token f.context r.domain.registry =
        .ok (some id) r.domain.registry := by
      refine (bind_of_ok (s := r.domain.registry) rfl).trans ?_
      simp only [hfound]
      rfl
    have hdomain : Domain.inRegistry (Registry.resolveMethod n f.home token f.context) r.domain =
        .ok (some id) r.domain := by simp only [Domain.inRegistry, hresolve]
    exact Running.onDomain_ok hdomain
  have hbase : operandsBase f m.argCount r = .ok (r.stack.top - m.argCount) r := by
    have htop : ask Stack.top r = .ok r.stack.top r := rfl
    rw [operandsBase, bind_of_ok htop, if_pos hroom]
    rfl
  have hinvoke : invokeAt { c with run } n id m (r.stack.top - m.argCount) r = .error e r := by
    unfold invokeAt
    rw [if_neg (by simp [hnative])]
    exact bind_of_error hfails
  have hcall : callMethod { c with run } n id (r.stack.top - m.argCount) false r = .error e r := by
    unfold callMethod
    rw [bind_of_ok hmethod]
    simp only [Bool.and_false, Bool.false_eq_true, if_false]
    refine (bind_of_ok (a := id) (s := r) rfl).trans ((bind_of_ok hmethod).trans ?_)
    simp only [hthis, Bool.not_true, Bool.false_eq_true, if_false]
    exact hinvoke
  refine ⟨r, bind_of_error ?_⟩
  exact (bind_of_ok hoperand).trans ((bind_of_ok hmethod).trans ((bind_of_ok hbase).trans hcall))

/-- The exception that the code raises, if it does, and the machine then. -/
def Engine.raised? {α : Type} (x : RunM α) (r : Running) : Option (Raised × Running) :=
  match x r with
  | .error (.exception raised) t => some (raised, t)
  | _ => none

theorem Engine.error_of_raised? {α : Type} {x : RunM α} (h : raised? x r = some (raised, t)) :
    x r = .error (.exception raised) t := by
  unfold raised? at h
  split at h
  · next hx =>
    cases h
    exact hx
  · cases h

/-- The exception that the instruction at a place raises, if it does, and the machine then. -/
def Place.failure? (c : Callees) (p : Place) : Option (Raised × Running) :=
  match p.fuel, p.instruction? with
  | n + 1, some i => raised? (step c n p.frame p.addr i) p.noted
  | _, _ => none

theorem Place.fails_of_failure? (h : p.failure? c = some (raised, r)) : p.Fails c raised r := by
  unfold Place.failure? at h
  split at h
  · next n i hfuel hi => exact ⟨n, i, hfuel, hi, error_of_raised? h⟩
  · cases h

/-- The callee throws while the caller executes its call. -/
theorem stands_calling : ∃ p t, Stands 8 ⟨0⟩ 0 .calling 7 p [⟨⟨1⟩, 1⟩, ⟨⟨0⟩, 1⟩] ∧
    p.Fails (callees 7) ⟨.string "raised", []⟩ t := by
  -- The caller at its call, and from there the callee at its throw.
  have hcaller : ((Place.opening? 8 ⟨0⟩ callingBody ⟨0⟩ 0 .calling).bind
      (Place.walk (callees 8) 1)).map (fun q ↦ ((q.addr, q.fuel, q.instruction?),
        (q.noted.domain.registry.tokens.methods[(⟨q.frame.home, ⟨0x06000002⟩⟩ : Reference)]?,
          q.noted.domain.registry.method ⟨1⟩, q.frame.evalBase, q.noted.stack.top),
        decide (q.noted.interpreter.frames.length < q.noted.domain.config.maxCallDepth))) =
      some ((1, 7, some (.call ⟨0x06000002⟩)),
        (some (some ⟨1⟩), Running.calling.domain.registry.method ⟨1⟩, 1, 2), true) := by cbv
  have hcallee : (((Place.opening? 8 ⟨0⟩ callingBody ⟨0⟩ 0 .calling).bind
      (Place.walk (callees 8) 1)).bind fun q ↦
        (Place.opening? 7 ⟨1⟩ throwingBody ⟨0⟩ 1 q.noted).bind (Place.walk (callees 7) 1)).map
          (fun p ↦ (p.addr, (p.failure? (callees 7)).map Prod.fst)) =
      some (1, some ⟨.string "raised", []⟩) := by cbv
  obtain ⟨q, hq, hfacts⟩ := Option.map_eq_some_iff.mp hcaller
  simp only [Prod.mk.injEq, decide_eq_true_eq] at hfacts
  obtain ⟨⟨haddr, hfuel, hi⟩, ⟨htoken, hmethod, hbase, htop⟩, hdepth⟩ := hfacts
  rw [hq, Option.bind_some] at hcallee
  obtain ⟨p, hp, hfacts⟩ := Option.map_eq_some_iff.mp hcallee
  simp only [Prod.mk.injEq] at hfacts
  obtain ⟨haddr', hfailure⟩ := hfacts
  obtain ⟨⟨raised, t⟩, hfailure, rfl⟩ := Option.map_eq_some_iff.mp hfailure
  have hcall : q.Calls (callees 8) ⟨1⟩ 1 q.noted := by
    refine ⟨6, _, hfuel, hi, ?_⟩
    have hmakes : Makes (callees 8) (fun c ↦ step c 6 q.frame q.addr (.call ⟨0x06000002⟩)) q.noted
        ⟨1⟩ (q.noted.stack.top - 1) q.noted :=
      makes_call htoken hmethod rfl rfl (by rw [hbase, htop]; exact Nat.le_refl 2)
    rwa [htop] at hmakes
  have henters : Enters q.noted ⟨1⟩ throwingBody ⟨0⟩ :=
    ⟨hdepth, hmethod ▸ rfl, ⟨⟨0⟩, .empty ""⟩, ⟨0⟩, hmethod ▸ rfl, rfl⟩
  have hinner := Stands.here (visits_of_walk henters hp)
  have houter := hinner.inCall (visits_of_walk enters_calling hq) hcall
  rw [haddr, haddr'] at houter
  exact ⟨p, t, houter, Place.fails_of_failure? hfailure⟩

/-- The trace that the exception gets when it is thrown is the one that it leaves the call of the
host with, after it was caught and raised again. -/
theorem traces_record_the_raise_calling :
    ∃ p t x t', Stands 8 ⟨0⟩ 0 .calling 7 p [⟨⟨1⟩, 1⟩, ⟨⟨0⟩, 1⟩] ∧
      p.Fails (callees 7) ⟨.string "raised", []⟩ t ∧
      p.HandsOn (callees 7) ⟨.string "raised", traceOf t.domain.registry [⟨⟨1⟩, 1⟩, ⟨⟨0⟩, 1⟩]⟩ ∧
      run 9 ⟨0⟩ 0 .calling = .error (.exception x) t' ∧
      x = ⟨.string "raised", [⟨"::throwing", 1, none⟩, ⟨"::calling", 1, none⟩]⟩ ∧
      Arose 8 ⟨0⟩ 0 .calling x := by
  obtain ⟨p, t, hstands, hfails⟩ := stands_calling
  have hend : (raised? (run 9 ⟨0⟩ 0) .calling).map Prod.fst =
      some ⟨.string "raised", [⟨"::throwing", 1, none⟩, ⟨"::calling", 1, none⟩]⟩ := by cbv
  obtain ⟨⟨x, t'⟩, hraised, hx⟩ := Option.map_eq_some_iff.mp hend
  have hrun := error_of_raised? hraised
  obtain ⟨hplaces, -, hends⟩ := traces_record_the_raise 8 0 ⟨0⟩ .calling
  refine ⟨p, t, x, t', hstands, hfails, ?_, hrun, hx, ?_⟩
  · exact (hplaces 7 p _ hstands).1.untraced _ t hfails rfl
  · refine (hends _ t' hrun).1.resolve_right fun hraises ↦ ?_
    obtain ⟨name, binder, data, hbinder, -⟩ := hraises
    have hnone : Running.calling.domain.bindings.binder? name = (∅ : Std.HashMap ..)[name]? := rfl
    simp [hnone] at hbinder

/-! ### A frame that is active before its first instruction -/

/-- What opening the frame of a call fails with leaves the call as it is. -/
theorem run_of_openFrame {body : Body} {home : ModuleId} {argBase : Nat} {id : MethodId}
    (henters : Enters r id body home)
    (hopen : openFrame fuel id (r.domain.registry.method id) body home argBase (r.entered id) =
      .error (.exception x) s) : ∃ t, run (fuel + 1) id argBase r = .error (.exception x) t := by
  change ∃ t, runMethod (callees fuel) fuel id argBase r = .error (.exception x) t
  rw [runMethod_entered henters, runBody, bind_of_error hopen]
  exact ⟨_, rfl⟩

/-- The slot of a host struct is not made if its binder refuses the default of the type. -/
theorem defaultSlot_of_refused {t : TypeId} {binder : StructBinder} {data : HostData} {e : Error}
    {r' : Running} {d : Nat} (hstyle : r.domain.style? t = some (.bound binder))
    (hdefault : (s.domain.registry.type t).native?.bind HostType.default = some data)
    (halloc : (Stack.allocBlock t binder.fields.length : RunM Nat) r = .ok d r')
    (hzero : writeFields d (binder.fields.map Slot.zero) r' = .ok () s)
    (hwrite : binder.write data = .error e) : defaultSlot (fuel + 1) t r = .error e s := by
  obtain ⟨-, hprimitive⟩ := Domain.isStruct_of_style? hstyle
  have hkind (fuel : Nat) : inlineKind fuel t r = .ok (some (.bound binder)) r := by
    rw [inlineKind_eq, hstyle]
  have hreset : resetBound binder t d r' = .error e s := by
    refine (bind_of_ok hzero).trans ((bind_of_ok (descriptor_ok t s)).trans ?_)
    simp only [hdefault, hwrite]
    rfl
  have hblock : allocInline (fuel + 1) t r = .error e s :=
    (bind_of_ok (hkind fuel)).trans ((bind_of_ok halloc).trans (bind_of_error hreset))
  have hinline : isInline (fuel + 1) t r = .ok true r := (bind_of_ok (hkind (fuel + 1))).trans rfl
  refine (bind_of_ok (descriptor_ok t r)).trans ?_
  simp only [hprimitive]
  exact (bind_of_ok hinline).trans (bind_of_error hblock)

/-- A binder that refuses with an exception. -/
def StructBinder.refusing : StructBinder where
  typeName := "N.Point"
  fields := [.int32, .double]
  write _ := .error (.exception ⟨.string "refused", []⟩)
  read _ := .error .lock
  length_write := nofun
  primitive_write := nofun

/-- A machine with the binder of a struct type that has a default, and a method with a local of the
type, whose types of locals have been worked out. -/
def Running.refusing : Running where
  domain := { (default : Domain) with
    registry := { Registry.empty with
      types := #[⟨"N.Point", .native
        { HostType.plain .struct "N" "Point" with default := some (.point 0 0) }, [], none⟩]
      methods := #[{ (default : Method) with
        name := "Measure"
        origin := .interpreted ⟨⟨0⟩, .empty ""⟩ ⟨0⟩ (some ⟨[.named "N.Point" none], #[.ret], []⟩) }]
      facts := { Registry.empty.facts with
        locals := Registry.empty.facts.locals.insert ⟨0⟩ [⟨0⟩] } }
    bindings := { Bindings.empty with
      building := { BindingSet.empty with
        binders := BindingSet.empty.binders.insert "N.Point" .refusing } } }
  interpreter := .fresh 0 8

theorem style?_refusing : Running.refusing.domain.style? ⟨0⟩ = some (.bound .refusing) := by
  have hbinder : Running.refusing.domain.bindings.binder? "N.Point" = some .refusing :=
    Std.HashMap.getElem?_insert_self
  unfold Domain.style?
  simp only [show (Running.refusing.domain.registry.type ⟨0⟩).name = "N.Point" from rfl, hbinder]
  rfl

/-- In the sample the method has one local, of a type of the host. -/
theorem localsOf_refusing : (Running.onDomain (Domain.inRegistry (Registry.localsOf ⟨0⟩)) :
    RunM (List TypeId)) (Running.refusing.entered ⟨0⟩) =
      .ok [⟨0⟩] (Running.refusing.entered ⟨0⟩) := by
  have hknown : Running.refusing.domain.registry.facts.locals[(⟨0⟩ : MethodId)]? = some [⟨0⟩] :=
    Std.HashMap.getElem?_insert_self
  have hanswer : Registry.localsOf ⟨0⟩ Running.refusing.domain.registry =
      .ok [⟨0⟩] Running.refusing.domain.registry := by
    refine (bind_of_ok (s := Running.refusing.domain.registry) rfl).trans ?_
    rw [hknown]
    rfl
  refine Running.onDomain_ok ?_
  simp only [Domain.inRegistry, Running.entered, hanswer]

/-- The frame is there while its local is made. -/
theorem defaultSlot_refusing : ∃ s, defaultSlot 8 ⟨0⟩ (Running.refusing.entered ⟨0⟩) =
    .error (.exception ⟨.string "refused", []⟩) s ∧ s.interpreter.frames = [⟨⟨0⟩, 0⟩] :=
  ⟨_, defaultSlot_of_refused style?_refusing rfl rfl rfl rfl, rfl⟩

/-- Its default is refused by the binder, while the frame of the method is on the stack already. -/
theorem openFrame_refusing (body : Body) (home : ModuleId) :
    ∃ s, openFrame 8 ⟨0⟩ (Running.refusing.domain.registry.method ⟨0⟩) body home 0
      (Running.refusing.entered ⟨0⟩) = .error (.exception ⟨.string "refused", []⟩) s ∧
      s.interpreter.frames = [⟨⟨0⟩, 0⟩] := by
  obtain ⟨s, hslot, hframes⟩ := defaultSlot_refusing
  have htop : ask Stack.top (Running.refusing.entered ⟨0⟩) =
      .ok 0 (Running.refusing.entered ⟨0⟩) := rfl
  have harguments : ownArguments (Running.refusing.domain.registry.method ⟨0⟩) 0
      (Running.refusing.entered ⟨0⟩) = .ok () (Running.refusing.entered ⟨0⟩) := rfl
  refine ⟨s, bind_of_error ((bind_of_ok htop).trans ?_), hframes⟩
  rw [if_neg (by decide)]
  refine (bind_of_ok harguments).trans
    ((bind_of_ok localsOf_refusing).trans ((bind_of_ok htop).trans ?_))
  exact bind_of_error (bind_of_error (bind_of_error hslot))

/-- The frame of the method is active when the exception is raised, and stands at its first
instruction; but the exception leaves the call without a trace. -/
theorem raised_before_first_instruction : ∃ body home s t,
    Enters .refusing ⟨0⟩ body home ∧
    openFrame 8 ⟨0⟩ (Running.refusing.domain.registry.method ⟨0⟩) body home 0
      (Running.refusing.entered ⟨0⟩) = .error (.exception ⟨.string "refused", []⟩) s ∧
    s.interpreter.frames = [⟨⟨0⟩, 0⟩] ∧
    run 9 ⟨0⟩ 0 .refusing = .error (.exception ⟨.string "refused", []⟩) t ∧
    traceOf s.domain.registry s.interpreter.frames ≠ [] := by
  have henters : Enters .refusing ⟨0⟩ ⟨[.named "N.Point" none], #[.ret], []⟩ ⟨0⟩ :=
    ⟨by decide, rfl, ⟨⟨0⟩, .empty ""⟩, ⟨0⟩, rfl, rfl⟩
  obtain ⟨s, hopen, hframes⟩ := openFrame_refusing ⟨[.named "N.Point" none], #[.ret], []⟩ ⟨0⟩
  obtain ⟨t, hrun⟩ := run_of_openFrame henters hopen
  refine ⟨_, _, s, t, henters, hopen, hframes, hrun, ?_⟩
  rw [hframes]
  exact nofun

end ManagedMachine
