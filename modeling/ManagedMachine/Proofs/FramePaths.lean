import ManagedMachine.Proofs.Moments

/-!
# The path of control through a frame

A `Place` is where the execution of a frame stands: at an address, with a machine and with a bound
on the instructions that may still follow. `Follows c p q` says that the instruction at `p` leads to
`q`. Most instructions leave the clauses of the frame alone; `Turn` lists those that do not.

What an instruction does to the frame around it is said by inversion: `arrive_ok`, `endFinally_ok`
and their like list what a successful transition was. `Follows` is a function of the place
(`Follows.unique`), which makes it possible to run it (`follows_of_next?`, `path_of_walk`) and to
have a path through a concrete body by evaluation.
-/

set_option autoImplicit false
set_option relaxedAutoImplicit false

namespace ManagedMachine

open Engine

/-- Where the execution of a frame stands. -/
structure Place where
  fuel : Nat
  frame : Frame
  addr : Nat
  machine : Running

namespace Place

/-- The instruction at which the frame stands, if its body has one there. -/
def instruction? (p : Place) : Option Instruction := p.frame.body.code[p.addr]?

/-- The machine that the instruction at the place starts with. -/
def noted (p : Place) : Running := p.machine.noting p.addr

/-- The execution of the frame from the place on. -/
def run (c : Callees) (p : Place) : EStateM.Result Error Running (Option Carry) :=
  loop c p.fuel p.frame p.addr p.machine

/-- The frame has that many operands on the stack. -/
def Operands (p : Place) (count : Nat) : Prop := p.machine.stack.top = p.frame.evalBase + count

@[simp] theorem noted_stack (p : Place) : p.noted.stack = p.machine.stack :=
  Running.noting_stack p.machine p.addr

end Place

/-- The instruction at `p` leads to `q`. -/
def Follows (c : Callees) (p q : Place) : Prop :=
  p.fuel = q.fuel + 1 ∧ ∃ i, p.instruction? = some i ∧
    advance c q.fuel p.frame p.addr i p.noted = .ok (.at q.addr q.frame) q.machine

/-- The instruction at `p` raises an exception in a frame `f`, or one that its last clause held back
goes on. -/
inductive Raises (c : Callees) (fuel : Nat) (p : Place) : Frame → Raised → Running → Prop
  | step {i : Instruction} {raised : Raised} {r : Running} (hi : p.instruction? = some i)
    (h : step c fuel p.frame p.addr i p.noted = .error (.exception raised) r) :
    Raises c fuel p p.frame raised r
  | heldBack {f : Frame} {raised : Raised} {r : Running}
    (hi : p.instruction? = some .endFinally)
    (h : endFinally p.frame p.noted = .ok (.raise raised, f) r) : Raises c fuel p f raised r

/-- The clauses of the method have a say in where control goes from the place. -/
def Turns (c : Callees) (fuel : Nat) (p : Place) : Prop :=
  (∃ target, p.instruction? = some (.leave target)) ∨ p.instruction? = some .endFinally ∨
    ∃ f raised r, Raises c fuel p f raised r

/-- How control gets from a place to the next one. -/
inductive Turn (c : Callees) (p q : Place) : Prop
  | onward (h : q.frame = p.frame) (hstraight : ¬Turns c q.fuel p)
  | leave (target : UInt32) (hi : p.instruction? = some (.leave target))
    (h : leave p.frame p.addr target.toNat p.noted = .ok (.at q.addr, q.frame) q.machine)
  | endFinally (hi : p.instruction? = some .endFinally)
    (h : endFinally p.frame p.noted = .ok (.at q.addr, q.frame) q.machine)
  | raised (f : Frame) (raised : Raised) (r : Running) (hraises : Raises c q.fuel p f raised r)
    (h : handleException q.fuel f p.addr raised r = .ok (.at q.addr, q.frame) q.machine)

namespace Engine

variable {c : Callees} {fuel addr : Nat} {f f' : Frame} {i : Instruction} {r r' : Running}
variable {o : Outcome}

/-! ### What an instruction does with its frame -/

theorem onward_ok {x : RunM Unit} (h : onward f x r = .ok (o, f') r') : o = .next ∧ f' = f := by
  obtain ⟨_, _, -, hend⟩ := exists_of_bind h
  cases hend
  exact ⟨rfl, rfl⟩

/-- Where an instruction that ended well has sent control. -/
theorem arrive_ok {x : RunM (Arrival × Frame)} (h : arrive x r = .ok (o, f') r') :
    (∃ next, o = .jump next ∧ x r = .ok (.at next, f') r') ∨
      ∃ raised, o = .raise raised ∧ x r = .ok (.raise raised, f') r' := by
  obtain ⟨⟨arrival, g⟩, s, hx, hend⟩ := exists_of_bind h
  cases arrival with
  | «at» next =>
    cases hend
    exact .inl ⟨next, rfl, hx⟩
  | raise raised =>
    cases hend
    exact .inr ⟨raised, rfl, hx⟩

theorem jumpIf_cases (taken : Bool) (target : UInt32) :
    jumpIf taken target = .jump target.toNat ∨ jumpIf taken target = .next := by
  cases taken
  · exact .inr rfl
  · exact .inl rfl

theorem branchIf_ok {expected : Bool} {target : UInt32}
    (h : branchIf expected target r = .ok o r') : o = .jump target.toNat ∨ o = .next := by
  obtain ⟨s, _, -, h⟩ := exists_of_bind h
  obtain ⟨b, _, -, h⟩ := exists_of_bind h
  obtain ⟨_, _, -, h⟩ := exists_of_bind h
  cases h
  exact jumpIf_cases _ target

theorem branchOn_ok {op : Comparison} {target : UInt32}
    (h : branchOn op target r = .ok o r') : o = .jump target.toNat ∨ o = .next := by
  obtain ⟨b, _, -, h⟩ := exists_of_bind h
  obtain ⟨_, _, -, h⟩ := exists_of_bind h
  cases h
  exact jumpIf_cases _ target

theorem throwTop_fails {α : Type} {a : α} : (throwTop : RunM α) r ≠ .ok a r' := by
  intro h
  have hspec : Spec (Edit ⟨0, ∅, fun _ ↦ True, fun _ _ _ _ ↦ True⟩) (throwTop : RunM α)
      ⟨r, ∅, ∅, none, [], True⟩ fun _ _ ↦ False := spec_throwTop
  obtain ⟨_, -, -, hfalse⟩ := hspec.ok h
  exact hfalse

theorem rethrow_fails {α : Type} {a : α} : (rethrow f addr : RunM α) r ≠ .ok a r' := by
  unfold rethrow
  cases f.rethrown? addr <;> nofun

/-- Only a leave and the end of a clause change the frame. -/
theorem step_ok (h : step c fuel f addr i r = .ok (o, f') r') :
    (f' = f ∧ (∀ raised, o ≠ .raise raised) ∧ (∀ target, i ≠ .leave target) ∧ i ≠ .endFinally) ∨
    (∃ target, i = .leave target ∧ arrive (leave f addr target.toNat) r = .ok (o, f') r') ∨
    (i = .endFinally ∧ arrive (endFinally f) r = .ok (o, f') r') := by
  cases i with
  | leave target => exact .inr (.inl ⟨target, rfl, h⟩)
  | endFinally => exact .inr (.inr ⟨rfl, h⟩)
  | throw => exact absurd h throwTop_fails
  | rethrow => exact absurd h rethrow_fails
  | branch target =>
    cases h
    exact .inl ⟨rfl, nofun, nofun, nofun⟩
  | branchTrue target | branchFalse target =>
    obtain ⟨o', _, hbranch, hend⟩ := exists_of_bind h
    cases hend
    rcases branchIf_ok hbranch with rfl | rfl <;> exact .inl ⟨rfl, nofun, nofun, nofun⟩
  | branchOn op target =>
    obtain ⟨o', _, hbranch, hend⟩ := exists_of_bind h
    cases hend
    rcases branchOn_ok hbranch with rfl | rfl <;> exact .inl ⟨rfl, nofun, nofun, nofun⟩
  | ret =>
    obtain ⟨value, _, -, hend⟩ := exists_of_bind h
    cases hend
    exact .inl ⟨rfl, nofun, nofun, nofun⟩
  | _ =>
    obtain ⟨rfl, rfl⟩ := onward_ok h
    exact .inl ⟨rfl, nofun, nofun, nofun⟩

/-! ### The transitions into clauses and out of them -/

variable {arrival : Arrival} {k : Nat} {rest : List Nat} {resume : Resume}

theorem unwind_nil : unwind f [] resume = finish f resume := rfl

theorem unwind_cons : unwind f (k :: rest) resume r =
    .ok (.at (f.clause k).handlerStart, { f with unwinds := ⟨k, rest, resume⟩ :: f.unwinds }) r :=
  rfl

theorem leave_ok {target : Nat} (h : leave f addr target r = .ok (arrival, f') r') :
    ∃ r₁, (Stack.popTo f.evalBase : RunM Unit) r = .ok () r₁ ∧
      unwind { f with caught := f.keptOnLeave addr target }
        (leaveClauses f.body.clauses addr target)
        (.leave target) r₁ = .ok (arrival, f') r' := by
  obtain ⟨_, r₁, hpop, h⟩ := exists_of_bind h
  exact ⟨r₁, hpop, h⟩

theorem leave_arrives {target : Nat} (h : leave f addr target r = .ok (arrival, f') r') :
    ∃ next, arrival = .at next := by
  obtain ⟨r₁, -, h⟩ := leave_ok h
  cases hclauses : leaveClauses f.body.clauses addr target with
  | nil =>
    rw [hclauses] at h
    cases h
    exact ⟨target, rfl⟩
  | cons k rest =>
    rw [hclauses, unwind_cons] at h
    cases h
    exact ⟨_, rfl⟩

/-- The end of a clause: there are more clauses to run, or what comes after them is due. -/
theorem endFinally_ok (h : endFinally f r = .ok (arrival, f') r') :
    ∃ k rest resume others, f.unwinds = ⟨k, rest, resume⟩ :: others ∧
      (rest = [] ∧ finish { f with unwinds := others } resume r = .ok (arrival, f') r' ∨
        rest ≠ [] ∧ ∃ r₁, (Stack.popTo f.evalBase : RunM Unit) r = .ok () r₁ ∧
          unwind { f with unwinds := others } rest resume r₁ = .ok (arrival, f') r') := by
  cases hunwinds : f.unwinds with
  | nil =>
    simp only [endFinally, hunwinds] at h
    obtain ⟨_, _, -, h⟩ := exists_of_bind h
    cases h
  | cons u others =>
    obtain ⟨k, rest, resume⟩ := u
    refine ⟨k, rest, resume, others, rfl, ?_⟩
    cases rest with
    | nil =>
      simp only [endFinally, hunwinds] at h
      exact .inl ⟨rfl, h⟩
    | cons d rest =>
      simp only [endFinally, hunwinds] at h
      obtain ⟨_, r₁, hpop, h⟩ := exists_of_bind h
      exact .inr ⟨by simp, r₁, hpop, h⟩

theorem dispatch_at {raised : Raised} {next : Nat}
    (h : dispatch fuel f addr raised r = .ok (.at next f') r') :
    handleException fuel f addr raised r = .ok (.at next, f') r' := by
  obtain ⟨⟨arrival, g⟩, s, hhandle, hend⟩ := exists_of_bind h
  cases arrival with
  | «at» next' =>
    cases hend
    exact hhandle
  | raise raised' => cases hend

end Engine

/-! ### Paths -/

section

variable {c : Callees} {p q q' : Place}

/-- From a place to the next the frame goes on or makes one of the other turns. -/
theorem Follows.turn (h : Follows c p q) : Turn c p q := by
  obtain ⟨fuel, f', next, r'⟩ := q
  obtain ⟨-, i, hi, h⟩ := h
  unfold advance at h
  cases hstep : step c fuel p.frame p.addr i p.noted with
  | error e r =>
    rw [hstep] at h
    cases e with
    | exception raised => exact .raised p.frame raised r (.step hi hstep) (dispatch_at h)
    | _ => cases h
  | ok result r =>
    obtain ⟨o, f⟩ := result
    rw [hstep] at h
    rcases step_ok hstep with ⟨rfl, hraise, hleave, hend⟩ | ⟨target, rfl, harrive⟩ | ⟨rfl, harrive⟩
    · refine .onward ?_ fun hturns ↦ ?_
      · cases o with
        | raise raised => exact absurd rfl (hraise raised)
        | next | jump _ =>
          cases h
          rfl
        | ret _ => cases h
      · rcases hturns with ⟨target, h'⟩ | h' | ⟨_, _, _, ⟨hi', hstep'⟩ | ⟨h', -⟩⟩
        · exact hleave target (Option.some.inj (hi.symm.trans h'))
        · exact hend (Option.some.inj (hi.symm.trans h'))
        · cases hi.symm.trans hi'
          cases hstep.symm.trans hstep'
        · exact hend (Option.some.inj (hi.symm.trans h'))
    · rcases arrive_ok harrive with ⟨next', rfl, hleave⟩ | ⟨raised, rfl, hleave⟩
      · cases h
        exact .leave target hi hleave
      · exact absurd (leave_arrives hleave) nofun
    · rcases arrive_ok harrive with ⟨next, rfl, hfinally⟩ | ⟨raised, rfl, hfinally⟩
      · cases h
        exact .endFinally hi hfinally
      · exact .raised f raised r (.heldBack hi hfinally) (dispatch_at h)

/-- A place is followed by one other at most, as the machine is deterministic. -/
theorem Follows.unique (h : Follows c p q) (h' : Follows c p q') : q = q' := by
  obtain ⟨fuel, f, addr, r⟩ := q
  obtain ⟨fuel', f', addr', r'⟩ := q'
  obtain ⟨hfuel, i, hi, h⟩ := h
  obtain ⟨hfuel', i', hi', h'⟩ := h'
  obtain rfl : fuel = fuel' := Nat.succ.inj (hfuel.symm.trans hfuel')
  obtain rfl : i = i' := Option.some.inj (hi.symm.trans hi')
  cases h.symm.trans h'
  rfl

/-- The execution goes on with the place that follows. -/
theorem Follows.run (h : Follows c p q) : p.run c = q.run c := by
  obtain ⟨hfuel, i, hi, h⟩ := h
  unfold Place.run
  rw [hfuel]
  exact loop_next hi h

theorem run_of_path (h : Relation.ReflTransGen (Follows c) p q) : p.run c = q.run c := by
  induction h with
  | refl => rfl
  | tail _ hstep ih => exact ih.trans hstep.run

theorem fuel_le_of_path (h : Relation.ReflTransGen (Follows c) p q) : q.fuel ≤ p.fuel := by
  induction h with
  | refl => exact Nat.le_refl _
  | tail _ hstep ih =>
    have hfuel := hstep.1
    omega

/-- An execution gets to one place with each bound. -/
theorem eq_of_paths {start : Place} (hp : Relation.ReflTransGen (Follows c) start p)
    (hq : Relation.ReflTransGen (Follows c) start q) (hfuel : p.fuel = q.fuel) : p = q := by
  have hsame {p q : Place} (h : Relation.ReflTransGen (Follows c) p q) (hfuel : p.fuel = q.fuel) :
      p = q := by
    rcases h.cases_head with rfl | ⟨p', hstep, hrest⟩
    · rfl
    · have hless := hstep.1
      have hle := fuel_le_of_path hrest
      omega
  have hunique : Relator.RightUnique (Follows c) := fun _ _ _ h h' ↦ h.unique h'
  rcases Relation.ReflTransGen.total_of_right_unique hunique hp hq with h | h
  · exact hsame h hfuel
  · exact (hsame h hfuel.symm).symm

end

/-! ### Computing paths -/

namespace Place

/-- The place that follows, if the frame goes on. -/
def next? (c : Callees) (p : Place) : Option Place :=
  match p.fuel, p.instruction? with
  | fuel + 1, some i =>
    match advance c fuel p.frame p.addr i p.noted with
    | .ok (.at next f) r => some ⟨fuel, f, next, r⟩
    | _ => none
  | _, _ => none

/-- Does the frame return from the place on? -/
def returns (c : Callees) (p : Place) : Bool :=
  match p.run c with
  | .ok _ _ => true
  | .error _ _ => false

/-- The place some instructions later. -/
def walk (c : Callees) : (count : Nat) → Place → Option Place
  | 0, p => some p
  | count + 1, p => (p.next? c).bind (walk c count)

/-- Where the body of a method begins. -/
def opening? (fuel : Nat) (id : MethodId) (body : Body) (home : ModuleId) (argBase : Nat)
    (r : Running) : Option Place :=
  match openFrame fuel id (r.domain.registry.method id) body home argBase (r.entered id) with
  | .ok f r' => some ⟨fuel, f, 0, r'⟩
  | .error _ _ => none

/-- The place and those that follow it, up to a number of instructions. -/
def trail (c : Callees) : (count : Nat) → Place → List Place
  | 0, p => [p]
  | count + 1, p => p :: (p.next? c).toList.flatMap (trail c count)

theorem next?_of_follows {c : Callees} {p q : Place} (h : Follows c p q) : p.next? c = some q := by
  obtain ⟨hfuel, i, hi, hadvance⟩ := h
  simp only [next?, hfuel, hi, hadvance]

/-- The trail has every place that there is, as each instruction takes from the bound. -/
theorem mem_trail {c : Callees} {count : Nat} {p q : Place} (hcount : p.fuel ≤ count)
    (h : Relation.ReflTransGen (Follows c) p q) : q ∈ p.trail c count := by
  induction count generalizing p with
  | zero =>
    rcases h.cases_head with rfl | ⟨p', hstep, -⟩
    · exact List.mem_singleton_self p
    · exact absurd hstep.1 (by omega)
  | succ count ih =>
    rcases h.cases_head with rfl | ⟨p', hstep, hrest⟩
    · exact List.mem_cons_self
    · have hfuel := hstep.1
      refine List.mem_cons_of_mem p ?_
      rw [next?_of_follows hstep]
      simpa using ih (by omega) hrest

/-- Running one instruction gives the place that follows. -/
theorem follows_of_next? {c : Callees} {p q : Place} (h : p.next? c = some q) : Follows c p q := by
  unfold next? at h
  split at h
  · next fuel i hfuel hi =>
    split at h
    · next hadvance =>
      cases h
      exact ⟨hfuel, i, hi, hadvance⟩
    · cases h
  · cases h

/-- Running several gives a path. -/
theorem path_of_walk {c : Callees} {count : Nat} {p q : Place} (h : p.walk c count = some q) :
    Relation.ReflTransGen (Follows c) p q := by
  induction count generalizing p with
  | zero =>
    cases h
    exact .refl
  | succ count ih =>
    obtain ⟨p', hnext, hwalk⟩ := Option.bind_eq_some_iff.mp h
    exact .head (follows_of_next? hnext) (ih hwalk)

end Place

/-- A place that a call of a method gets to. -/
def Visits (fuel : Nat) (id : MethodId) (argBase : Nat) (r : Running) (p : Place) : Prop :=
  ∃ body home f r', Enters r id body home ∧
    openFrame fuel id (r.domain.registry.method id) body home argBase (r.entered id) = .ok f r' ∧
    Relation.ReflTransGen (Follows (callees fuel)) ⟨fuel, f, 0, r'⟩ p

/-- The first place of a frame is the one that opening it leads to. -/
theorem Place.exists_of_opening {fuel argBase : Nat} {id : MethodId} {r : Running} {body : Body}
    {home : ModuleId} {p : Place} (h : Place.opening? fuel id body home argBase r = some p) :
    ∃ f r', openFrame fuel id (r.domain.registry.method id) body home argBase (r.entered id) =
      .ok f r' ∧ p = ⟨fuel, f, 0, r'⟩ := by
  unfold Place.opening? at h
  split at h
  · next f r' hopened =>
    cases h
    exact ⟨f, r', hopened, rfl⟩
  · cases h

theorem visits_of_walk {fuel : Nat} {id : MethodId} {argBase count : Nat} {r : Running} {p : Place}
    {body : Body} {home : ModuleId} (henters : Enters r id body home)
    (h : (Place.opening? fuel id body home argBase r).bind (Place.walk (callees fuel) count) =
      some p) :
    Visits fuel id argBase r p := by
  obtain ⟨start, hopen, hwalk⟩ := Option.bind_eq_some_iff.mp h
  obtain ⟨f, r', hopened, rfl⟩ := Place.exists_of_opening hopen
  exact ⟨body, home, f, r', henters, hopened, Place.path_of_walk hwalk⟩

/-- A machine with nothing on its stack, and a method without parameters for each body. -/
def Running.ofBodies (bodies : List Body) : Running where
  domain := { (default : Domain) with
    registry := { Registry.empty with
      methods := (bodies.map fun body ↦
        { (default : Method) with
          origin := .interpreted ⟨⟨0⟩, .empty ""⟩ ⟨0⟩ (some body) }).toArray } }
  interpreter := .fresh 0 8

end ManagedMachine
