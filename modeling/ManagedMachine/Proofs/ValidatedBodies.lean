import ManagedMachine.Proofs.FrameTurns

/-!
# A validated body keeps control inside

Control gets to an address by falling through, by a branch, by the start of a handler, or by the
target of a leave, which may be kept with the frame while clauses run. Validation looks at all of
these once, at the instructions and clauses of the body; that the targets kept with a frame are
among those it looked at is an invariant of the execution. So a frame is at an instruction wherever
it gets to, and nothing but an instruction, or the bound on its work, ends it.
-/

set_option autoImplicit false
set_option relaxedAutoImplicit false

namespace ManagedMachine

open Engine

/-! ### What validation makes sure of -/

/-- Branches and handlers lie inside the code, and control falls through only where an instruction
follows. -/
structure Body.Closed (b : Body) : Prop where
  start : 0 < b.size
  target : ∀ (addr : Nat) (i : Instruction) (target : UInt32), b.code[addr]? = some i →
    i.target? = some target → target.toNat < b.size
  handler : ∀ k, (b.clauses.getD k default).handlerStart < b.size
  next : ∀ (addr : Nat) (i : Instruction), b.code[addr]? = some i → endsFlow i.flow = false →
    addr + 1 < b.size

namespace Body

variable {b : Body}

/-- No target of a validated body is outside. -/
theorem target_lt_of_strayTarget (h : b.strayTarget? = none) {addr : Nat} {i : Instruction}
    {target : UInt32} (hi : b.code[addr]? = some i) (htarget : i.target? = some target) :
    target.toNat < b.size := by
  have hmem : (i, addr) ∈ b.code.toList.zipIdx := by
    rw [List.mem_zipIdx_iff_getElem?]
    simpa using hi
  have hnone := List.findSome?_eq_none_iff.mp h (i, addr) hmem
  simp only [htarget] at hnone
  by_contra hlt
  rw [if_pos (Nat.not_lt.mp hlt)] at hnone
  cases hnone

/-- And no handler starts outside. -/
theorem handlerStart_lt (hstart : 0 < b.size) (h : b.clauses.find? (clauseOutside b.size) = none)
    (k : Nat) : (b.clauses.getD k default).handlerStart < b.size := by
  rw [List.getD_eq_getElem?_getD]
  cases hk : b.clauses[k]? with
  | none => exact hstart
  | some clause =>
    have hinside := List.find?_eq_none.mp h clause (List.mem_of_getElem? hk)
    simp only [clauseOutside, Bool.or_eq_true, decide_eq_true_eq] at hinside
    rw [Option.getD_some]
    omega

/-- What validation has passed is closed. -/
theorem closed_of_validate (h : b.validate = .ok ()) : b.Closed := by
  unfold validate at h
  cases hlast : b.code.back? with
  | none =>
    simp only [hlast] at h
    cases h
  | some last =>
    cases hstray : b.strayTarget? with
    | some stray =>
      simp only [hlast, hstray] at h
      cases h
    | none =>
      cases houtside : b.clauses.find? (clauseOutside b.size) with
      | some clause =>
        simp only [hlast, hstray, houtside] at h
        cases h
      | none =>
        simp only [hlast, hstray, houtside] at h
        have hends : endsFlow last.flow = true := by
          by_contra hends
          rw [if_neg hends] at h
          cases h
        have hback : b.code[b.size - 1]? = some last := by rwa [size, ← Array.back?_eq_getElem?]
        have hstart : 0 < b.size := by
          obtain ⟨hlt, -⟩ := Array.getElem?_eq_some_iff.mp hback
          exact Nat.zero_lt_of_lt hlt
        refine ⟨hstart, fun _ _ _ ↦ target_lt_of_strayTarget hstray,
          handlerStart_lt hstart houtside, fun addr i hi hflow ↦ ?_⟩
        obtain ⟨hlt, -⟩ := Array.getElem?_eq_some_iff.mp hi
        refine Nat.lt_of_le_of_ne hlt fun heq ↦ ?_
        -- The last instruction ends the flow, and this one does not.
        have hsame : b.size - 1 = addr := by omega
        rw [hsame, hi] at hback
        cases hback
        exact absurd (hflow.symm.trans hends) nofun

end Body

/-! ### The targets that a frame keeps -/

/-- The leaves that wait for clauses of the frame have their targets inside the code. -/
def Frame.Bounded (f : Frame) : Prop :=
  ∀ u ∈ f.unwinds, ∀ target, u.resume = .leave target → target < f.body.size

variable {c : Callees} {fuel : Nat} {p q : Place} {f f' : Frame} {raised : Raised} {r : Running}

/-- The targets that a frame keeps are those of the place that the exception comes from. -/
theorem Origin.bounded (h : Origin p raised f) (hp : p.frame.Bounded) : f.Bounded := by
  cases h with
  | own => exact hp
  | heldBack k others hi hunwinds =>
    refine fun u hu ↦ hp u ?_
    rw [hunwinds]
    exact List.mem_cons_of_mem _ hu

/-- Clauses that are followed by something inside the code send control inside. -/
theorem Sends.bounded {clauses : List Nat} {resume : Resume} {addr : Nat}
    (h : Sends f clauses resume addr f') (hclosed : f.body.Closed) (hf : f.Bounded)
    (hresume : ∀ target, resume = .leave target → target < f.body.size) :
    f'.Bounded ∧ addr < f.body.size := by
  cases h with
  | clause k rest resume =>
    refine ⟨fun u hu target ↦ ?_, hclosed.handler k⟩
    rcases List.mem_cons.mp hu with rfl | hu
    · exact hresume target
    · exact hf u hu target
  | target => exact ⟨hf, hresume addr rfl⟩
  | handler k raised => exact ⟨hf, hclosed.handler k⟩

/-- From an instruction of a closed body control gets to an instruction. -/
theorem Follows.bounded (h : Follows c p q) (hclosed : p.frame.body.Closed)
    (hp : p.frame.Bounded) :
    q.frame.Bounded ∧ q.addr < p.frame.body.size := by
  cases h.moves with
  | onward i hi hframe haddr hstraight =>
    rw [hframe]
    refine ⟨hp, ?_⟩
    rcases haddr with ⟨hflow, haddr⟩ | ⟨target, htarget, haddr⟩
    · exact haddr ▸ hclosed.next p.addr i hi hflow
    · exact haddr ▸ hclosed.target p.addr i target hi htarget
  | leave target hi hsends =>
    refine hsends.bounded hclosed hp fun target' htarget ↦ ?_
    cases htarget
    exact hclosed.target p.addr _ target hi rfl
  | endFinally k rest resume others hi hunwinds hsends =>
    have hu (u : Unwind) (hu : u ∈ ⟨k, rest, resume⟩ :: others) := hp u (hunwinds ▸ hu)
    exact hsends.bounded hclosed (fun u h ↦ hu u (List.mem_cons_of_mem _ h))
      (hu _ List.mem_cons_self)
  | raised f raised catcher r r₁ _ horigin _ hsends =>
    have hbody := horigin.body
    rw [← hbody]
    have hkept := f.abandon_suffix p.addr catcher f.unwinds
    have hf := horigin.bounded hp
    refine hsends.bounded (hbody ▸ hclosed) (fun u hu ↦ hf u (hkept.subset hu)) fun target ↦ ?_
    cases catcher <;> exact nofun

/-- By induction on the path. -/
theorem bounded_of_path (h : Relation.ReflTransGen (Follows c) p q) (hclosed : p.frame.body.Closed)
    (hp : p.frame.Bounded) (haddr : p.addr < p.frame.body.size) :
    q.frame.body = p.frame.body ∧ q.frame.Bounded ∧ q.addr < p.frame.body.size := by
  induction h with
  | refl => exact ⟨rfl, hp, haddr⟩
  | tail _ hstep ih =>
    obtain ⟨hbody, hbounded, -⟩ := ih
    obtain ⟨hbounded', haddr'⟩ := hstep.bounded (hbody ▸ hclosed) hbounded
    exact ⟨hstep.body.trans hbody, hbounded', hbody ▸ haddr'⟩

/-! ### Every place of a frame -/

/-- The frame of a validated body is at an instruction wherever it gets to, whatever code it calls.
It never runs past its end: an instruction fails where the frame does, or the bound on its work is
used up. -/
theorem validated_bodies_stay_inside {n argBase : Nat} {id : MethodId} {m : Method} {body : Body}
    {home : ModuleId} {r' : Running} (hvalid : body.validate = .ok ())
    (hopen : openFrame n id m body home argBase r = .ok f r') :
    (∀ p, Relation.ReflTransGen (Follows c) ⟨fuel, f, 0, r'⟩ p →
      p.frame.body = body ∧ p.addr < body.size ∧ p.instruction? ≠ none) ∧
    ∀ e t, loop c fuel f 0 r' = .error e t →
      ∃ p, Relation.ReflTransGen (Follows c) ⟨fuel, f, 0, r'⟩ p ∧
        (p.fuel = 0 ∧ e = .outOfFuel ∨ ∃ k i, p.fuel = k + 1 ∧ p.instruction? = some i ∧
          advance c k p.frame p.addr i p.noted = .error e t) := by
  have hclosed := Body.closed_of_validate hvalid
  obtain ⟨rfl, -, hunwinds⟩ := fresh_of_opening hopen
  have hinside (p : Place) (h : Relation.ReflTransGen (Follows c) ⟨fuel, f, 0, r'⟩ p) :
      p.frame.body = f.body ∧ p.addr < f.body.size ∧ p.instruction? ≠ none := by
    obtain ⟨hbody, -, haddr⟩ := bounded_of_path h hclosed (by simp [Frame.Bounded, hunwinds])
      hclosed.start
    refine ⟨hbody, haddr, ?_⟩
    rw [Place.instruction?, hbody]
    simpa [Body.size] using haddr
  refine ⟨hinside, fun e t h ↦ ?_⟩
  obtain ⟨p, hpath, hfuel | ⟨hnone, -⟩ | hadvance⟩ := exists_of_loop_error h
  · exact ⟨p, hpath, .inl hfuel⟩
  · exact absurd hnone (hinside p hpath).2.2
  · exact ⟨p, hpath, .inr hadvance⟩

/-- A leave whose target is kept with the frame while a finally clause runs. -/
theorem validated_bodies_stay_inside_leavingBody :
    leavingBody.validate = .ok () ∧ ∃ f r', openFrame 4 ⟨0⟩
        ((Running.ofBodies [leavingBody]).domain.registry.method ⟨0⟩) leavingBody ⟨0⟩ 0
        ((Running.ofBodies [leavingBody]).entered ⟨0⟩) = .ok f r' ∧
      (∃ p, Relation.ReflTransGen (Follows (callees 4)) ⟨4, f, 0, r'⟩ p ∧ p.addr = 3) ∧
      ∀ p, Relation.ReflTransGen (Follows (callees 4)) ⟨4, f, 0, r'⟩ p →
        p.frame.body = leavingBody ∧ p.addr < leavingBody.size ∧ p.instruction? ≠ none := by
  have hwalk : ((Place.opening? 4 ⟨0⟩ leavingBody ⟨0⟩ 0 (.ofBodies [leavingBody])).bind
      (Place.walk (callees 4) 3)).map Place.addr = some 3 := by cbv
  obtain ⟨p, hp, haddr⟩ := Option.map_eq_some_iff.mp hwalk
  obtain ⟨start, hopening, hpath⟩ := Option.bind_eq_some_iff.mp hp
  obtain ⟨f, r', hopen, rfl⟩ := Place.exists_of_opening hopening
  exact ⟨rfl, f, r', hopen, ⟨p, Place.path_of_walk hpath, haddr⟩,
    (validated_bodies_stay_inside rfl hopen).1⟩

end ManagedMachine
