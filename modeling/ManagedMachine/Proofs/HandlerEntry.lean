import ManagedMachine.Proofs.CallProtection
import ManagedMachine.Proofs.FramePaths

/-!
# The operands at the start of a clause

Control gets into a clause, and to the target of a leave, by way of `leave`, `endFinally` and
`handleException`, and each of them drops the operands of the frame first. The one transition that
does not is the end of the last clause that a leave runs: whatever that clause has left on the stack
is there at the target. `operands_at_arrival` says what a frame finds on its stack wherever its
clauses send it, in any run of any code.
-/

set_option autoImplicit false
set_option relaxedAutoImplicit false

namespace ManagedMachine

open Engine

/-! ### The operand that a clause receives -/

namespace Stack

/-- The slot stands for the value. -/
def Carries (st : Stack) (addr : Nat) (x : Value) : Prop :=
  st.slots[addr]? = some .null ∧ x = .null ∨
    ∃ i, st.slots[addr]? = some (.object i) ∧ st.managed[i]? = some x

theorem push_slot {s : Slot} {st st' : Stack} (h : push s st = .ok () st')
    (hfits : st'.low ≤ st'.slots.size) :
    st'.top = st.top + 1 ∧ st'.slots[st.top]? = some s ∧ st'.managed = st.managed := by
  obtain ⟨hroom, rfl⟩ := push_ok h
  have hsize : st.top < st.slots.size := by
    have hlow : st.low ≤ st.slots.size := by simpa using hfits
    omega
  exact ⟨rfl, by simp [hsize], rfl⟩

theorem push_top {s : Slot} {st st' : Stack} (h : push s st = .ok () st') :
    st'.top = st.top + 1 := by
  obtain ⟨-, rfl⟩ := push_ok h
  rfl

/-- A value that is pushed is found on top, as a value. -/
theorem pushObject_ok {x : Value} {st st' : Stack} (h : pushObject x st = .ok () st') :
    st'.top = st.top + 1 ∧ (st'.low ≤ st'.slots.size → st'.Carries st.top x) := by
  unfold pushObject at h
  split at h
  · next hnull =>
    have hx : x = .null := by cases x <;> simp_all [Value.isNull]
    exact ⟨push_top h, fun hfits ↦ .inl ⟨(push_slot h hfits).2.1, hx⟩⟩
  · obtain ⟨i, st₁, hentry, h⟩ := exists_of_bind h
    cases hentry
    have htop := push_top h
    refine ⟨htop, fun hfits ↦ .inr ⟨st.managed.size, ?_⟩⟩
    obtain ⟨-, hslot, hmanaged⟩ := push_slot h hfits
    exact ⟨hslot, hmanaged ▸ Array.getElem?_push_size⟩

end Stack

namespace Engine

variable {f f' : Frame} {r r' : Running} {arrival : Arrival}

theorem onStack_ok {α : Type} {x : StackM α} {a : α} (h : Running.onStack x r = .ok a r') :
    x r.stack = .ok a r'.stack := by
  obtain ⟨d, n, st, frames⟩ := r
  simp only [Running.onStack] at h
  split at h
  · next hx =>
    cases h
    exact hx
  · cases h

theorem onStack_of_ok {α : Type} {x : StackM α} {a : α} {st : Stack} (h : x r.stack = .ok a st) :
    Running.onStack x r =
      .ok a { r with interpreter := { r.interpreter with stack := st } } := by
  obtain ⟨d, n, st₀, frames⟩ := r
  have hx : x st₀ = .ok a st := h
  simp only [Running.onStack, hx]

theorem popTo_top {a : Nat} (h : (Stack.popTo a : RunM Unit) r = .ok () r') : r'.stack.top = a :=
  Stack.popTo_ok (onStack_ok h)

theorem pushObject_ok {x : Value} (h : (Stack.pushObject x : RunM Unit) r = .ok () r') :
    r'.stack.top = r.stack.top + 1 ∧
      (r'.stack.low ≤ r'.stack.slots.size → r'.stack.Carries r.stack.top x) :=
  Stack.pushObject_ok (onStack_ok h)

/-- Entering a catch clause starts it with the exception noted. -/
theorem finish_catch_ok {k : Nat} {raised : Raised}
    (h : finish f (.catch k raised) r = .ok (arrival, f') r') :
    arrival = .at (f.clause k).handlerStart ∧ f' = { f with caught := (k, raised) :: f.caught } ∧
      r'.stack.top = f.evalBase + 1 ∧
      (r'.stack.low ≤ r'.stack.slots.size → r'.stack.Carries f.evalBase raised.value) := by
  obtain ⟨_, r₁, hpop, h⟩ := exists_of_bind h
  obtain ⟨_, r₂, hpush, h⟩ := exists_of_bind h
  cases h
  obtain ⟨htop, hcarries⟩ := pushObject_ok hpush
  rw [popTo_top hpop] at htop hcarries
  exact ⟨rfl, rfl, htop, hcarries⟩

end Engine

/-! ### Arrivals -/

/-- What a frame has on its stack when its clauses have sent control from `p` to `q`. -/
inductive Lands (p q : Place) : Prop
  /-- No operands at the start of a finally or fault clause. -/
  | clause {k : Nat} {rest : List Nat} {resume : Resume} {others : List Unwind}
    (hunwinds : q.frame.unwinds = ⟨k, rest, resume⟩ :: others)
    (haddr : q.addr = (q.frame.clause k).handlerStart) (hops : q.Operands 0)
  /-- The exception, and nothing else, at the start of a catch clause. -/
  | handler {k : Nat} {raised : Raised} (hcaught : q.frame.caught.head? = some (k, raised))
    (haddr : q.addr = (q.frame.clause k).handlerStart) (hops : q.Operands 1)
    (hcarries : q.machine.stack.Carries q.frame.evalBase raised.value)
  /-- No operands at the target of a leave that passes no clause. -/
  | target {target : UInt32} (hi : p.instruction? = some (.leave target))
    (haddr : q.addr = target.toNat) (hops : q.Operands 0)
  /-- What the last clause has left, at the target of a leave that has passed clauses. -/
  | afterwards {k : Nat} (hi : p.instruction? = some .endFinally)
    (hunwinds : p.frame.unwinds = ⟨k, [], .leave q.addr⟩ :: q.frame.unwinds)
    (hstack : q.machine.stack = p.machine.stack)

variable {c : Callees} {p q : Place} {f : Frame} {r : Running}

/-- Clauses that are run on an empty stack land as they should. Only where there are none left does
it matter what comes after them. -/
theorem unwind_lands {clauses : List Nat} {resume : Resume}
    (h : unwind f clauses resume r = .ok (.at q.addr, q.frame) q.machine)
    (htop : r.stack.top = f.evalBase) (hfits : q.machine.stack.low ≤ q.machine.stack.slots.size)
    (hleave : clauses = [] → resume = .leave q.addr → q.machine = r → Lands p q) : Lands p q := by
  obtain ⟨fuel, f', next, r'⟩ := q
  cases clauses with
  | cons k rest =>
    cases h
    exact .clause rfl rfl htop
  | nil =>
    cases resume with
    | leave target =>
      cases h
      exact hleave rfl rfl rfl
    | «catch» k raised =>
      obtain ⟨haddr, rfl, hops, hcarries⟩ := finish_catch_ok h
      cases haddr
      exact .handler rfl rfl hops (hcarries hfits)
    | propagate raised => cases h

/-- A leave drops the operands, and so arrives with none. -/
theorem leave_lands {target : UInt32} (hi : p.instruction? = some (.leave target))
    (h : leave p.frame p.addr target.toNat p.noted = .ok (.at q.addr, q.frame) q.machine)
    (hcore : q.frame.core = p.frame.core)
    (hfits : q.machine.stack.low ≤ q.machine.stack.slots.size) : Lands p q := by
  obtain ⟨r₁, hpop, hunwind⟩ := leave_ok h
  have htop := popTo_top hpop
  refine unwind_lands hunwind htop hfits fun _ hresume hsame ↦ .target hi ?_ ?_
  · exact (Resume.leave.inj hresume).symm
  · rw [Place.Operands, hsame, htop]
    exact (congrArg Frame.evalBase hcore).symm

theorem handleException_lands {fuel addr : Nat} {raised : Raised}
    (h : handleException fuel f addr raised r = .ok (.at q.addr, q.frame) q.machine)
    (hfits : q.machine.stack.low ≤ q.machine.stack.slots.size) : Lands p q := by
  obtain ⟨raised', _, -, h⟩ := exists_of_bind h
  obtain ⟨catcher, _, -, h⟩ := exists_of_bind h
  obtain ⟨_, r₁, hpop, h⟩ := exists_of_bind h
  refine unwind_lands h (popTo_top hpop) hfits fun _ hresume _ ↦ ?_
  cases catcher <;> cases hresume

/-- The end of a clause that sends control to another clause drops them as well. At the target of a
leave it does not. -/
theorem endFinally_lands (hi : p.instruction? = some .endFinally)
    (h : endFinally p.frame p.noted = .ok (.at q.addr, q.frame) q.machine)
    (hfits : q.machine.stack.low ≤ q.machine.stack.slots.size) : Lands p q := by
  obtain ⟨k, rest, resume, others, hunwinds, ⟨rfl, hfinish⟩ | ⟨hrest, r₁, hpop, hunwind⟩⟩ :=
    endFinally_ok h
  · obtain ⟨fuel, f', next, r'⟩ := q
    cases resume with
    | leave target =>
      cases hfinish
      exact .afterwards hi hunwinds p.noted_stack
    | «catch» k raised =>
      obtain ⟨haddr, rfl, hops, hcarries⟩ := finish_catch_ok hfinish
      cases haddr
      exact .handler rfl rfl hops (hcarries hfits)
    | propagate raised => cases hfinish
  · exact unwind_lands hunwind (popTo_top hpop) hfits fun hnil ↦ absurd hnil hrest

theorem Turn.lands (h : Turn c p q) (hturns : Turns c q.fuel p)
    (hcore : q.frame.core = p.frame.core)
    (hfits : q.machine.stack.low ≤ q.machine.stack.slots.size) : Lands p q := by
  cases h with
  | onward _ hstraight => exact absurd hturns hstraight
  | leave target hi h => exact leave_lands hi h hcore hfits
  | endFinally hi h => exact endFinally_lands hi h hfits
  | raised f raised r _ h => exact handleException_lands h hfits

/-! ### Runs -/

/-- What holds of a frame when it is opened holds at every place that follows. -/
theorem Inside.follows {entry : Running} (hc : c.Protects) (hord : Ordered p.frame)
    (h : Inside entry p.machine) (hq : Follows c p q) :
    q.frame.core = p.frame.core ∧ Ordered q.frame ∧ Inside entry q.machine := by
  obtain ⟨-, i, -, hadvance⟩ := hq
  obtain ⟨w, hw, hedits, hcore⟩ := (does_anywhere hc hord q.fuel p.addr i p.noted).spec.ok hadvance
  refine ⟨hcore, hord.core hcore, ?_⟩
  exact hw ▸ (h.noting p.addr).kept (Edits.kept (fun _ _ _ _ h ↦ h) hedits)

/-- At every place of a run the frame is inside of its bounds. -/
theorem Visits.inside {fuel : Nat} {id : MethodId} {argBase : Nat}
    (h : Visits fuel id argBase r p) :
    Ordered p.frame ∧ Inside r p.machine := by
  obtain ⟨body, home, f, r', -, hopen, hpath⟩ := h
  have hstart : Ordered f ∧ Inside r r' := by
    have hends := ends_openFrame fuel r id (r.domain.registry.method id) body home argBase
    rwa [Ends, hopen] at hends
  induction hpath with
  | refl => exact hstart
  | tail _ hstep ih => exact (ih.2.follows (protects_callees fuel).1 ih.1 hstep).2

/-- Wherever the clauses of a frame send control, in any run of any code, the frame has no operands,
or the exception alone at the start of a catch clause. At the target of a leave that has passed
clauses it has what the last of them has left. -/
theorem operands_at_arrival {fuel : Nat} {id : MethodId} {argBase : Nat}
    (hlow : r.stack.low ≤ r.stack.capacity) (hp : Visits fuel id argBase r p)
    (hq : Follows (callees fuel) p q) (hturns : Turns (callees fuel) q.fuel p) :
    q.frame.core = p.frame.core ∧ Lands p q := by
  obtain ⟨hord, hinside⟩ := hp.inside
  obtain ⟨hcore, -, hinside⟩ := hinside.follows (protects_callees fuel).1 hord hq
  have hfits : q.machine.stack.low ≤ q.machine.stack.slots.size := by
    rw [hinside.size]
    exact hinside.low.trans hlow
  exact ⟨hcore, hq.turn.lands hturns hcore hfits⟩

/-- A leave out of a range whose finally clause puts something on the stack. -/
def leavingBody : Body :=
  ⟨[], #[.leave 3, .constInt32 1, .endFinally, .ret], [⟨.finally, 0, 0, 1, 2, none⟩]⟩

theorem enters_leavingBody : Enters (.ofBodies [leavingBody]) ⟨0⟩ leavingBody ⟨0⟩ :=
  ⟨by decide, rfl, ⟨⟨0⟩, .empty ""⟩, ⟨0⟩, rfl, rfl⟩

/-- For a body with a leave out of a protected range and a finally clause that leaves a number
behind. -/
theorem operands_at_arrival_leavingBody :
    (Running.ofBodies [leavingBody]).stack.low ≤ (Running.ofBodies [leavingBody]).stack.capacity ∧
    ∃ p q, Visits 4 ⟨0⟩ 0 (.ofBodies [leavingBody]) p ∧ Follows (callees 4) p q ∧
      Turns (callees 4) q.fuel p ∧ q.frame.core = p.frame.core ∧ Lands p q := by
  have hlow : (Running.ofBodies [leavingBody]).stack.low ≤
      (Running.ofBodies [leavingBody]).stack.capacity := by cbv
  have hpath : ((Place.opening? 4 ⟨0⟩ leavingBody ⟨0⟩ 0 (.ofBodies [leavingBody])).bind fun p ↦
      (p.next? (callees 4)).map fun _ ↦ p.instruction?) = some (some (.leave 3)) := by cbv
  obtain ⟨p, hp, hnext⟩ := Option.bind_eq_some_iff.mp hpath
  obtain ⟨q, hq, hi⟩ := Option.map_eq_some_iff.mp hnext
  have hvisits : Visits 4 ⟨0⟩ 0 (.ofBodies [leavingBody]) p := by
    have hwalk : (Place.opening? 4 ⟨0⟩ leavingBody ⟨0⟩ 0 (.ofBodies [leavingBody])).bind
        (Place.walk (callees 4) 0) = some p := by
      rw [hp]
      rfl
    exact visits_of_walk enters_leavingBody hwalk
  have hfollows := Place.follows_of_next? hq
  have hturns : Turns (callees 4) q.fuel p := .inl ⟨3, hi⟩
  exact ⟨hlow, p, q, hvisits, hfollows, hturns, operands_at_arrival hlow hvisits hfollows hturns⟩

/-- A clause that a leave has passed last can put operands on the stack at the target of the
leave. -/
theorem leave_target_not_empty :
    ¬∀ (fuel argBase : Nat) (id : MethodId) (r : Running) (p q : Place),
    r.stack.low ≤ r.stack.capacity → Visits fuel id argBase r p → Follows (callees fuel) p q →
    p.instruction? = some .endFinally →
    (∃ k, p.frame.unwinds = ⟨k, [], .leave q.addr⟩ :: q.frame.unwinds) → q.Operands 0 := by
  intro h
  have hpath : (((Place.opening? 4 ⟨0⟩ leavingBody ⟨0⟩ 0 (.ofBodies [leavingBody])).bind
      (Place.walk (callees 4) 2)).bind fun p ↦ (p.next? (callees 4)).map fun q ↦
        (p.instruction?, p.frame.unwinds, q.frame.unwinds, q.addr, q.machine.stack.top,
          q.frame.evalBase)) = some (some .endFinally, [⟨0, [], .leave 3⟩], [], 3, 1, 0) := by cbv
  obtain ⟨p, hp, hnext⟩ := Option.bind_eq_some_iff.mp hpath
  obtain ⟨q, hq, hend⟩ := Option.map_eq_some_iff.mp hnext
  simp only [Prod.mk.injEq] at hend
  obtain ⟨hi, hpending, hunwinds, haddr, htop, hbase⟩ := hend
  have hempty := h 4 0 ⟨0⟩ _ p q (by cbv) (visits_of_walk enters_leavingBody hp)
    (Place.follows_of_next? hq) hi ⟨0, by rw [hpending, hunwinds, haddr]⟩
  rw [Place.Operands, htop, hbase] at hempty
  exact absurd hempty (by decide)

end ManagedMachine
