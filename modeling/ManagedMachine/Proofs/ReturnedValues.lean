import ManagedMachine.Proofs.BlockGrowth
import ManagedMachine.Proofs.FramePaths

/-!
# What a call returns

The operand on top at a `ret` is turned into a carry before the frame is left: objects become
values, and blocks are boxed. Of all the kinds of slots only the address of a stack cell is handed
on as it is, so that address is the one thing through which a result can refer to the stack.
-/

set_option autoImplicit false
set_option relaxedAutoImplicit false

namespace ManagedMachine

open Engine

/-- The carry refers to nothing on a stack, neither to a cell nor to a block nor to an entry. -/
def Carry.Detached : Carry → Prop
  | .slot s => match s with
    | .stackRef _ | .block _ | .header .. | .object _ | .fieldRef .. | .elementRef .. => False
    | _ => True
  | .block _ => False
  | .value _ | .fieldRef .. | .elementRef .. => True

/-- The carry is what a slot comes to when it is taken off the stack. -/
inductive Slot.Hands (s : Slot) : Carry → Prop
  | address {b : Nat} (h : s = .stackRef b) : s.Hands (.slot (.stackRef b))
  | detached {v : Carry} (h : ∀ b, s ≠ .stackRef b) (hv : v.Detached) : s.Hands v

namespace Engine

variable {c : Callees} {fuel addr argBase : Nat} {f : Frame} {i : Instruction} {r r' : Running}
  {id : MethodId} {v : Carry}

/-- Whatever `loadCarry` gives, boxed if it is a block, stands for the slot. -/
theorem hands_of_detach {s : Slot} {loaded : Carry} {r₁ : Running}
    (hs : r.stack.slotAt addr = .ok s) (hload : loadCarry addr r = .ok loaded r₁)
    (hdetach : detach fuel loaded r₁ = .ok v r') : s.Hands v := by
  obtain ⟨s', r₂, hread, hload⟩ := exists_of_bind hload
  obtain ⟨hs', rfl⟩ := read_ok hread
  obtain rfl : s = s' := Except.ok.inj (hs.symm.trans hs')
  cases s with
  | stackRef b =>
    cases hload
    cases hdetach
    exact .address rfl
  | block d =>
    cases hload
    obtain ⟨boxed, _, -, hend⟩ := exists_of_bind hdetach
    cases hend
    exact .detached nofun trivial
  | object entry | fieldRef entry field | elementRef entry index =>
    obtain ⟨value, _, -, hend⟩ := exists_of_bind hload
    cases hend
    cases hdetach
    exact .detached nofun trivial
  | header t n => cases hload
  | null | int32 n | int64 n | single n | double n | staticRef t n =>
    cases hload
    cases hdetach
    exact .detached nofun trivial

/-- Only a slot that is there can be loaded. -/
theorem slotAt_of_loadCarry {loaded : Carry} (h : loadCarry addr r = .ok loaded r') :
    ∃ s, r.stack.slotAt addr = .ok s := by
  obtain ⟨s, _, hread, -⟩ := exists_of_bind h
  exact ⟨s, (read_ok hread).1⟩

/-- What is handed on comes from the operand on top. -/
theorem returnValue_hands (h : returnValue fuel f r = .ok (some v) r') :
    ∃ s, r.stack.topSlot = .ok s ∧ s.Hands v := by
  obtain ⟨d, r₁, hdescriptor, h⟩ := exists_of_bind h
  cases hdescriptor
  split at h
  · cases h
  · obtain ⟨loaded, r₂, htop, hrest⟩ := exists_of_bind h
    obtain ⟨carry, r₃, hdetach, hrest⟩ := exists_of_bind hrest
    obtain ⟨_, r₄, -, hend⟩ := exists_of_bind hrest
    cases hend
    obtain ⟨a, r₅, hread, hload⟩ := exists_of_bind htop
    obtain ⟨ha, rfl⟩ := read_ok hread
    obtain ⟨s, hs⟩ := slotAt_of_loadCarry hload
    have htopSlot : r₅.stack.topSlot = r₅.stack.slotAt a := by rw [Stack.topSlot, ha]; rfl
    exact ⟨s, htopSlot.trans hs, hands_of_detach hs hload hdetach⟩

/-- Only a `ret` ends a frame with a result. -/
theorem step_ret {f' : Frame} {found : Option Carry}
    (h : step c fuel f addr i r = .ok (.ret found, f') r') :
    i = .ret ∧ returnValue fuel f r = .ok found r' := by
  cases i with
  | ret =>
    obtain ⟨value, r₁, hvalue, hend⟩ := exists_of_bind h
    cases hend
    exact ⟨rfl, hvalue⟩
  | branch target => cases h
  | branchTrue target | branchFalse target =>
    obtain ⟨o, r₁, hbranch, hend⟩ := exists_of_bind h
    cases hend
    rcases branchIf_ok hbranch with hjump | hnext
    · cases hjump
    · cases hnext
  | branchOn op target =>
    obtain ⟨o, r₁, hbranch, hend⟩ := exists_of_bind h
    cases hend
    rcases branchOn_ok hbranch with hjump | hnext
    · cases hjump
    · cases hnext
  | leave target | endFinally =>
    rcases arrive_ok h with ⟨next, hnext, -⟩ | ⟨raised, hraised, -⟩
    · cases hnext
    · cases hraised
  | throw => exact absurd h throwTop_fails
  | rethrow => exact absurd h rethrow_fails
  | _ => exact absurd (onward_ok h).1 nofun

/-- An exception never ends a frame with a result. -/
theorem dispatch_goes_on {raised : Raised} {found : Option Carry} :
    dispatch fuel f addr raised r ≠ .ok (.done found) r' := by
  intro h
  obtain ⟨⟨arrival, g⟩, r₁, -, hend⟩ := exists_of_bind h
  cases arrival with
  | «at» next => cases hend
  | raise raised' => cases hend

/-- A frame ends with a result at a `ret` only. -/
theorem advance_done {found : Option Carry}
    (h : advance c fuel f addr i r = .ok (.done found) r') :
    i = .ret ∧ returnValue fuel f r = .ok found r' := by
  unfold advance at h
  split at h
  · cases h
  · cases h
  · next hstep =>
    cases h
    exact step_ret hstep
  · exact absurd h dispatch_goes_on
  · exact absurd h dispatch_goes_on
  · cases h

/-- A frame that returns does so at a `ret` that control gets to. -/
theorem loop_returns {found : Option Carry} (h : loop c fuel f addr r = .ok found r') :
    ∃ q fuel', Relation.ReflTransGen (Follows c) ⟨fuel, f, addr, r⟩ q ∧
      q.instruction? = some .ret ∧ returnValue fuel' q.frame q.noted = .ok found r' := by
  induction fuel generalizing f addr r with
  | zero => cases h
  | succ fuel ih =>
    cases hi : f.body.code[addr]? with
    | none =>
      rw [loop_outside hi] at h
      cases h
    | some i =>
      cases hadvance : advance c fuel f addr i (r.noting addr) with
      | error e r₁ =>
        rw [loop_failed hi hadvance] at h
        cases h
      | ok ctl r₁ =>
        cases ctl with
        | «at» next f' =>
          rw [loop_next hi hadvance] at h
          have hstep : Follows c ⟨fuel + 1, f, addr, r⟩ ⟨fuel, f', next, r₁⟩ :=
            ⟨rfl, i, hi, hadvance⟩
          obtain ⟨q, fuel', hpath, hq⟩ := ih h
          exact ⟨q, fuel', hpath.head hstep, hq⟩
        | done value =>
          rw [loop_done hi hadvance] at h
          cases h
          obtain ⟨rfl, hvalue⟩ := advance_done hadvance
          exact ⟨⟨fuel + 1, f, addr, r⟩, fuel, .refl, hi, hvalue⟩

end Engine

/-- A call returns what the operand on top at one of its `ret` instructions comes to: the address of
a stack cell if that operand is one, and otherwise something that does not refer to the stack. -/
theorem returned_hands {fuel argBase : Nat} {id : MethodId} {r r' : Running} {v : Carry}
    (h : run (fuel + 1) id argBase r = .ok (some v) r') :
    ∃ p s, Visits fuel id argBase r p ∧ p.instruction? = some .ret ∧
      p.machine.stack.topSlot = .ok s ∧ s.Hands v := by
  change runMethod (callees fuel) fuel id argBase r = _ at h
  by_cases henters : ∃ body home, Enters r id body home
  · obtain ⟨body, home, henters⟩ := henters
    rw [runMethod_entered henters] at h
    cases hbody : runBody (callees fuel) fuel id (r.domain.registry.method id) body home argBase
      (r.entered id) with
    | error e r₁ =>
      rw [hbody] at h
      cases h
    | ok found r₁ =>
      rw [hbody] at h
      dsimp only at h
      split at h
      · cases h
        obtain ⟨f, r₂, hopen, hloop⟩ := exists_of_bind hbody
        obtain ⟨q, fuel', hpath, hret, hvalue⟩ := loop_returns hloop
        obtain ⟨s, htop, hands⟩ := returnValue_hands hvalue
        rw [Place.noted_stack] at htop
        exact ⟨q, s, ⟨body, home, f, r₂, henters, hopen, hpath⟩, hret, htop, hands⟩
      · cases h
  · obtain ⟨e, -, he⟩ := runMethod_refused (callees fuel) fuel argBase henters
    rw [he] at h
    cases h

/-- The result of a call, if it returns one. -/
def Engine.result? (x : RunM (Option Carry)) (r : Running) : Option Carry :=
  match x r with
  | .ok v _ => v
  | .error .. => none

/-- A run that gives a result, as it can be evaluated. -/
theorem Engine.ok_of_result? {x : RunM (Option Carry)} {r : Running} {v : Carry}
    (h : result? x r = some v) : ∃ r', x r = .ok (some v) r' := by
  unfold result? at h
  split at h
  · next r' hx => exact ⟨r', h ▸ hx⟩
  · cases h

/-- A method that returns a number. -/
theorem returned_hands_number :
    ∃ r', run 3 ⟨0⟩ 0 (.sample [#[.constInt32 5, .ret]]) = .ok (some (.slot (.int32 5))) r' ∧
      ∃ p s, Visits 2 ⟨0⟩ 0 (.sample [#[.constInt32 5, .ret]]) p ∧ p.instruction? = some .ret ∧
        p.machine.stack.topSlot = .ok s ∧ s.Hands (.slot (.int32 5)) := by
  obtain ⟨r', hrun⟩ := ok_of_result? (x := run 3 ⟨0⟩ 0) (v := .slot (.int32 5))
    (r := .sample [#[.constInt32 5, .ret]]) (by cbv)
  exact ⟨r', hrun, returned_hands hrun⟩

/-- A machine with a number on its stack, and a method that is called on it as its receiver and
returns the address where the receiver lies. -/
def Running.addressing : Running where
  domain := { (default : Domain) with
    registry := { Registry.empty with
      methods := #[{ (default : Method) with
        flags := MethodKind.instance_.flags
        origin := .interpreted ⟨⟨0⟩, .empty ""⟩ ⟨0⟩ (some ⟨[], #[.loadArgAddr 0, .ret], []⟩) }] } }
  interpreter := { Interpreter.fresh 0 8 with
    stack := endState (Stack.push (.int32 7)) (Stack.empty 8) }

/-- The address of an argument is handed on when the argument is gone. -/
theorem address_outlives_frame :
    ¬∀ (fuel argBase : Nat) (id : MethodId) (r r' : Running) (v : Carry),
    run fuel id argBase r = .ok (some v) r' → v.Detached := by
  intro h
  obtain ⟨r', hrun⟩ := ok_of_result? (x := run 3 ⟨0⟩ 0) (v := .slot (.stackRef 0))
    (r := .addressing) (by cbv)
  exact h 3 0 ⟨0⟩ _ _ _ hrun

end ManagedMachine
