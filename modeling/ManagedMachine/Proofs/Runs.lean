import ManagedMachine.Proofs.CallProtection
import ManagedMachine.Proofs.MadeCalls

/-!
# Invariants of calls

What holds of every call is proved once for its parts: the opening of its frame, an instruction, and
the end of the frame. A `CallInvariant` has these parts, and `CallInvariant.along` puts them
together for a whole run with all the calls in it. An instruction may take for granted what is known
of its moment, and that the calls it makes keep to the invariant; calls that are known to be never
made do not count.

For a concrete invariant there are then two things to show that are about the engine, that an
instruction keeps it and that opening a frame establishes it. The rest is bookkeeping about errors,
which the fields `refuse` and `fail` are for.
-/

set_option autoImplicit false
set_option relaxedAutoImplicit false

namespace ManagedMachine

open Engine

/-- What a call comes to, with the parts that make it so. Moments are known to satisfy `P` and are
shown to satisfy `P'`. -/
structure CallInvariant (P P' : Moment → Prop) where
  /-- The machine on which a method may be called. -/
  pre : Nat → Running → Prop
  /-- The machine between two instructions of the call. -/
  body : Running → Nat → Frame → Running → Prop
  /-- The machine when the body has returned. -/
  returned : Running → Nat → Option Carry → Running → Prop
  /-- The machine when the body has failed. -/
  failed : Running → Nat → Running → Prop
  good : Nat → Running → Option Carry → Running → Prop
  bad : Nat → Running → Running → Prop
  refuse {a : Nat} {r : Running} : pre a r → bad a r r
  fail {entry r : Running} {a : Nat} {f : Frame} : body entry a f r → failed entry a r
  opens {fuel a : Nat} {id : MethodId} {code : Body} {home : ModuleId} {r : Running} :
    pre a r → Enters r id code home →
      Ends (openFrame fuel id (r.domain.registry.method id) code home a) (r.entered id) (body r a)
        (failed r a)
  step {c : Callees} (serve : ∀ q, Domain.Grows (c.serve q))
    (run : ∀ id a s, pre a s → Ends (c.run id a) s (good a s) (bad a s))
    {entry r : Running} {a fuel addr : Nat} {f : Frame} {i : Instruction} :
    pre a entry → body entry a f r → P (momentOf c entry fuel f addr i r) →
      P' (momentOf c entry fuel f addr i r) ∧
      CallsOnly (fun _ a s ↦ pre a s) c (fun c ↦ advance c fuel f addr i) (r.noting addr) ∧
      Ends (advance c fuel f addr i) (r.noting addr) (fun
        | .at _ f', r' => body entry a f' r'
        | .done v, r' => returned entry a v r') (failed entry a)
  returns {a : Nat} {r r' : Running} {v : Option Carry} : pre a r → returned r a v r' →
    Ends (popArguments a) (r'.left r) (fun _ ↦ good a r v) (bad a r)
  fails {a : Nat} {r r' : Running} : pre a r → failed r a r' →
    bad a r (endState (popArguments a) (r'.left r))

namespace CallInvariant

variable {P P' : Moment → Prop} (I : CallInvariant P P')

/-- An instruction of a frame whose calls are known to go well. -/
theorem step_along {fuel fuel' a addr : Nat} {entry r : Running} {f : Frame} {i : Instruction}
    (ih : ∀ id a r, I.pre a r → Along P fuel id a r →
      Along P' fuel id a r ∧ Ends (run fuel id a) r (I.good a r) (I.bad a r))
    (hpre : I.pre a entry) (hbody : I.body entry a f r)
    (hP : P (momentOf (callees fuel) entry fuel' f addr i r))
    (hcalls : CallsIn (Along P fuel) (callees fuel)
      (momentOf (callees fuel) entry fuel' f addr i r)) :
    P' (momentOf (callees fuel) entry fuel' f addr i r) ∧
    CallsIn (Along P' fuel) (callees fuel) (momentOf (callees fuel) entry fuel' f addr i r) ∧
    Ends (advance (callees fuel) fuel' f addr i) (r.noting addr) (fun
      | .at _ f', r' => I.body entry a f' r'
      | .done v, r' => I.returned entry a v r') (I.failed entry a) := by
  obtain ⟨e, he, hne⟩ := exists_error_ne (advance (callees fuel) fuel' f addr i (r.noting addr))
  have hby := byCalls_advance fuel' f addr i
  -- Calls that are not made are cut off; those that remain keep to the invariant.
  have hcut : advance ((callees fuel).cut (Along P fuel) e) fuel' f addr i (r.noting addr) =
      advance (callees fuel) fuel' f addr i (r.noting addr) := hby.cut_eq hcalls
  have hmoment : momentOf ((callees fuel).cut (Along P fuel) e) entry fuel' f addr i r =
      momentOf (callees fuel) entry fuel' f addr i r := by
    simp only [momentOf, endState, hcut]
  have hrun (id : MethodId) (a : Nat) (s : Running) (hs : I.pre a s) :
      Ends (((callees fuel).cut (Along P fuel) e).run id a) s (I.good a s) (I.bad a s) := by
    by_cases h : Along P fuel id a s
    · have hends := (ih id a s hs h).2
      unfold Ends at hends ⊢
      rw [Callees.cut_of h]
      exact hends
    · unfold Ends
      rw [Callees.cut_of_not h]
      exact I.refuse hs
  obtain ⟨hP', honly, hends⟩ := I.step (c := (callees fuel).cut (Along P fuel) e)
    (protects_callees fuel).1.serve hrun hpre hbody (hmoment.symm ▸ hP)
  refine ⟨hmoment ▸ hP', fun id a s hmakes ↦ ?_, ?_⟩
  · exact (ih id a s (hby.makes_of_cut he hne hcalls honly hmakes) (hcalls id a s hmakes)).1
  · unfold Ends at hends ⊢
    rw [← hcut]
    exact hends

/-- The instructions of one frame, by induction on the bound. Calls are taken care of by the
induction on the depth. -/
theorem loop_along {fuel fuel' a addr : Nat} {entry r : Running} {f : Frame}
    (ih : ∀ id a r, I.pre a r → Along P fuel id a r →
      Along P' fuel id a r ∧ Ends (run fuel id a) r (I.good a r) (I.bad a r))
    (hpre : I.pre a entry) (hbody : I.body entry a f r)
    (halong : AlongLoop (Along P fuel) P (callees fuel) entry fuel' f addr r) :
    AlongLoop (Along P' fuel) P' (callees fuel) entry fuel' f addr r ∧
    Ends (loop (callees fuel) fuel' f addr) r (I.returned entry a) (I.failed entry a) :=
  loop_induct (fun _ _ h ↦ I.fail h)
    (fun _ _ _ _ _ hbody hP hcalls ↦ I.step_along ih hpre hbody hP hcalls) fuel' hbody halong

/-- By induction on the fuel: the parts of a call rely on the calls in it, which have less. -/
theorem along : (fuel : Nat) → (id : MethodId) → (a : Nat) → (r : Running) → I.pre a r →
    Along P fuel id a r → Along P' fuel id a r ∧ Ends (run fuel id a) r (I.good a r) (I.bad a r)
  | 0, _, _, _, hpre, _ => ⟨trivial, I.refuse hpre⟩
  | fuel + 1, id, a, r, hpre, halong => by
    have hopens {body : Body} {home : ModuleId} (henters : Enters r id body home) :
        Ends (openFrame fuel id (r.domain.registry.method id) body home a) (r.entered id)
          (I.body r a)
          (I.failed r a) := I.opens hpre henters
    refine ⟨fun body home f r' henters hopen ↦ ?_, ?_⟩
    · have hopens := hopens henters
      rw [Ends, hopen] at hopens
      exact (I.loop_along (along fuel) hpre hopens (halong body home f r' henters hopen)).1
    · have hrun : run (fuel + 1) id a r = runMethod (callees fuel) fuel id a r := rfl
      by_cases h : ∃ body home, Enters r id body home
      · obtain ⟨body, home, henters⟩ := h
        have hbody : Ends (runBody (callees fuel) fuel id (r.domain.registry.method id) body home a)
            (r.entered id) (I.returned r a) (I.failed r a) := by
          have hopens := hopens henters
          unfold Ends runBody
          cases hopen : openFrame fuel id (r.domain.registry.method id) body home a
            (r.entered id) with
          | error e r' =>
            rw [Ends, hopen] at hopens
            rw [bind_of_error hopen]
            exact hopens
          | ok f r' =>
            rw [Ends, hopen] at hopens
            rw [bind_of_ok hopen]
            exact (I.loop_along (along fuel) hpre hopens (halong body home f r' henters hopen)).2
        unfold Ends at hbody ⊢
        rw [hrun, runMethod_entered henters]
        cases hrunBody : runBody (callees fuel) fuel id (r.domain.registry.method id) body home a
          (r.entered id) with
        | error e r₁ =>
          rw [hrunBody] at hbody
          exact I.fails hpre hbody
        | ok v r₁ =>
          rw [hrunBody] at hbody
          have hreturns := I.returns hpre hbody
          unfold Ends at hreturns
          dsimp only
          cases hpop : popArguments a (r₁.left r) with
          | ok u r₂ =>
            rw [hpop] at hreturns
            exact hreturns
          | error e r₂ =>
            rw [hpop] at hreturns
            exact hreturns
      · obtain ⟨e, -, he⟩ := runMethod_refused (callees fuel) fuel a h
        unfold Ends
        rw [hrun, he]
        exact I.refuse hpre

end CallInvariant

end ManagedMachine
