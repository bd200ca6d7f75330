import ManagedMachine.Host.Program
import Mathlib

/-!
Computations that end in a state related to the one they started in, whether they succeed or fail.
`Keeps R x` says so of one computation for every start. For a relation that is reflexive and
transitive it passes from the parts of a computation to the whole, so a fact of this kind about a
large program needs a lemma for each of its functions and an argument only where a state is written.

The rules go by the name of the construct (`Keeps.bind`, `Keeps.mapM`, `Keeps.tryCatch`), and a
relation is an instance of the class of preorders or it is none. Nothing here knows the program.
-/

set_option autoImplicit false
set_option relaxedAutoImplicit false

namespace ManagedMachine

variable {ε σ α β : Type}

theorem getElem?_push_of_some {α : Type} {xs : Array α} {i : Nat} {a b : α}
    (h : xs[i]? = some a) : (xs.push b)[i]? = some a := by
  obtain ⟨hi, rfl⟩ := Array.getElem?_eq_some_iff.mp h
  rw [Array.getElem?_push, if_neg (Nat.ne_of_lt hi), h]

/-- The state in which a computation ends. -/
def endState (x : EStateM ε σ α) (s : σ) : σ :=
  match x s with
  | .ok _ s => s
  | .error _ s => s

theorem endState_ok {x : EStateM ε σ α} {s t : σ} {a : α} (h : x s = .ok a t) :
    endState x s = t := by
  simp [endState, h]

theorem endState_error {x : EStateM ε σ α} {s t : σ} {e : ε} (h : x s = .error e t) :
    endState x s = t := by
  simp [endState, h]

/-- A sequence that succeeded has succeeded in both parts. -/
theorem exists_of_bind {x : EStateM ε σ α} {f : α → EStateM ε σ β} {s t : σ} {b : β}
    (h : (x >>= f) s = .ok b t) : ∃ a u, x s = .ok a u ∧ f a u = .ok b t := by
  change EStateM.bind x f s = _ at h
  unfold EStateM.bind at h
  split at h
  · next a u hx => exact ⟨a, u, hx, h⟩
  · cases h

theorem bind_of_ok {x : EStateM ε σ α} {f : α → EStateM ε σ β} {s t : σ} {a : α}
    (h : x s = .ok a t) : (x >>= f) s = f a t := by
  change EStateM.bind x f s = _
  rw [EStateM.bind, h]

theorem bind_of_error {x : EStateM ε σ α} {f : α → EStateM ε σ β} {s t : σ} {e : ε}
    (h : x s = .error e t) : (x >>= f) s = .error e t := by
  change EStateM.bind x f s = _
  rw [EStateM.bind, h]

theorem endState_bind {x : EStateM ε σ α} {f : α → EStateM ε σ β} {s t : σ} {a : α}
    (h : x s = .ok a t) : endState (x >>= f) s = endState (f a) t := by
  simp only [endState, bind_of_ok h]

theorem endState_get_bind {g : σ → EStateM ε σ β} (s : σ) :
    endState (MonadState.get >>= g) s = endState (g s) s := rfl

/-- Every run of the computation relates its first state to its last. -/
def Keeps (R : σ → σ → Prop) (x : EStateM ε σ α) : Prop := ∀ s, R s (endState x s)

namespace Keeps

variable {R : σ → σ → Prop} {x : EStateM ε σ α} {f : α → EStateM ε σ β}

theorem ok (h : Keeps R x) {s t : σ} {a : α} (hx : x s = .ok a t) : R s t :=
  endState_ok hx ▸ h s

theorem error (h : Keeps R x) {s t : σ} {e : ε} (hx : x s = .error e t) : R s t :=
  endState_error hx ▸ h s

theorem mono {S : σ → σ → Prop} (h : Keeps R x) (hRS : ∀ s t, R s t → S s t) : Keeps S x :=
  fun s ↦ hRS s _ (h s)

/-! ### Steps -/

theorem modify {g : σ → σ} (h : ∀ s, R s (g s)) : Keeps R (modify g : EStateM ε σ Unit) := h

/-- What follows may use that the state it was handed is the one it starts in. -/
theorem get_bind {g : σ → EStateM ε σ β} (h : ∀ s, R s (endState (g s) s)) :
    Keeps R (MonadState.get >>= g : EStateM ε σ β) := h

variable [IsPreorder σ R]

theorem pure (a : α) : Keeps R (pure a : EStateM ε σ α) := fun s ↦ refl_of R s

theorem throw (e : ε) : Keeps R (throw e : EStateM ε σ α) := fun s ↦ refl_of R s

theorem get : Keeps R (get : EStateM ε σ σ) := fun s ↦ refl_of R s

/-! ### Combinations -/

/-- One computation after the other, by transitivity. -/
theorem bind (hx : Keeps R x) (hf : ∀ a, Keeps R (f a)) : Keeps R (x >>= f) := by
  intro s
  have hs := hx s
  change R s (endState (EStateM.bind x f) s)
  unfold endState EStateM.bind at *
  cases h : x s with
  | ok a t =>
    rw [h] at hs
    exact trans_of R hs (hf a t)
  | error e t =>
    rw [h] at hs
    exact hs

/-- A handler goes on from where the error has left the state. -/
theorem tryCatch {x : EStateM ε σ α} {handle : ε → EStateM ε σ α} (hx : Keeps R x)
    (hhandle : ∀ e, Keeps R (handle e)) :
    Keeps R (MonadExcept.tryCatch x handle : EStateM ε σ α) := by
  intro s
  cases h : x s with
  | ok a t =>
    have hdone : (MonadExcept.tryCatch x handle : EStateM ε σ α) s = .ok a t := by
      change EStateM.tryCatch x handle s = _
      rw [EStateM.tryCatch, h]
    rw [endState_ok hdone]
    exact hx.ok h
  | error e t =>
    have hcaught : (MonadExcept.tryCatch x handle : EStateM ε σ α) s = handle e t := by
      change EStateM.tryCatch x handle s = _
      rw [EStateM.tryCatch, h]
      rfl
    have hend : endState (MonadExcept.tryCatch x handle : EStateM ε σ α) s =
        endState (handle e) t := by
      simp only [endState, hcaught]
    rw [hend]
    exact trans_of R (hx.error h) (hhandle e t)

/-- A check that may fail comes before the computation. -/
theorem checked {p : Prop} [Decidable p] {e : ε} {x : EStateM ε σ β} (hx : Keeps R x) :
    Keeps R (if p then (MonadExcept.throw e : EStateM ε σ PUnit) >>= fun _ ↦ x else x) := by
  split
  · exact (Keeps.throw e).bind fun _ ↦ hx
  · exact hx

theorem seqRight {x : EStateM ε σ PUnit} {y : EStateM ε σ β} (hx : Keeps R x) (hy : Keeps R y) :
    Keeps R (do x; y) :=
  hx.bind fun _ ↦ hy

theorem mapM {γ : Type} {g : γ → EStateM ε σ α} (h : ∀ c, Keeps R (g c)) :
    (cs : List γ) → Keeps R (cs.mapM g)
  | [] => Keeps.pure []
  | c :: cs => by
    rw [List.mapM_cons]
    exact (h c).bind fun a ↦ (mapM h cs).bind fun as ↦ Keeps.pure (a :: as)

/-- By recursion on the list, as `mapM`. -/
theorem forM {γ : Type} {g : γ → EStateM ε σ PUnit} (h : ∀ c, Keeps R (g c)) :
    (cs : List γ) → Keeps R (cs.forM g)
  | [] => Keeps.pure PUnit.unit
  | c :: cs => (h c).bind fun _ ↦ forM h cs

/-- The list is left at the first answer that is true. -/
theorem anyM {γ : Type} {g : γ → EStateM ε σ Bool} (h : ∀ c, Keeps R (g c)) :
    (cs : List γ) → Keeps R (cs.anyM g)
  | [] => Keeps.pure false
  | c :: cs => (h c).bind fun b ↦ by
    cases b
    · exact anyM h cs
    · exact Keeps.pure true

/-- Host code keeps what every answer to a request keeps. -/
theorem program {Req : Type} {Ans : Req → Type} {S : σ → σ → Prop} [IsPreorder σ S]
    {handle : (r : Req) → EStateM Error σ (Ans r)} (h : ∀ r, Keeps S (handle r)) :
    (p : Program Req Ans α) → Keeps S (p.run handle)
  | .done a => Keeps.pure a
  | .fail e => Keeps.throw e
  | .ask r next => by
    intro s
    cases hr : handle r s with
    | ok answer t =>
      have hnext : endState ((Program.ask r next).run handle) s =
          endState ((next (.ok answer)).run handle) t := by
        simp only [endState, Program.run, hr]
      rw [hnext]
      exact trans_of S ((h r).ok hr) (program h (next (.ok answer)) t)
    | error e t =>
      by_cases hfuel : e = .outOfFuel
      · have hend : endState ((Program.ask r next).run handle) s = t := by
          simp only [endState, Program.run, hr, hfuel]
        rw [hend]
        exact (h r).error hr
      · have hnext : endState ((Program.ask r next).run handle) s =
            endState ((next (.error e)).run handle) t := by
          simp only [endState, Program.run, hr]
        rw [hnext]
        exact trans_of S ((h r).error hr) (program h (next (.error e)) t)

end Keeps

end ManagedMachine
