import ManagedMachine.Proofs.Keeping

/-!
# Two runs that end alike

A computation that starts in two states may go the same way in both, although the states differ
where it does not look. `Gives T K x s s' post` says that `x` gives the same result or the same
error in `s` and in `s'`. What it may look at is given by a set of addresses: the states stay
related by `T`, for a set that only grows, and `post` holds of that set, of the result and of the
state that the first run ends in. The rules follow the monad.
-/

set_option autoImplicit false
set_option relaxedAutoImplicit false

namespace ManagedMachine

variable {σ τ α β γ : Type}

/-- Both succeed with one result, or both fail with one error. -/
inductive Agreed (P : α → σ → σ → Prop) (E : σ → σ → Prop) :
    EStateM.Result Error σ α → EStateM.Result Error σ α → Prop
  | ok {a : α} {s s' : σ} (h : P a s s') : Agreed P E (.ok a s) (.ok a s')
  | error {e : Error} {s s' : σ} (h : E s s') : Agreed P E (.error e s) (.error e s')

/-- What two results agree on may be said in weaker terms. -/
theorem Agreed.imp {P P' : α → σ → σ → Prop} {E E' : σ → σ → Prop}
    {x x' : EStateM.Result Error σ α} (h : Agreed P E x x') (hP : ∀ a s s', P a s s' → P' a s s')
    (hE : ∀ s s', E s s' → E' s s') : Agreed P' E' x x' := by
  cases h with
  | ok h => exact .ok (hP _ _ _ h)
  | error h => exact .error (hE _ _ h)

/-- The states are related for a set that has grown. -/
def Grew (T : Set Nat → σ → σ → Prop) (K : Set Nat) (s s' : σ) : Prop :=
  ∃ K', K ⊆ K' ∧ T K' s s'

/-- The computation goes the same way in both states, and the states stay related for a set that has
grown at most. -/
def Gives (T : Set Nat → σ → σ → Prop) (K : Set Nat) (x : EStateM Error σ α) (s s' : σ)
    (post : Set Nat → α → σ → Prop) : Prop :=
  Agreed (fun a t t' ↦ ∃ K', K ⊆ K' ∧ T K' t t' ∧ post K' a t) (Grew T K) (x s) (x s')

/-- The runs end alike, and nothing more is said about them. -/
abbrev Alike (T : Set Nat → σ → σ → Prop) (K : Set Nat) (x : EStateM Error σ α) (s s' : σ) : Prop :=
  Gives T K x s s' fun _ _ _ ↦ True

namespace Gives

variable {T : Set Nat → σ → σ → Prop} {K K₁ : Set Nat} {s s' : σ} {x : EStateM Error σ α}
  {f : α → EStateM Error σ β} {mid : Set Nat → α → σ → Prop} {post : Set Nat → β → σ → Prop}

theorem pure {a : α} (h : T K s s') (ha : mid K a s) :
    Gives T K (Pure.pure a : EStateM Error σ α) s s' mid := .ok ⟨K, subset_rfl, h, ha⟩

/-- An error is the same error, and the states are as they were. -/
theorem throw {mid : Set Nat → α → σ → Prop} (h : T K s s') (e : Error) :
    Gives T K (MonadExcept.throw e : EStateM Error σ α) s s' mid := .error ⟨K, subset_rfl, h⟩

/-- The set may have grown in between. -/
theorem imp {mid' : Set Nat → α → σ → Prop} (h : Gives T K x s s' mid)
    (himp : ∀ K' a t, K ⊆ K' → mid K' a t → mid' K' a t) : Gives T K x s s' mid' :=
  Agreed.imp h (fun _ _ _ ⟨K', hK, hT, hmid⟩ ↦ ⟨K', hK, hT, himp K' _ _ hK hmid⟩) fun _ _ h ↦ h

theorem alike (h : Gives T K x s s' mid) : Alike T K x s s' := h.imp fun _ _ _ _ _ ↦ trivial

/-- What is known of every run that succeeds is known of this one. -/
theorem also {Q : α → σ → Prop} (h : Gives T K x s s' mid)
    (hx : ∀ a t, x s = .ok a t → Q a t) : Gives T K x s s' fun K' a t ↦ mid K' a t ∧ Q a t := by
  unfold Gives at h ⊢
  generalize hr : x s = r, hr' : x s' = r' at h ⊢
  cases h with
  | ok h =>
    obtain ⟨K', hK, ht, hmid⟩ := h
    exact .ok ⟨K', hK, ht, hmid, hx _ _ hr⟩
  | error h => exact .error h

/-- What may be looked at may be more than what was there at first. -/
theorem grow (hK : K ⊆ K₁) (h : Gives T K₁ x s s' mid) : Gives T K x s s' mid :=
  Agreed.imp h (fun _ _ _ ⟨K', hK', hT, hmid⟩ ↦ ⟨K', hK.trans hK', hT, hmid⟩)
    fun _ _ ⟨K', hK', hT⟩ ↦ ⟨K', hK.trans hK', hT⟩

/-- A relation that follows from the one of the runs. -/
theorem weaken {T' : Set Nat → σ → σ → Prop} (hT : ∀ K t t', T K t t' → T' K t t')
    (h : Gives T K x s s' mid) : Gives T' K x s s' mid :=
  Agreed.imp h (fun _ _ _ ⟨K', hK, ht, hmid⟩ ↦ ⟨K', hK, hT _ _ _ ht, hmid⟩)
    fun _ _ ⟨K', hK, ht⟩ ↦ ⟨K', hK, hT _ _ _ ht⟩

/-- What follows may end in states of another relation, if that holds of the states in which the
computation fails. -/
theorem bind_weaken {T' : Set Nat → σ → σ → Prop} (hT : ∀ K t t', T K t t' → T' K t t')
    (hx : Gives T K x s s' mid)
    (hf : ∀ K' a t t', x s = .ok a t → K ⊆ K' → T K' t t' → mid K' a t →
      Gives T' K' (f a) t t' post) :
    Gives T' K (x >>= f) s s' post := by
  unfold Gives at hx
  generalize hr : x s = r, hr' : x s' = r' at hx
  cases hx with
  | ok h =>
    obtain ⟨K', hK, ht, hmid⟩ := h
    rw [Gives, bind_of_ok hr, bind_of_ok hr']
    exact grow hK (hf K' _ _ _ hr hK ht hmid)
  | error h =>
    obtain ⟨K', hK, ht⟩ := h
    rw [Gives, bind_of_error hr, bind_of_error hr']
    exact .error ⟨K', hK, hT _ _ _ ht⟩

/-- The second part starts in states that are related for the set that the first one has left. -/
theorem bind (hx : Gives T K x s s' mid)
    (hf : ∀ K' a t t', x s = .ok a t → K ⊆ K' → T K' t t' → mid K' a t →
      Gives T K' (f a) t t' post) :
    Gives T K (x >>= f) s s' post :=
  bind_weaken (fun _ _ _ h ↦ h) hx hf

/-- What follows a computation that only matters for what it does. -/
theorem seq {y : EStateM Error σ β} {x : EStateM Error σ PUnit} {mid : Set Nat → PUnit → σ → Prop}
    (hx : Gives T K x s s' mid)
    (hy : ∀ K' t t', x s = .ok () t → K ⊆ K' → T K' t t' → mid K' () t → Gives T K' y t t' post) :
    Gives T K (x >>= fun _ ↦ y) s s' post :=
  hx.bind fun K' _ t t' hrun hK ht hmid ↦ hy K' t t' hrun hK ht hmid

/-- A handler starts where the error has left both states. -/
theorem catching {handle : Error → EStateM Error σ α} (hx : Gives T K x s s' mid)
    (hhandle : ∀ e K' t t', K ⊆ K' → T K' t t' → Gives T K' (handle e) t t' mid) :
    Gives T K (MonadExcept.tryCatch x handle : EStateM Error σ α) s s' mid := by
  unfold Gives at hx
  generalize hr : x s = r, hr' : x s' = r' at hx
  have hcatch (u : σ) : (MonadExcept.tryCatch x handle : EStateM Error σ α) u =
      match x u with
      | .ok a u => .ok a u
      | .error e u => handle e u := by
    change EStateM.tryCatch x handle u = _
    rw [EStateM.tryCatch]
    cases x u <;> rfl
  rw [Gives, hcatch, hcatch, hr, hr']
  cases hx with
  | ok h => exact .ok h
  | error h =>
    obtain ⟨K', hK, ht⟩ := h
    exact grow hK (hhandle _ K' _ _ hK ht)

/-- Each round starts in a state that the rounds so far have led to. -/
theorem forM_along {g : γ → EStateM Error σ PUnit} {R : σ → σ → Prop} [IsPreorder σ R] :
    (cs : List γ) → {K : Set Nat} → {s s' : σ} → T K s s' →
    (∀ c ∈ cs, ∀ K' t t', K ⊆ K' → R s t → T K' t t' →
      Gives T K' (g c) t t' fun _ _ u ↦ R t u) →
    Gives T K (cs.forM g) s s' fun _ _ t ↦ R s t
  | [], _, s, _, h, _ => pure h (refl_of R s)
  | c :: cs, K, s, s', h, hg => by
    refine (hg c List.mem_cons_self K s s' subset_rfl (refl_of R s) h).bind
      fun K₁ _ t t' _ hK ht hst ↦ ?_
    have hrest := forM_along (R := R) cs ht fun c hc K₂ u u' hK' htu ↦
      hg c (List.mem_cons_of_mem _ hc) K₂ u u' (hK.trans hK') (trans_of R hst htu)
    exact hrest.imp fun _ _ _ _ htu ↦ trans_of R hst htu

/-- By recursion on the list. -/
theorem forM {g : γ → EStateM Error σ PUnit} : (cs : List γ) → {K : Set Nat} → {s s' : σ} →
    T K s s' → (∀ c ∈ cs, ∀ K' t t', K ⊆ K' → T K' t t' → Alike T K' (g c) t t') →
    Alike T K (cs.forM g) s s'
  | [], _, _, _, h, _ => pure h trivial
  | c :: cs, K, s, s', h, hg =>
    (hg c List.mem_cons_self K s s' subset_rfl h).bind fun _ _ _ _ _ hK ht _ ↦
      forM cs ht fun c hc K' t t' hK' ↦ hg c (List.mem_cons_of_mem _ hc) K' t t' (hK.trans hK')

end Gives

/-- What follows a computation of which nothing else is known. -/
theorem Alike.andThen {T : Set Nat → σ → σ → Prop} {K : Set Nat} {s s' : σ} {x : EStateM Error σ α}
    {f : α → EStateM Error σ β} {post : Set Nat → β → σ → Prop} (hx : Alike T K x s s')
    (hf : ∀ K' a t t', x s = .ok a t → K ⊆ K' → T K' t t' → Gives T K' (f a) t t' post) :
    Gives T K (x >>= f) s s' post :=
  Gives.bind hx fun K' a t t' hrun hK ht _ ↦ hf K' a t t' hrun hK ht

end ManagedMachine
