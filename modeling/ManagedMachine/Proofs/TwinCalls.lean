import ManagedMachine.Proofs.Settling
import ManagedMachine.Proofs.TwinWrites

/-!
# Calls on twins

Code that calls goes the same way on twins if what it calls does (`Callees.Twins`). A call reaches
its arguments by their addresses, which the caller has counted on its stack; and the implementation
that a virtual call finds takes as many as the method that was called.

A call is alike on twins in three stages: what is called is found in the registry, which twins
share; the arguments are at addresses of the set; and what the callee does is the assumption
`Callees.Twins`. Host code is a program of requests, each of which is served alike
(`gives_serveFrame`).
-/

set_option autoImplicit false
set_option relaxedAutoImplicit false

namespace ManagedMachine

open Engine

/-! ### Overrides -/

namespace Registry

/-- What tells a method from the default one tells that there is one. -/
theorem hasMethod_of {r : Registry} {id : MethodId} (p : Method → Bool)
    (h : p (r.method id) = true) (hp : p default = false) : r.HasMethod id := by
  refine Nat.lt_of_not_le fun hout ↦ ?_
  have hnone : r.methods[id.index]? = none := Array.getElem?_eq_none hout
  simp [Registry.method, hnone, hp] at h

theorem firstMethod_ok {methods : List MethodId} {p : Method → Bool} {id : MethodId}
    {r r' : Registry} (h : firstMethod methods p r = .ok (some id) r') :
    r' = r ∧ id ∈ methods ∧ p (r.method id) = true := by
  unfold firstMethod ask at h
  obtain ⟨hfound, rfl⟩ := EStateM.Result.ok.inj h
  dsimp only at hfound
  exact ⟨rfl, List.mem_of_find?_eq_some hfound,
    List.find?_some (p := fun id ↦ p (r.method id)) hfound⟩

/-- What is found among the constructors of a type is one. -/
theorem constructors_ok {t : TypeId} {ids : List MethodId} {r r' : Registry}
    (h : constructors t r = .ok ids r') :
    ∀ id ∈ ids, (r'.method id).flags.constructor = true := by
  obtain ⟨found, r₁, -, h⟩ := exists_of_bind h
  obtain ⟨rfl, rfl⟩ := EStateM.Result.ok.inj h
  exact fun id hid ↦ (List.mem_filter.mp hid).2

theorem walk_found {α : Type} {visit : TypeId → RegistryM (Visit α)} {a : α} : (fuel : Nat) →
    {t : TypeId} → {r r' : Registry} → walk visit fuel t r = .ok (some a) r' →
    ∃ t r₁, visit t r₁ = .ok (.found a) r'
  | 0, _, _, _, h => by cases h
  | fuel + 1, t, r, r', h => by
    unfold walk at h
    obtain ⟨v, r₁, hvisit, h⟩ := exists_of_bind h
    cases v with
    | found b =>
      cases h
      exact ⟨t, r, hvisit⟩
    | stop => cases h
    | onward =>
      obtain ⟨base, r₂, -, h⟩ := exists_of_bind h
      cases base with
      | some base => exact walk_found fuel h
      | none => cases h

/-- The implementation of a method is the method itself or another one with its signature. -/
theorem findOverride_ok {fuel : Nat} {receiver : TypeId} {id target : MethodId} {r r' : Registry}
    (h : findOverride fuel receiver id r = .ok target r') :
    target = id ∨ (r'.method target).flags.virtual = true ∧
      (r'.method target).sameSignature (r.method id) = true := by
  unfold findOverride at h
  obtain ⟨m, r₁, hask, h⟩ := exists_of_bind h
  cases hask
  split at h
  · cases h
    exact Or.inl rfl
  · obtain ⟨found, r₂, hwalk, h⟩ := exists_of_bind h
    cases h
    cases found with
    | none => exact Or.inl rfl
    | some found =>
      obtain ⟨t, r₃, hvisit⟩ := walk_found fuel hwalk
      split at hvisit
      · cases hvisit
      · obtain ⟨first, r₄, hfind, hvisit⟩ := exists_of_bind hvisit
        cases first with
        | none => cases hvisit
        | some first =>
          cases hvisit
          obtain ⟨methods, r₅, -, hfirst⟩ := exists_of_bind hfind
          obtain ⟨rfl, -, hmatch⟩ := firstMethod_ok hfirst
          simp only [Bool.and_eq_true] at hmatch
          exact Or.inr ⟨hmatch.1.1, hmatch.2⟩

theorem findOverride_hasMethod {fuel : Nat} {receiver : TypeId} {id target : MethodId}
    {r r' : Registry} (hid : r.HasMethod id)
    (h : findOverride fuel receiver id r = .ok target r') : r'.HasMethod target := by
  have hextends : r.Extends r' := (grows_findOverride (R := Extends) fuel receiver id).ok h
  rcases findOverride_ok h with rfl | ⟨hvirtual, -⟩
  · exact hextends.hasMethod hid
  · exact hasMethod_of (·.flags.virtual) hvirtual rfl

/-- An implementation has the parameters of the method that it implements. -/
theorem findOverride_params {fuel : Nat} {receiver : TypeId} {id target : MethodId}
    {r r' : Registry} (hid : r.HasMethod id)
    (h : findOverride fuel receiver id r = .ok target r') :
    (r'.method target).params = (r.method id).params := by
  have hextends : r.Extends r' := (grows_findOverride (R := Extends) fuel receiver id).ok h
  rcases findOverride_ok h with rfl | ⟨-, hsame⟩
  · exact congrArg Method.params (hextends.method_eq hid)
  · simp only [Bool.and_eq_true, Method.sameSignature, beq_iff_eq] at hsame
    exact hsame.2

/-- A virtual call reaches no further than the arguments of the method that it names. -/
theorem findOverride_argCount {fuel : Nat} {receiver : TypeId} {id target : MethodId}
    {r₀ r r' : Registry} (hthis : (r₀.method id).flags.hasThis = true) (hr : r₀.Extends r)
    (h : findOverride fuel receiver id r = .ok target r') :
    (r'.method target).argCount ≤ (r₀.method id).argCount := by
  have hid := hasMethod_of (·.flags.hasThis) hthis rfl
  have hsame := hr.method_eq hid
  have hparams := findOverride_params (hr.hasMethod hid) h
  rw [Method.argCount, Method.argCount, hparams, hsame, hthis]
  have := Bool.toNat_le (r'.method target).flags.hasThis
  simp only [Bool.toNat_true]
  omega

end Registry

/-! ### Host code -/

variable {α β : Type} {g : Guard} {K : Set Nat} {r r' : Running}

/-- A program that asks goes on alike if the answer is the same. -/
theorem Gives.ask {σ : Type} {T : Set Nat → σ → σ → Prop} {s s' : σ} {Req : Type}
    {Ans : Req → Type} {handle : (q : Req) → EStateM Error σ (Ans q)} {q : Req}
    {next : Except Error (Ans q) → Program Req Ans α} {mid : Set Nat → Ans q → σ → Prop}
    (hq : Gives T K (handle q) s s' mid)
    (hok : ∀ K' a t t', K ⊆ K' → T K' t t' → mid K' a t →
      Alike T K' ((next (.ok a)).run handle) t t')
    (herror : ∀ e K' t t', K ⊆ K' → T K' t t' →
      Alike T K' ((next (.error e)).run handle) t t') :
    Alike T K ((Program.ask q next).run handle) s s' := by
  unfold Gives at hq
  unfold Alike Gives
  simp only [Program.run]
  generalize handle q s = x, handle q s' = x' at hq ⊢
  cases hq with
  | ok h =>
    obtain ⟨K', hK, ht, hmid⟩ := h
    exact Gives.grow hK (hok K' _ _ _ hK ht hmid)
  | @error e t t' h =>
    obtain ⟨K', hK, ht⟩ := h
    have hrest := Gives.grow hK (herror e K' _ _ hK ht)
    by_cases hfuel : e = .outOfFuel
    · subst hfuel
      exact .error ⟨K', hK, ht⟩
    · cases e with
      | outOfFuel => exact absurd rfl hfuel
      | _ => exact hrest

theorem Gives.program {σ : Type} {T : Set Nat → σ → σ → Prop} {Req : Type} {Ans : Req → Type}
    {handle : (q : Req) → EStateM Error σ (Ans q)} : (p : Program Req Ans α) → {K : Set Nat} →
    {s s' : σ} → T K s s' →
    (∀ q K' t t', K ⊆ K' → T K' t t' → Alike T K' (handle q) t t') →
    Alike T K (p.run handle) s s'
  | .done _, _, _, _, h, _ => .pure h trivial
  | .fail e, _, _, _, h, _ => .throw h e
  | .ask q next, K, s, s', h, hhandle =>
    Gives.ask (hhandle q K s s' subset_rfl h)
      (fun _ a _ _ hK ht _ ↦ Gives.program (next (.ok a)) ht fun q K₂ t t' hK₂ ↦
        hhandle q K₂ t t' (hK.trans hK₂))
      fun e _ _ _ hK ht ↦ Gives.program (next (.error e)) ht fun q K₂ t t' hK₂ ↦
        hhandle q K₂ t t' (hK.trans hK₂)

theorem FrameRequest.Honest.mono {q : FrameRequest} {H : Set Nat} (h : q.Honest H) (hK : H ⊆ K) :
    q.Honest K := by
  cases q with
  | setThisFields slots => exact fun s hs ↦ (h s hs).mono hK
  | _ => trivial

/-- Honest code is served slots that lead to the set, and so are those that it writes. -/
theorem Gives.frameProgram {σ : Type} {T : Set Nat → σ → σ → Prop}
    {handle : (q : FrameRequest) → EStateM Error σ q.Answer} : (p : FrameProgram α) →
    {H K : Set Nat} → {s s' : σ} → p.Honest H → H ⊆ K → T K s s' →
    (∀ q K' t t', K ⊆ K' → T K' t t' → q.Honest K' →
      Gives T K' (handle q) t t' fun K'' a _ ↦ q.handed (.ok a) ⊆ K'') →
    Alike T K (p.run handle) s s'
  | .done _, _, _, _, _, _, _, h, _ => .pure h trivial
  | .fail e, _, _, _, _, _, _, h, _ => .throw h e
  | .ask q next, H, K, s, s', hp, hH, h, hhandle => by
    have herror (e : Error) : q.handed (.error e) = ∅ := by cases q <;> rfl
    refine Gives.ask (hhandle q K s s' subset_rfl h (hp.1.mono hH)) (fun K' a _ _ hK ht ha ↦ ?_)
      fun e K' _ _ hK ht ↦ ?_
    · exact Gives.frameProgram _ (hp.2 (.ok a)) (Set.union_subset (hH.trans hK) ha) ht
        fun q K₂ t t' hK₂ ↦ hhandle q K₂ t t' (hK.trans hK₂)
    · refine Gives.frameProgram _ (hp.2 (.error e)) ?_ ht
        fun q K₂ t t' hK₂ ↦ hhandle q K₂ t t' (hK.trans hK₂)
      rw [herror, Set.union_empty]
      exact hH.trans hK

/-- Twins, with the same result left behind. -/
def Running.TwinWith (β : Type) (g : Guard) (K : Set Nat) (p p' : Running × β) : Prop :=
  Running.Twin g K p.1 p'.1 ∧ p'.2 = p.2

/-- What code may call leaves twins behind, and serves requests from the domain alone. -/
structure Callees.Twins (c : Callees) : Prop where
  run {g : Guard} {K : Set Nat} {r r' : Running} (hg : g.Shields) (h : Running.Twin g K r r')
    (id : MethodId) (argBase : Nat) : Gives (Running.Twin g) K (c.run id argBase) r r'
      fun K' result _ ↦ ∀ carry ∈ result, carry.Leads K'
  serve (q : DomainRequest) : Domain.Grows (c.serve q)

namespace Engine

variable {c : Callees}

theorem gives_keeping {x : RunM α} {b : β} {P : Set Nat → α → Prop}
    (hx : Gives (Running.Twin g) K x r r' fun K' a _ ↦ P K' a) :
    Gives (Running.TwinWith β g) K (keeping x) (r, b) (r', b) fun K' a _ ↦ P K' a := by
  unfold Gives at hx ⊢
  simp only [keeping]
  generalize x r = y, x r' = y' at hx ⊢
  cases hx with
  | ok h =>
    obtain ⟨K', hK, ht, hpost⟩ := h
    exact .ok ⟨K', hK, ⟨ht, rfl⟩, hpost⟩
  | error h =>
    obtain ⟨K', hK, ht⟩ := h
    exact .error ⟨K', hK, ht, rfl⟩

theorem alike_keeping {x : RunM α} (hx : Alike (Running.Twin g) K x r r') (b : β) :
    Alike (Running.TwinWith β g) K (keeping x) (r, b) (r', b) :=
  gives_keeping (P := fun _ _ ↦ True) hx

theorem alike_leaving {x : WithResult β Unit} {b : β}
    (hx : Alike (Running.TwinWith β g) K x (r, b) (r', b)) :
    Alike (Running.Twin g) K (leaving b x) r r' := by
  unfold Alike Gives at hx ⊢
  simp only [leaving]
  generalize x (r, b) = y, x (r', b) = y' at hx ⊢
  cases hx with
  | @ok _ p p' h =>
    obtain ⟨K', hK, ⟨ht, hb⟩, -⟩ := h
    obtain ⟨t, b⟩ := p
    obtain ⟨t', b'⟩ := p'
    obtain rfl : b' = b := hb
    exact .ok ⟨K', hK, ht, trivial⟩
  | error h =>
    obtain ⟨K', hK, ht, -⟩ := h
    exact .error ⟨K', hK, ht⟩

/-- Whatever becomes of `x`, what comes after it starts in twins again, of another kind maybe. -/
theorem gives_afterwards {T T' : Set Nat → Running → Running → Prop} {x : RunM α} {y : RunM Unit}
    {post : Set Nat → α → Prop} (hpost : ∀ K' K'' a, K' ⊆ K'' → post K' a → post K'' a)
    (hx : Gives T K x r r' fun K' a _ ↦ post K' a)
    (hy : ∀ K' t t', K ⊆ K' → T K' t t' → Alike T' K' y t t') :
    Gives T' K (afterwards x y) r r' fun K' a _ ↦ post K' a := by
  unfold Gives at hx ⊢
  simp only [afterwards]
  generalize x r = z, x r' = z' at hx ⊢
  cases hx with
  | @ok a t t' h =>
    obtain ⟨K', hK, ht, ha⟩ := h
    have hafter := hy K' _ _ hK ht
    unfold Alike Gives at hafter
    dsimp only
    generalize y t = u, y t' = u' at hafter ⊢
    cases hafter with
    | ok h =>
      obtain ⟨K'', hK', hu, -⟩ := h
      exact .ok ⟨K'', hK.trans hK', hu, hpost _ _ _ hK' ha⟩
    | error h =>
      obtain ⟨K'', hK', hu⟩ := h
      exact .error ⟨K'', hK.trans hK', hu⟩
  | @error e t t' h =>
    obtain ⟨K', hK, ht⟩ := h
    have hafter := hy K' _ _ hK ht
    unfold Alike Gives at hafter
    dsimp only
    generalize y t = u, y t' = u' at hafter ⊢
    cases hafter with
    | ok h =>
      obtain ⟨K'', hK', hu, -⟩ := h
      exact .error ⟨K'', hK.trans hK', hu⟩
    | error h =>
      obtain ⟨K'', hK', hu⟩ := h
      exact .error ⟨K'', hK.trans hK', hu⟩

theorem alike_ensureInitialized (hc : c.Twins) (hg : g.Shields) (h : Running.Twin g K r r')
    (fuel : Nat) (t : TypeId) : Alike (Running.Twin g) K (ensureInitialized c fuel t) r r' := by
  unfold ensureInitialized
  refine Sees.andThen h (.domain h (Domain.grows_beginInitialization fuel t))
    fun first _ _ _ h _ ↦ ?_
  split
  · refine gives_afterwards (T := Running.Twin g) (fun _ _ _ _ _ ↦ trivial) ?_
      fun _ _ _ _ h ↦ (Sees.gives h (.domain h (Domain.grows_finishInitialization fuel t))).alike
    refine Sees.andThen h (.registry h (Registry.grows_typeInitializer t)) fun found _ _ _ h _ ↦ ?_
    cases found with
    | some initializer =>
      exact Sees.andThen h (.ask h h.stack.top) fun a _ _ _ h _ ↦
        (hc.run hg h initializer a).bind fun _ _ _ _ _ _ h _ ↦ .pure h trivial
    | none => exact .pure h trivial
  · exact .pure h trivial

theorem HostFrame.Within.mono {f : HostFrame} {K' : Set Nat} (h : f.Within K) (hK : K ⊆ K') :
    f.Within K' := fun i hi ↦ hK (h i hi)

theorem alike_setThisFields (h : Running.Twin g K r r') {f : HostFrame} (hf : f.Within K)
    (fuel : Nat) {slots : List Slot} (hslots : ∀ s ∈ slots, s.Shown K) :
    Alike (Running.Twin g) K (f.setThisFields fuel slots) r r' := by
  unfold HostFrame.setThisFields
  refine Sees.andThen h (sees_thisSlot h hf) fun s _ _ _ h hs ↦
    Sees.andThen h (sees_blockOf fuel h hs) fun d _ _ _ h hd ↦
      Sees.andThen h (.of_read h (h.stack.header hd)) fun p _ _ _ h _ ↦ ?_
  obtain ⟨t, count⟩ := p
  dsimp only
  split
  · exact .throw h _
  · refine .forM _ h ?_
    rintro ⟨s, i⟩ hmem K' t t' hK h
    have hs := (hslots s (List.fst_mem_of_mem_zipIdx hmem)).mono hK
    exact Sees.andThen h (.of_read h (h.stack.fieldAddr (hK hd) i)) fun a _ _ _ h _ ↦
      h.setSlot hs a

/-- A request of a redirection looks at its arguments, calls back, or writes to its receiver what it
was handed. -/
theorem gives_serveFrame (hc : c.Twins) (h : Running.Twin g K r r') (fuel : Nat) {f : HostFrame}
    (hf : f.Within K) {q : FrameRequest} (hq : q.Honest K) (b : Option Value) :
    Gives (Running.TwinWith (Option Value) g) K (serveFrame c fuel f q) (r, b) (r', b)
      fun K' a _ ↦ q.handed (.ok a) ⊆ K' := by
  have hhanded {slots : List Slot} (hslots : ∀ s ∈ slots, s.Leads K) :
      {a | ∃ s ∈ slots, a ∈ s.target?} ⊆ K := by
    rintro a ⟨s, hs, ha⟩
    exact hslots s hs a ha
  have hfields {x : RunM Slot} (hx : Sees x r r' (·.Leads K)) :
      Sees (do blockFields (← blockOf fuel (← x))) r r' fun slots ↦ ∀ s ∈ slots, s.Leads K :=
    Sees.bind h hx fun s _ h hs ↦ Sees.bind h (sees_blockOf fuel h hs) fun d _ h hd ↦
      sees_blockFields h hd
  have hkeep {x : RunM q.Answer} (hx : Gives (Running.Twin g) K x r r'
      fun K' a _ ↦ q.handed (.ok a) ⊆ K') := gives_keeping (b := b) hx
  cases q with
  | domain q =>
    exact hkeep ((Sees.gives h (.domain h (hc.serve q))).imp fun _ _ _ _ _ ↦ Set.empty_subset _)
  | argumentSlot i =>
    exact hkeep ((Sees.gives h (sees_argSlot h hf i)).imp fun _ _ _ hK hs a ha ↦ hK (hs a ha))
  | argument i =>
    exact hkeep ((Sees.gives h (sees_arg h hf fuel i)).imp fun _ _ _ _ _ ↦ Set.empty_subset _)
  | this =>
    exact hkeep ((Sees.gives h (sees_this h hf fuel)).imp fun _ _ _ _ _ ↦ Set.empty_subset _)
  | valueFields i =>
    exact hkeep ((Sees.gives h (hfields (sees_argSlot h hf i))).imp
      fun _ _ _ hK hs ↦ (hhanded hs).trans hK)
  | thisFields =>
    exact hkeep ((Sees.gives h (hfields (sees_thisSlot h hf))).imp
      fun _ _ _ hK hs ↦ (hhanded hs).trans hK)
  | setThisFields slots =>
    exact hkeep ((alike_setThisFields h hf fuel hq).imp fun _ _ _ _ _ ↦ Set.empty_subset _)
  | setResult v => exact .ok ⟨K, subset_rfl, ⟨h, rfl⟩, Set.empty_subset _⟩

theorem alike_runRedirection (hc : c.Twins) (h : Running.Twin g K r r') (fuel : Nat)
    {f : HostFrame} (hf : f.Within K) {code : Redirection}
    (hcode : ∀ site, (code site).Honest ∅) :
    Alike (Running.Twin g) K (runRedirection c fuel f code) r r' := by
  refine Sees.andThen h (.askDomain h _) fun key _ _ _ h _ ↦ alike_leaving ?_
  refine Gives.frameProgram _ (hcode _) (Set.empty_subset K) ⟨h, rfl⟩ ?_
  rintro q K' ⟨t, b⟩ ⟨t', b'⟩ hK ⟨h, hb⟩ hq
  obtain rfl : b' = b := hb
  exact gives_serveFrame hc h fuel (hf.mono hK) hq b'

theorem alike_pushOnce (h : Running.Twin g K r r') (a : FieldAccess) {push : RunM Unit}
    (hpush : Alike (Running.Twin g) K push r r') (pushed : Bool) :
    Alike (Running.TwinWith Bool g) K (a.pushOnce push) (r, pushed) (r', pushed) := by
  have htwice :
      Alike (Running.Twin g) K (do stackFault (.pushedTwice (← a.key)) : RunM Unit) r r' :=
    Sees.andThen h (sees_accessKey h a) fun _ _ _ _ h _ ↦ .throw h _
  unfold Alike Gives FieldAccess.pushOnce
  dsimp only
  split
  · exact alike_keeping htwice pushed
  · exact alike_keeping hpush true

theorem alike_serveAccess (hc : c.Twins) (h : Running.Twin g K r r') (fuel : Nat)
    {a : FieldAccess} (ha : ∀ addr ∈ a.valueAddr, addr ∈ K) (q : AccessRequest) (pushed : Bool) :
    Alike (Running.TwinWith Bool g) K (serveAccess c fuel a q) (r, pushed) (r', pushed) := by
  have hkeep {α : Type} {x : RunM α} (hx : Alike (Running.Twin g) K x r r') :=
    alike_keeping hx pushed
  cases q with
  | domain q => exact hkeep (Sees.gives h (.domain h (hc.serve q))).alike
  | receiver => exact hkeep (Sees.gives h (sees_accessThis h a)).alike
  | valueSlot => exact hkeep (Sees.gives h (sees_valueSlot h ha)).alike
  | value => exact hkeep (Sees.gives h (sees_accessValue h ha fuel)).alike
  | pushInt32 v => exact alike_pushOnce h a (h.push ⟨.of_none rfl, rfl⟩) pushed
  | pushInt64 v => exact alike_pushOnce h a (h.push ⟨.of_none rfl, rfl⟩) pushed
  | pushDouble v => exact alike_pushOnce h a (h.push ⟨.of_none rfl, rfl⟩) pushed
  | push v => exact alike_pushOnce h a (alike_pushValue h fuel v _) pushed

theorem alike_runDelegate (hc : c.Twins) (h : Running.Twin g K r r') (fuel : Nat)
    {a : FieldAccess} (ha : ∀ addr ∈ a.valueAddr, addr ∈ K) (code : FieldDelegate) :
    Alike (Running.Twin g) K (runDelegate c fuel a code) r r' := by
  refine alike_leaving (Gives.program _ ⟨h, rfl⟩ ?_)
  rintro q K' ⟨t, b⟩ ⟨t', b'⟩ hK ⟨h, hb⟩
  obtain rfl : b' = b := hb
  exact alike_serveAccess hc h fuel (fun addr haddr ↦ hK (ha addr haddr)) q b'

/-- The arguments go and the result comes. -/
theorem alike_finishHostCall (hg : g.Shields) (h : Running.Twin g K r r') (fuel : Nat)
    (f : HostFrame) (result : Option Value) :
    Alike (Running.Twin g) K (finishHostCall fuel f result) r r' := by
  have hdefault {K : Set Nat} {r r' : Running} (h : Running.Twin g K r r') (t : TypeId) :
      Alike (Running.Twin g) K
        (do pushValue fuel (← (Domain.defaultValue fuel t : DomainM Value)) t) r r' :=
    Sees.andThen h (.domain h (Domain.grows_defaultValue fuel t)) fun v _ _ _ h _ ↦
      alike_pushValue h fuel v t
  unfold finishHostCall
  refine (h.popTo hg f.argBase).seq fun _ _ _ _ _ h _ ↦
    Sees.andThen h (.descriptor h _) fun ret _ _ _ h _ ↦ ?_
  dsimp only
  by_cases hvoid : (!(f.method.flags.constructor && !f.hasReceiver) && ret.isVoid) = true
  · rw [if_pos hvoid]
    exact .pure h trivial
  · rw [if_neg hvoid]
    refine Sees.andThen h (.descriptor h _) fun d _ _ _ h _ ↦ ?_
    split
    · split
      · exact hdefault h _
      · exact alike_pushValue h fuel _ _
    · exact hdefault h _

/-- So does the whole call of a host method. -/
theorem alike_callHost (hc : c.Twins) (hg : g.Shields) (h : Running.Twin g K r r') (fuel : Nat)
    {m : Method} {argBase : Nat} {hasReceiver : Bool}
    (hf : HostFrame.Within ⟨m, argBase, hasReceiver⟩ K) :
    Alike (Running.Twin g) K (callHost c fuel m argBase hasReceiver) r r' := by
  unfold callHost
  refine Sees.andThen h (.askDomain h _) fun domain _ _ hd h hdomain ↦ ?_
  dsimp only
  split
  · next code hcode =>
    have hhonest := h.honest
    subst hdomain
    refine (alike_runRedirection hc h fuel hf fun site ↦ ?_).bind
      fun _ result _ _ _ _ h _ ↦ alike_finishHostCall hg h fuel _ result
    rw [← hd.bindings] at hcode
    exact hhonest _ code hcode site
  · split
    · exact Sees.andThen h (.fullName h m) fun _ _ _ _ h _ ↦ .throw h _
    · split
      · exact .throw h _
      · exact Sees.andThen h (sees_callHostCode hc.serve h fuel hf _) fun v _ _ _ h _ ↦
          alike_finishHostCall hg h fuel _ (some v)

theorem alike_loadHost (hc : c.Twins) (h : Running.Twin g K r r') (fuel : Nat) (field : Field)
    (receiver : Option Value) : Alike (Running.Twin g) K (loadHost c fuel field receiver) r r' := by
  unfold loadHost
  refine Sees.andThen h (sees_fieldKey h field) fun key _ _ _ h _ ↦
    Sees.andThen h (.askDomain h _) fun bindings _ _ _ h _ ↦ ?_
  split
  · refine (alike_runDelegate hc h fuel (a := ⟨field, receiver, none⟩) nofun _).bind
      fun _ pushed _ _ _ _ h _ ↦ ?_
    split
    · exact .pure h trivial
    · exact .throw h _
  · split
    · exact Sees.andThen h (.domain h (Domain.grows_runHost _)) fun v _ _ _ h _ ↦
        alike_pushValue h fuel v _
    · exact Sees.never h (sees_noAccessor h field _)

theorem alike_storeHost (hc : c.Twins) (h : Running.Twin g K r r') (fuel : Nat) (field : Field)
    (receiver : Option Value) :
    Alike (Running.Twin g) K (storeHost c fuel field receiver) r r' := by
  unfold storeHost
  refine Sees.andThen h (sees_fieldKey h field) fun key _ _ _ h _ ↦
    Sees.andThen h (.askDomain h _) fun bindings _ _ _ h _ ↦ ?_
  split
  · refine Sees.andThen h (sees_topAddr h) fun addr _ _ _ h haddr ↦ ?_
    have hvalue : ∀ a ∈ some addr, a ∈ K := fun a ha ↦ Option.some.inj ha ▸ haddr
    exact (alike_runDelegate hc h fuel (a := ⟨field, receiver, some addr⟩) hvalue _).bind
      fun _ _ _ _ _ _ h _ ↦ .pure h trivial
  · refine Sees.andThen h (sees_loadTop h) fun carry _ _ _ h hcarry ↦
      Sees.andThen h (sees_carryValue h fuel hcarry _) fun v _ _ _ h _ ↦ ?_
    split
    · exact (Sees.gives h (.domain h (Domain.grows_runHost _))).alike
    · exact Sees.never h (sees_noAccessor h field _)

/-! ### Fields -/

theorem alike_loadStatic (hc : c.Twins) (hg : g.Shields) (h : Running.Twin g K r r') (fuel : Nat)
    (field : Field) : Alike (Running.Twin g) K (loadStatic c fuel field) r r' := by
  unfold loadStatic
  split
  · exact alike_loadHost hc h fuel field none
  · exact (alike_ensureInitialized hc hg h fuel _).seq fun _ _ _ _ _ h _ ↦
      Sees.andThen h (.domain h (Domain.grows_static fuel _ _)) fun v _ _ _ h _ ↦
        alike_pushValue h fuel v _

theorem alike_storeStatic (hc : c.Twins) (hg : g.Shields) (h : Running.Twin g K r r') (fuel : Nat)
    (field : Field) : Alike (Running.Twin g) K (storeStatic c fuel field) r r' := by
  unfold storeStatic
  split
  · exact alike_storeHost hc h fuel field none
  · exact Sees.andThen h (sees_loadTop h) fun carry _ _ _ h hcarry ↦
      Sees.andThen h (sees_carryValue h fuel hcarry _) fun v _ _ _ h _ ↦
        (alike_ensureInitialized hc hg h fuel _).seq fun _ _ _ _ _ h _ ↦
          (Sees.gives h (.domain h (Domain.grows_setStatic fuel _ _ v))).alike

theorem alike_loadStaticAddr (hc : c.Twins) (hg : g.Shields) (h : Running.Twin g K r r')
    (fuel : Nat) (field : Field) :
    Alike (Running.Twin g) K (loadStaticAddr c fuel field) r r' := by
  unfold loadStaticAddr
  split
  · exact Sees.andThen h (sees_fieldKey h field) fun _ _ _ _ h _ ↦ .throw h _
  · exact (alike_ensureInitialized hc hg h fuel _).seq fun _ _ _ _ _ h _ ↦
      h.push ⟨.of_none rfl, rfl⟩

theorem alike_loadField (hc : c.Twins) (hg : g.Shields) (h : Running.Twin g K r r') (fuel : Nat)
    (field : Field) : Alike (Running.Twin g) K (loadField c fuel field) r r' := by
  unfold loadField
  split
  · exact (h.pop hg).seq fun _ _ _ _ _ h _ ↦ alike_loadStatic hc hg h fuel field
  · refine Sees.andThen h (sees_top h) fun s _ _ _ h hs ↦
      Sees.andThen h (sees_targetOf fuel h hs.leads) fun target _ _ _ h htarget ↦ ?_
    split
    · exact Sees.andThen h (sees_hostReceiver h fuel htarget) fun _ _ _ _ h _ ↦
        (h.pop hg).seq fun _ _ _ _ _ h _ ↦ alike_loadHost hc h fuel field _
    · cases target with
      | null => exact Sees.never h (sees_nullReference h)
      | block d =>
        refine Sees.andThen h (.of_read h (h.stack.fieldAddr htarget _)) fun addr _ _ _ h haddr ↦ ?_
        have haddr : addr ∈ K := h.stack.mem_fieldAddr htarget haddr
        refine Sees.andThen h (sees_loadCarry h haddr) fun carry _ _ _ h hcarry ↦
          Sees.andThen h (sees_detach h fuel hcarry) fun carry _ _ _ h hcarry ↦ ?_
        exact (h.pop hg).seq fun _ _ _ _ hK h _ ↦ alike_pushCarry h fuel (hcarry.mono hK) _
      | object id =>
        exact Sees.andThen h (.domain h (Domain.grows_field id _)) fun v _ _ _ h _ ↦
          (h.pop hg).seq fun _ _ _ _ _ h _ ↦ alike_pushValue h fuel v _

/-- Stores are alike also where host code does them. -/
theorem alike_storeField (hc : c.Twins) (hg : g.Shields) (h : Running.Twin g K r r') (fuel : Nat)
    (field : Field) : Alike (Running.Twin g) K (storeField c fuel field) r r' := by
  have hpop {r r' : Running} {x : RunM Unit} (hx : Alike (Running.Twin g) K x r r') :
      Alike (Running.Twin g) K (do x; Running.onStack (Stack.popMany 2)) r r' :=
    hx.seq fun _ _ _ _ _ h _ ↦ h.popMany hg 2
  unfold storeField
  split
  · exact hpop (alike_storeStatic hc hg h fuel field)
  · refine Sees.andThen h (sees_peek h 1) fun s _ _ _ h hs ↦
      Sees.andThen h (sees_targetOf fuel h hs.leads) fun target _ _ _ h htarget ↦ ?_
    split
    · exact Sees.andThen h (sees_hostReceiver h fuel htarget) fun _ _ _ _ h _ ↦
        hpop (alike_storeHost hc h fuel field _)
    · refine Sees.andThen h (sees_loadTop h) fun carry _ _ _ h hcarry ↦ ?_
      cases target with
      | null => exact hpop (Sees.never h (sees_nullReference h))
      | block d =>
        refine Sees.andThen h (.of_read h (h.stack.fieldAddr htarget _)) fun addr _ _ _ h haddr ↦ ?_
        exact hpop (alike_storeInto h fuel (h.stack.mem_fieldAddr htarget haddr) hcarry)
      | object id =>
        exact Sees.andThen h (sees_carryValue h fuel hcarry _) fun v _ _ _ h _ ↦
          hpop (Sees.gives h (.domain h (Domain.grows_setField id _ v))).alike

/-! ### Calls -/

theorem alike_invokeAt (hc : c.Twins) (hg : g.Shields) (h : Running.Twin g K r r') (fuel : Nat)
    (id : MethodId) {m : Method} {argBase : Nat}
    (hargs : m.native?.isSome = true → ∀ i < m.argCount, argBase + i ∈ K) :
    Alike (Running.Twin g) K (invokeAt c fuel id m argBase) r r' := by
  unfold invokeAt
  split
  · next hnative => exact alike_callHost hc hg h fuel (hargs hnative)
  · refine (hc.run hg h id argBase).bind fun _ result _ _ _ _ h hresult ↦ ?_
    cases result with
    | some carry => exact alike_pushCarry h fuel (hresult carry rfl) _
    | none => exact .pure h trivial

/-- A static method is called after its type has been initialized. -/
theorem alike_initializing (hc : c.Twins) (hg : g.Shields) (h : Running.Twin g K r r')
    (fuel : Nat) (m : Method) {x : RunM α}
    (hx : ∀ K' t t', K ⊆ K' → Running.Twin g K' t t' → Alike (Running.Twin g) K' x t t') :
    Alike (Running.Twin g) K (do
      if !m.flags.hasThis then ensureInitialized c fuel m.declaring
      x) r r' := by
  split
  · exact (alike_ensureInitialized hc hg h fuel _).seq fun K' t t' _ hK h _ ↦ hx K' t t' hK h
  · exact hx K r r' subset_rfl h

/-- A call that is dispatched or not, of a method with a body or of the host. -/
theorem alike_callMethod (hc : c.Twins) (hg : g.Shields) (h : Running.Twin g K r r') (fuel : Nat)
    {id : MethodId} {argBase : Nat}
    (hargs : ∀ i < (r.domain.registry.method id).argCount, argBase + i ∈ K) (virtual_ : Bool) :
    Alike (Running.Twin g) K (callMethod c fuel id argBase virtual_) r r' := by
  have hrest {K : Set Nat} {r r' : Running} (h : Running.Twin g K r r') (target : MethodId)
      (hargs : ∀ i < (r.domain.registry.method target).argCount, argBase + i ∈ K) :
      Alike (Running.Twin g) K (do
        let m ← method target
        if !m.flags.hasThis then ensureInitialized c fuel m.declaring
        invokeAt c fuel target m argBase) r r' := by
    refine Sees.andThen h (.method h target) fun m _ _ _ h hm ↦ ?_
    subst hm
    exact alike_initializing hc hg h fuel _ fun K' _ _ hK h ↦
      alike_invokeAt hc hg h fuel target fun _ i hi ↦ hK (hargs i hi)
  unfold callMethod
  refine Sees.andThen h (.method h id) fun m d hrun hd h hm ↦ ?_
  subst hm
  obtain rfl : r.domain = d := congrArg Running.domain (EStateM.Result.ok.inj hrun).2
  split
  · next hvirtual =>
    have hthis : (r.domain.registry.method id).flags.hasThis = true := by
      rw [Bool.and_eq_true] at hvirtual
      exact hvirtual.1
    have hreceiver : argBase ∈ K := hargs 0 (by simp [Method.argCount, hthis])
    refine Sees.andThen h (.of_read h (h.stack.slotAt hreceiver)) fun s d₁ _ hd₁ h hs ↦ ?_
    have hleads := h.stack.leads_slotAt hreceiver hs
    refine Sees.andThen h (sees_receiverType fuel h hleads) fun found d₂ _ hd₂ h _ ↦ ?_
    cases found with
    | none =>
      exact Sees.stops h (sees_nullReference h)
    | some t =>
      have hgrows := Registry.grows_findOverride (R := Registry.Extends) fuel t id
      refine Sees.andThen h (.registry h hgrows) fun target _ hrun _ h _ ↦ hrest h target ?_
      obtain ⟨registry, hfound, hend⟩ := inRegistry_ok hrun
      have hreached := Registry.findOverride_argCount hthis
        ((hd.trans hd₁).trans hd₂).registry hfound
      rw [hend]
      exact fun i hi ↦ hargs i (hi.trans_le hreached)
  · exact hrest h id hargs

end Engine

end ManagedMachine
