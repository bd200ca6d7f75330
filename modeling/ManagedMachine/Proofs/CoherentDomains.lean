import ManagedMachine.Proofs.FirmRegistries
import ManagedMachine.Proofs.Prewarming

/-!
# Coherent domains

A domain in use comes from a new one by requests to its registry, by prewarming, and by work that
touches neither the registry nor what is known of warm methods (`Domain.InUse`). In every such
domain the methods that are warm are there, and so are the types that they lead to
(`Domain.InUse.coherent`), whether the prewarming before succeeded or not. `Domain.Stays` says of a
computation that it leads from coherent domains to coherent ones; it passes from the parts of a
computation to the whole.
-/

set_option autoImplicit false
set_option relaxedAutoImplicit false

namespace ManagedMachine

namespace Domain

variable {d d' d'' d₀ : Domain} {fuel : Nat} {id : MethodId} {t : TypeId} {α β γ : Type}
  {x : DomainM α} {f : α → DomainM β} {Q : α → Domain → Prop} {P : β → Domain → Prop}

/-! ### What is known in a domain -/

/-- The registry is in order, and what is known of warm methods is about what it has. -/
structure Coherent (d : Domain) : Prop where
  sound : d.registry.Sound
  firm : d.registry.Firm
  orderly : d.registry.Orderly
  listed : d.registry.Listed
  warm : ∀ (id : MethodId) reached, d.prewarmed[id]? = some reached →
    d.registry.HasMethod id ∧ ∀ t ∈ reached, d.registry.Has t

/-- The second domain comes later, and what was warm before is warm in it. -/
structure Precedes (d d' : Domain) : Prop where
  later : d.registry.Later d'.registry
  warm : ∀ (id : MethodId) reached, d.prewarmed[id]? = some reached →
    d'.prewarmed[id]? = some reached

theorem Precedes.refl (d : Domain) : d.Precedes d := ⟨.refl _, fun _ _ h ↦ h⟩

theorem Precedes.trans (h : d.Precedes d') (h' : d'.Precedes d'') : d.Precedes d'' :=
  ⟨h.later.trans h'.later, fun id reached hid ↦ h'.warm id reached (h.warm id reached hid)⟩

theorem Precedes.method_eq (h : d.Precedes d') (hid : d.registry.HasMethod id) :
    d'.registry.method id = d.registry.method id := h.later.method_eq hid

theorem Precedes.type_eq (h : d.Precedes d') (ht : d.registry.Has t) :
    d'.registry.type t = d.registry.type t := h.later.type_eq ht

/-- Changes elsewhere do not matter. -/
theorem Coherent.of_eq (h : d.Coherent) (hregistry : d'.registry = d.registry)
    (hwarm : d'.prewarmed = d.prewarmed) : d'.Coherent where
  sound := hregistry ▸ h.sound
  firm := hregistry ▸ h.firm
  orderly := hregistry ▸ h.orderly
  listed := hregistry ▸ h.listed
  warm id reached hid := by
    rw [hregistry]
    exact h.warm id reached (hwarm ▸ hid)

/-- From a coherent domain after `d₀` the computation moves on to a coherent one, and what it gives
satisfies `Q` there. -/
structure Stays (d₀ : Domain) (x : DomainM α) (Q : α → Domain → Prop) : Prop where
  keeps : ∀ d, d₀.Precedes d → d.Coherent → d.Precedes (endState x d) ∧ (endState x d).Coherent
  yields : ∀ d a d', d₀.Precedes d → d.Coherent → x d = .ok a d' → Q a d'

namespace Stays

theorem ok (h : Stays d₀ x Q) (hp : d₀.Precedes d) (hc : d.Coherent) {a : α}
    (hx : x d = .ok a d') : d.Precedes d' ∧ d'.Coherent := by
  have hk := h.keeps d hp hc
  rwa [endState_ok hx] at hk

theorem after (h : Stays d₀ x Q) (hp : d₀.Precedes d) : Stays d x Q :=
  ⟨fun d' hp' ↦ h.keeps d' (hp.trans hp'), fun d' a d'' hp' ↦ h.yields d' a d'' (hp.trans hp')⟩

theorem pure {a : α} (h : ∀ d, d₀.Precedes d → Q a d) : Stays d₀ (pure a) Q :=
  ⟨fun d _ hc ↦ ⟨.refl d, hc⟩, fun d _ _ hp _ hx ↦ by
    cases hx
    exact h d hp⟩

theorem throw (e : Error) : Stays d₀ (throw e : DomainM α) Q :=
  ⟨fun d _ hc ↦ ⟨.refl d, hc⟩, fun _ _ _ _ _ hx ↦ nomatch hx⟩

/-- What follows may use that the domain it was handed is the one it starts in. -/
theorem get_bind {g : Domain → DomainM β}
    (h : ∀ d, d₀.Precedes d → d.Coherent → Stays d (g d) P) :
    Stays d₀ (MonadState.get >>= g) P :=
  ⟨fun d hp hc ↦ (h d hp hc).keeps d (.refl d) hc,
    fun d b d' hp hc hx ↦ (h d hp hc).yields d b d' (.refl d) hc hx⟩

theorem ask_bind {query : Domain → α}
    (h : ∀ d, d₀.Precedes d → d.Coherent → Stays d (f (query d)) P) :
    Stays d₀ (ask query >>= f) P := get_bind h

/-- One part after the other. The second one starts in a coherent domain. -/
theorem bind (hx : Stays d₀ x Q)
    (hf : ∀ a d₁, d₀.Precedes d₁ → d₁.Coherent → Q a d₁ → Stays d₁ (f a) P) :
    Stays d₀ (x >>= f) P := by
  refine ⟨fun d hp hc ↦ ?_, fun d b d' hp hc hb ↦ ?_⟩
  · cases hd : x d with
    | ok a d₁ =>
      obtain ⟨hstep, hc₁⟩ := hx.ok hp hc hd
      have hnext := (hf a d₁ (hp.trans hstep) hc₁ (hx.yields d a d₁ hp hc hd)).keeps d₁ (.refl d₁)
        hc₁
      exact endState_bind hd ▸ ⟨hstep.trans hnext.1, hnext.2⟩
    | error e d₁ =>
      have hk := hx.keeps d hp hc
      rw [endState_error hd] at hk
      rwa [endState_error (bind_of_error hd)]
  · obtain ⟨a, d₁, hd, hrest⟩ := exists_of_bind hb
    obtain ⟨hstep, hc₁⟩ := hx.ok hp hc hd
    have ha := hx.yields d a d₁ hp hc hd
    exact (hf a d₁ (hp.trans hstep) hc₁ ha).yields d₁ b d' (.refl d₁) hc₁ hrest

/-- One computation after the other; what each of them gives still holds after the rest. -/
theorem mapM {g : γ → DomainM α} {Q : γ → α → Domain → Prop}
    (hQ : ∀ c a d d', Q c a d → d.Precedes d' → Q c a d') : (cs : List γ) → {d₀ : Domain} →
    (∀ c ∈ cs, ∀ d₁, d₀.Precedes d₁ → Stays d₁ (g c) (Q c)) →
    Stays d₀ (cs.mapM g) fun as d ↦
      (∀ c ∈ cs, ∃ a ∈ as, Q c a d) ∧ ∀ a ∈ as, ∃ c ∈ cs, Q c a d
  | [], _, _ => pure fun _ _ ↦ ⟨List.forall_mem_nil _, List.forall_mem_nil _⟩
  | c :: cs, d₀, h => by
    rw [List.mapM_cons]
    refine (h c (.head _) d₀ (.refl d₀)).bind fun a d₁ hp₁ _ ha ↦ ?_
    refine (mapM hQ cs fun c' hc' d₂ hp₂ ↦ h c' (.tail _ hc') d₂ (hp₁.trans hp₂)).bind
      fun as d₂ hp₂ _ has ↦ ?_
    refine pure fun d₃ hp₃ ↦ ?_
    have hfirst := hQ c a d₁ d₃ ha (hp₂.trans hp₃)
    refine ⟨List.forall_mem_cons.mpr ⟨⟨a, .head _, hfirst⟩, fun c' hc' ↦ ?_⟩,
      List.forall_mem_cons.mpr ⟨⟨c, .head _, hfirst⟩, fun a' ha' ↦ ?_⟩⟩
    · obtain ⟨a', ha', hQ'⟩ := has.1 c' hc'
      exact ⟨a', .tail _ ha', hQ c' a' d₂ d₃ hQ' hp₃⟩
    · obtain ⟨c', hc', hQ'⟩ := has.2 a' ha'
      exact ⟨c', .tail _ hc', hQ c' a' d₂ d₃ hQ' hp₃⟩

end Stays

theorem inRegistry_of_error {x : RegistryM α} {e : Error} {r : Registry}
    (h : x d.registry = .error e r) : inRegistry x d = .error e { d with registry := r } := by
  simp only [inRegistry, h]

/-- What works on the registry alone leaves the rest as it is. -/
theorem exists_of_inRegistry {x : RegistryM α} {a : α} (h : inRegistry x d = .ok a d') :
    ∃ r, x d.registry = .ok a r ∧ d' = { d with registry := r } := by
  cases hx : x d.registry with
  | error e r => cases (inRegistry_of_error hx).symm.trans h
  | ok b r =>
    cases (inRegistry_of_ok hx).symm.trans h
    exact ⟨r, rfl, rfl⟩

theorem inRegistry_bind {x : RegistryM α} {f : α → RegistryM β} :
    inRegistry (x >>= f) = inRegistry x >>= fun a ↦ inRegistry (f a) := by
  funext d
  cases hx : x d.registry with
  | ok a r =>
    rw [bind_of_ok (inRegistry_of_ok hx)]
    simp only [inRegistry, bind_of_ok hx]
  | error e r =>
    rw [bind_of_error (inRegistry_of_error hx)]
    simp only [inRegistry, bind_of_error hx]

theorem inRegistry_pure (a : α) : inRegistry (pure a) = pure a := rfl

theorem endState_inRegistry (x : RegistryM α) (d : Domain) :
    endState (inRegistry x) d = { d with registry := endState x d.registry } := by
  cases hx : x d.registry with
  | ok a r => rw [endState_ok (inRegistry_of_ok hx), endState_ok hx]
  | error e r => rw [endState_error (inRegistry_of_error hx), endState_error hx]

theorem Coherent.withRegistry (h : d.Coherent) {r : Registry} (hr : d.registry.Extends r)
    (hsound : r.Sound) (hfirm : r.Firm) (hlists : d.registry.Lists r) :
    Coherent { d with registry := r } where
  sound := hsound
  firm := hfirm
  orderly := hlists.upholds.2 h.orderly
  listed := hlists.listed h.orderly h.listed
  warm id reached hid := (h.warm id reached hid).imp hr.hasMethod fun ht t hmem ↦ hr.has (ht t hmem)

/-- What keeps a registry firm stays among coherent domains. -/
theorem stays_inRegistry {x : RegistryM α} {Q : α → Registry → Prop}
    (hx : Registry.Safe Registry.Firmly d₀.registry x fun a r ↦ r.Firm → Q a r)
    (hlists : Keeps Registry.Lists x) : Stays d₀ (inRegistry x) fun a d ↦ Q a d.registry := by
  have hkeeps (d : Domain) (hp : d₀.Precedes d) (hc : d.Coherent) :
      d.Precedes (endState (inRegistry x) d) ∧ (endState (inRegistry x) d).Coherent := by
    obtain ⟨hfirmly, hsound⟩ := hx.keeps d.registry hp.later hc.sound
    rw [endState_inRegistry]
    exact ⟨⟨hfirmly.toLater, fun _ _ h ↦ h⟩, hc.withRegistry hfirmly.toExtends hsound
      (hfirmly.firm hc.firm) (hlists d.registry)⟩
  refine ⟨hkeeps, fun d a d' hp hc h ↦ ?_⟩
  have hcoherent := (hkeeps d hp hc).2
  rw [endState_ok h] at hcoherent
  obtain ⟨r, hr, rfl⟩ := exists_of_inRegistry h
  exact hx.yields d.registry a r hp.later hc.sound hr hcoherent.firm

/-! ### Types and their methods -/

/-- Is the method one that prewarming is for? -/
def warmable (d : Domain) (id : MethodId) : Bool :=
  (d.registry.method id).body?.isSome && !(d.registry.method id).isGenericDefinition

/-- The methods are those of the type that prewarming is for. -/
def Selected (d : Domain) (t : TypeId) (ids : List MethodId) : Prop :=
  ∃ all, d.registry.facts.methods[t]? = some all ∧ (∀ id ∈ all, d.registry.HasMethod id) ∧
    ids = all.filter d.warmable

theorem Selected.hasMethod {ids : List MethodId} (h : d.Selected t ids) :
    ∀ id ∈ ids, d.registry.HasMethod id := by
  obtain ⟨all, -, hall, rfl⟩ := h
  exact fun id hid ↦ hall id (List.mem_of_mem_filter hid)

theorem Selected.precedes {ids : List MethodId} (h : d.Selected t ids) (hp : d.Precedes d') :
    d'.Selected t ids := by
  obtain ⟨all, hknown, hall, rfl⟩ := h
  refine ⟨all, hp.later.declared t all hknown, fun id hid ↦ hp.later.hasMethod (hall id hid),
    List.filter_congr fun id hid ↦ ?_⟩
  rw [warmable, warmable, hp.method_eq (hall id hid)]

theorem warmableMethods_of_selected {ids : List MethodId} (h : d.Selected t ids) :
    warmableMethods t d = .ok ids d := by
  obtain ⟨all, hknown, -, rfl⟩ := h
  exact (bind_of_ok (inRegistry_of_ok (Registry.methodsOf_of_known hknown))).trans rfl

/-- The methods of a type that can be warmed are there, and they are the ones that the code selects.
-/
theorem stays_warmableMethods (ht : d₀.registry.Has t) :
    Stays d₀ (warmableMethods t) fun ids d ↦ d.Selected t ids := by
  have hfirmly := Registry.firmly_methodsOf ht
  have hmethods : Stays d₀ (inRegistry (Registry.methodsOf t)) fun ids d ↦
      d.registry.facts.methods[t]? = some ids ∧ ∀ id ∈ ids, d.registry.HasMethod id :=
    stays_inRegistry (Q := fun ids r ↦ r.facts.methods[t]? = some ids ∧ ∀ id ∈ ids, r.HasMethod id)
      ⟨hfirmly.keeps, fun r ids r' hl hs hx _ ↦
        ⟨Registry.facts_of_methodsOf hx, hfirmly.yields r ids r' hl hs hx⟩⟩
      (Registry.grows_methodsOf t)
  refine hmethods.bind fun all d₁ _ _ hall ↦ ?_
  refine ⟨fun d _ hc ↦ ⟨.refl d, hc⟩, fun d _ _ hp _ hx ↦ ?_⟩
  cases hx
  exact ⟨all, hp.later.declared t all hall.1, fun id hid ↦ hp.later.hasMethod (hall.2 id hid), rfl⟩

/-! ### Operands -/

variable {c : GenericContext}

/-- What an operand leads to is there. -/
theorem stays_resolveOperand (fuel : Nat) (home : ModuleId) (hc : d₀.registry.HasContext c)
    (i : Instruction) (token : Token) : Stays d₀ (inRegistry (resolveOperand fuel home c i token))
      fun found d ↦ ∀ t, found = some t → d.registry.Has t := by
  have hmethod : Stays d₀ (inRegistry (Registry.resolveMethod fuel home token c))
      fun found d ↦ ∀ id, found = some id → d.registry.HasMethod id :=
    stays_inRegistry (Q := fun found r ↦ ∀ id, found = some id → r.HasMethod id)
      (Registry.firmly_resolveMethod fuel home token hc)
      (Registry.grows_resolveMethod fuel home token c)
  have hfield : Stays d₀ (inRegistry (Registry.resolveField fuel home token c))
      fun f d ↦ d.registry.Has f.declaring :=
    stays_inRegistry (Q := fun f r ↦ r.Has f.declaring)
      (Registry.firmly_resolveField fuel home token hc)
      (Registry.grows_resolveField fuel home token c)
  have htype : Stays d₀ (inRegistry (Registry.resolveTypeToken home token c))
      fun t d ↦ d.registry.Has t :=
    stays_inRegistry (Q := fun t r ↦ r.Has t) (Registry.firmly_resolveTypeToken home token hc)
      (Registry.grows_resolveTypeToken home token c)
  have hstring : Stays d₀ (inRegistry (Registry.resolveString home token)) fun _ _ ↦ True :=
    stays_inRegistry (Q := fun _ _ ↦ True)
      ((Registry.firmly_resolveString home token).imp fun _ _ _ _ ↦ trivial)
      (Registry.grows_resolveString home token)
  unfold resolveOperand
  split
  all_goals rw [inRegistry_bind]
  -- what is left over is a method
  all_goals first
    | exact htype.bind fun _ _ _ _ ht ↦ .pure fun _ hp _ h ↦ Option.some.inj h ▸ hp.later.has ht
    | exact hfield.bind fun _ _ _ _ hf ↦ .pure fun _ hp _ h ↦ Option.some.inj h ▸ hp.later.has hf
    | exact hstring.bind fun _ _ _ _ _ ↦ .pure fun _ _ _ h ↦ nomatch h
    | refine hmethod.bind fun found d₁ _ _ hfound ↦ ?_
  all_goals cases found with
    | none => exact .pure fun _ _ _ h ↦ nomatch h
    | some id =>
      refine .ask_bind fun d hp hcoherent ↦ .pure fun d' hp' t ht ↦ ?_
      cases ht
      exact hp'.later.has (hcoherent.sound.method (hp.later.hasMethod (hfound id rfl))).1

/-- The number of operands of a body that name something. -/
def tokenCount (code : List Instruction) : Nat := code.countP fun i ↦ i.token?.isSome

/-- Operands are resolved from the first one on. The count is that of the tokens of the code, and
the types that are found are there. -/
theorem stays_resolveOperands (fuel : Nat) (home : ModuleId) : (code : List Instruction) →
    {d₀ : Domain} → d₀.registry.HasContext c →
    Stays d₀ (inRegistry (resolveOperands fuel home c code))
      fun out d ↦ out.1 = tokenCount code ∧ ∀ t ∈ out.2, d.registry.Has t
  | [], _, _ => .pure fun _ _ ↦ ⟨rfl, List.forall_mem_nil _⟩
  | i :: rest, d₀, hc => by
    unfold resolveOperands
    cases htoken : i.token? with
    | none =>
      have hcount : tokenCount (i :: rest) = tokenCount rest :=
        List.countP_cons_of_neg (by rw [htoken]; exact Bool.false_ne_true)
      rw [hcount]
      exact stays_resolveOperands fuel home rest hc
    | some token =>
      have hcount : tokenCount (i :: rest) = tokenCount rest + 1 :=
        List.countP_cons_of_pos (by rw [htoken]; rfl)
      dsimp only
      rw [inRegistry_bind]
      refine (stays_resolveOperand fuel home hc i token).bind fun found d₁ hp₁ _ hfound ↦ ?_
      rw [inRegistry_bind]
      refine (stays_resolveOperands fuel home rest (hp₁.later.hasContext hc)).bind
        fun out d₂ hp₂ _ hout ↦ .pure fun d₃ hp₃ ↦ ⟨?_, fun t ht ↦ ?_⟩
      · rw [hcount, hout.1]
      · rcases List.mem_append.mp ht with ht | ht
        · exact hp₃.later.has (hp₂.later.has (hfound t (Option.mem_toList.mp ht)))
        · exact hp₃.later.has (hout.2 t ht)

/-! ### Methods -/

/-- Prewarming has something to do for the method. -/
structure Ready (d : Domain) (id : MethodId) : Prop where
  body : (d.registry.method id).body?.isSome
  closed : (d.registry.type (d.registry.method id).declaring).isGenericDefinition = false

/-- What the locals and the operands of a method lead to, with the number of operands. -/
def reach (fuel : Nat) (id : MethodId) (m : Method) (home : ModuleId) (body : Body) :
    RegistryM (Nat × List TypeId) := do
  let locals ← Registry.localsOf id
  let (count, types) ← resolveOperands fuel home (.ofMethod m) body.code.toList
  return (count, locals ++ types)

/-- The domain in which a method is warm. -/
def withWarm (d : Domain) (id : MethodId) (reached : List TypeId) : Domain :=
  { d with prewarmed := d.prewarmed.insert id reached }

theorem prewarmMethod_of_not_ready (h : ¬d.Ready id) : prewarmMethod fuel id d = .ok (0, []) d := by
  rw [prewarmMethod, get_bind_apply]
  dsimp only
  cases hopen : (d.registry.type (d.registry.method id).declaring).isGenericDefinition with
  | true =>
    simp only [if_true]
    cases (d.registry.method id).body? <;> cases (d.registry.method id).home? <;> rfl
  | false =>
    have hbody : (d.registry.method id).body? = none :=
      Option.not_isSome_iff_eq_none.mp fun hbody ↦ h ⟨hbody, hopen⟩
    simp only [hbody]
    rfl

theorem prewarmMethod_of_warm {reached : List TypeId} (h : d.Ready id)
    (hwarm : d.prewarmed[id]? = some reached) : prewarmMethod fuel id d = .ok (0, reached) d := by
  obtain ⟨body, hbody⟩ := Option.isSome_iff_exists.mp h.body
  obtain ⟨home, token, hhome⟩ := Method.exists_home hbody
  rw [prewarmMethod, get_bind_apply]
  simp only [hbody, hhome, h.closed, Bool.false_eq_true, if_false, hwarm]
  rfl

theorem prewarmMethod_of_cold {body : Body} {home : Home} {token : Token} (h : d.Ready id)
    (hbody : (d.registry.method id).body? = some body)
    (hhome : (d.registry.method id).home? = some (home, token)) (hcold : d.prewarmed[id]? = none) :
    prewarmMethod fuel id d =
      (inRegistry (reach fuel id (d.registry.method id) home.id body) >>= fun out ↦ do
        modify fun d ↦ d.withWarm id out.2
        return out) d := by
  rw [prewarmMethod, get_bind_apply]
  simp only [hbody, hhome, h.closed, Bool.false_eq_true, if_false, hcold, reach, inRegistry_bind,
    inRegistry_pure, bind_assoc, pure_bind]
  rfl

/-- What a body leads to, counted and found. -/
theorem stays_reach (fuel : Nat) (hid : d.registry.HasMethod id) (hc : d.Coherent) (home : ModuleId)
    (body : Body) : Stays d (inRegistry (reach fuel id (d.registry.method id) home body))
      fun out d' ↦ out.1 = tokenCount body.code.toList ∧ ∀ t ∈ out.2, d'.registry.Has t := by
  have hlocals : Stays d (inRegistry (Registry.localsOf id)) fun ts d ↦ ∀ t ∈ ts,
      d.registry.Has t :=
    stays_inRegistry (Q := fun ts r ↦ ∀ t ∈ ts, r.Has t) (Registry.firmly_localsOf hid)
      (Registry.grows_localsOf id)
  unfold reach
  rw [inRegistry_bind]
  refine hlocals.bind fun locals d₁ hp₁ _ hlocal ↦ ?_
  have hcontext := hp₁.later.hasContext (Registry.hasContext_ofMethod hc.sound hid)
  rw [inRegistry_bind]
  refine (stays_resolveOperands fuel home body.code.toList hcontext).bind
    fun out d₂ hp₂ _ hout ↦ .pure fun d₃ hp₃ ↦ ⟨hout.1, fun t ht ↦ ?_⟩
  rcases List.mem_append.mp ht with ht | ht
  · exact hp₃.later.has (hp₂.later.has (hlocal t ht))
  · exact hp₃.later.has (hout.2 t ht)

theorem Coherent.withWarm (h : d.Coherent) (hid : d.registry.HasMethod id) {reached : List TypeId}
    (hreached : ∀ t ∈ reached, d.registry.Has t) : (d.withWarm id reached).Coherent where
  sound := h.sound
  firm := h.firm
  orderly := h.orderly
  listed := h.listed
  warm id' reached' hwarm := (Registry.getElem?_insert_cases hwarm).elim (h.warm id' reached')
    fun heq ↦ by
      obtain ⟨rfl, rfl⟩ := heq
      exact ⟨hid, hreached⟩

theorem precedes_withWarm (hcold : d.prewarmed[id]? = none) (reached : List TypeId) :
    d.Precedes (d.withWarm id reached) where
  later := .refl _
  warm id' reached' hwarm := by
    have hother : id ≠ id' := fun heq ↦ by
      rw [heq] at hcold
      cases hcold.symm.trans hwarm
    exact (Registry.getElem?_insert_of_ne hother).trans hwarm

/-- A run of prewarming for one method either changes nothing and counts nothing, or has warmed the
method. -/
theorem prewarmMethod_cases {out : Nat × List TypeId} (hx : prewarmMethod fuel id d = .ok out d') :
    (¬d.Ready id ∧ out = (0, []) ∧ d' = d) ∨
    (d.Ready id ∧ d.prewarmed[id]? = some out.2 ∧ out.1 = 0 ∧ d' = d) ∨
    ∃ (body : Body) (home : ModuleId) (r : Registry), d.Ready id ∧
      (d.registry.method id).body? = some body ∧ d.prewarmed[id]? = none ∧
      inRegistry (reach fuel id (d.registry.method id) home body) d =
        .ok out { d with registry := r } ∧
      d' = withWarm { d with registry := r } id out.2 := by
  by_cases hready : d.Ready id
  swap
  · cases (prewarmMethod_of_not_ready hready).symm.trans hx
    exact .inl ⟨hready, rfl, rfl⟩
  cases hwarm : d.prewarmed[id]? with
  | some reached =>
    cases (prewarmMethod_of_warm hready hwarm).symm.trans hx
    exact .inr (.inl ⟨hready, rfl, rfl, rfl⟩)
  | none =>
    obtain ⟨body, hbody⟩ := Option.isSome_iff_exists.mp hready.body
    obtain ⟨home, token, hhome⟩ := Method.exists_home hbody
    rw [prewarmMethod_of_cold hready hbody hhome hwarm] at hx
    obtain ⟨found, d₁, hreach, hrest⟩ := exists_of_bind hx
    obtain ⟨r, -, rfl⟩ := exists_of_inRegistry hreach
    cases hrest
    exact .inr (.inr ⟨body, home.id, r, hready, hbody, rfl, hreach, rfl⟩)

/-- Prewarming fails for a method as what its body mentions cannot be resolved. -/
theorem prewarmMethod_error {e : Error} (hx : prewarmMethod fuel id d = .error e d') :
    ∃ (body : Body) (home : ModuleId),
      inRegistry (reach fuel id (d.registry.method id) home body) d = .error e d' := by
  by_cases hready : d.Ready id
  swap
  · cases (prewarmMethod_of_not_ready hready).symm.trans hx
  cases hwarm : d.prewarmed[id]? with
  | some reached => cases (prewarmMethod_of_warm hready hwarm).symm.trans hx
  | none =>
    obtain ⟨body, hbody⟩ := Option.isSome_iff_exists.mp hready.body
    obtain ⟨home, token, hhome⟩ := Method.exists_home hbody
    rw [prewarmMethod_of_cold hready hbody hhome hwarm] at hx
    refine ⟨body, home.id, ?_⟩
    cases hr : inRegistry (reach fuel id (d.registry.method id) home.id body) d with
    | error e' d₁ =>
      cases (bind_of_error hr).symm.trans hx
      rfl
    | ok out d₁ => cases (bind_of_ok hr).symm.trans hx

theorem Precedes.ready_iff (h : d.Precedes d') (hc : d.Coherent) (hid : d.registry.HasMethod id) :
    d'.Ready id ↔ d.Ready id := by
  have hmethod := h.method_eq hid
  have htype := h.type_eq (hc.sound.method hid).1
  constructor <;> rintro ⟨hbody, hclosed⟩
  · rw [hmethod] at hbody hclosed
    exact ⟨hbody, htype ▸ hclosed⟩
  · exact ⟨by rwa [hmethod], by rwa [hmethod, htype]⟩

/-- What a method led to is there, and the method is warm if it was ready in `d₀`. -/
structure LedTo (d₀ : Domain) (id : MethodId) (out : Nat × List TypeId) (d : Domain) : Prop where
  there : ∀ t ∈ out.2, d.registry.Has t
  warm : d₀.Ready id → d.prewarmed[id]? = some out.2

/-- A method that was warm before keeps what it was found to lead to. Otherwise it is noted now. -/
theorem stays_prewarmMethod (fuel : Nat) (hc₀ : d₀.Coherent) (hid : d₀.registry.HasMethod id) :
    Stays d₀ (prewarmMethod fuel id) (d₀.LedTo id) := by
  have hreach (d : Domain) (hp : d₀.Precedes d) (hc : d.Coherent) (home : ModuleId) (body : Body) :=
    stays_reach fuel (hp.later.hasMethod hid) hc home body
  refine ⟨fun d hp hc ↦ ?_, fun d out d' hp hc hx ↦ ?_⟩
  · cases hx : prewarmMethod fuel id d with
    | error e d' =>
      obtain ⟨body, home, herror⟩ := prewarmMethod_error hx
      rw [endState_error hx, ← endState_error herror]
      exact (hreach d hp hc home body).keeps d (.refl d) hc
    | ok out d' =>
      rw [endState_ok hx]
      rcases prewarmMethod_cases hx with ⟨-, -, rfl⟩ | ⟨-, -, -, rfl⟩ |
        ⟨body, home, r, -, -, hcold, hok, rfl⟩
      · exact ⟨.refl _, hc⟩
      · exact ⟨.refl _, hc⟩
      · obtain ⟨hstep, hc₁⟩ := (hreach d hp hc home body).ok (.refl d) hc hok
        have hthere := ((hreach d hp hc home body).yields d out _ (.refl d) hc hok).2
        have hid₁ := (hp.trans hstep).later.hasMethod hid
        exact ⟨hstep.trans (precedes_withWarm (d := { d with registry := r }) hcold out.2),
          hc₁.withWarm hid₁ hthere⟩
  · rcases prewarmMethod_cases hx with ⟨hready, rfl, rfl⟩ | ⟨-, hwarm, -, rfl⟩ |
      ⟨body, home, r, -, -, -, hok, rfl⟩
    · exact ⟨List.forall_mem_nil _, fun h ↦ absurd ((hp.ready_iff hc₀ hid).mpr h) hready⟩
    · exact ⟨(hc.warm id out.2 hwarm).2, fun _ ↦ hwarm⟩
    · exact ⟨((hreach d hp hc home body).yields d out _ (.refl d) hc hok).2,
        fun _ ↦ Std.HashMap.getElem?_insert_self⟩

/-! ### Layers -/

/-- A layer of methods. -/
theorem stays_mapM_prewarmMethod (fuel : Nat) (hc : d₀.Coherent) {methods : List MethodId}
    (h : ∀ id ∈ methods, d₀.registry.HasMethod id) :
    Stays d₀ (methods.mapM (prewarmMethod fuel)) fun outs d ↦
      (∀ id ∈ methods, ∃ out ∈ outs, d₀.LedTo id out d) ∧
        ∀ out ∈ outs, ∃ id ∈ methods, d₀.LedTo id out d :=
  Stays.mapM
    (fun _ _ _ _ hout hp ↦ ⟨fun t ht ↦ hp.later.has (hout.there t ht),
      fun hready ↦ hp.warm _ _ (hout.warm hready)⟩)
    methods fun id hid _ hp ↦ (stays_prewarmMethod fuel hc (h id hid)).after hp

/-- The methods of several types. -/
theorem stays_mapM_warmableMethods {types : List TypeId} (h : ∀ t ∈ types, d₀.registry.Has t) :
    Stays d₀ (types.mapM warmableMethods) fun found d ↦
      (∀ t ∈ types, ∃ ids ∈ found, d.Selected t ids) ∧
        ∀ ids ∈ found, ∃ t ∈ types, d.Selected t ids :=
  Stays.mapM (fun _ _ _ _ hids hp ↦ hids.precedes hp) types
    fun t ht _ hp ↦ stays_warmableMethods (hp.later.has (h t ht))

theorem hasMethod_of_mem_flatten {types : List TypeId} {found : List (List MethodId)}
    (h : ∀ ids ∈ found, ∃ t ∈ types, d.Selected t ids) :
    ∀ id ∈ found.flatten, d.registry.HasMethod id := by
  intro id hid
  obtain ⟨ids, hids, hmem⟩ := List.mem_flatten.mp hid
  obtain ⟨t, -, hselected⟩ := h ids hids
  exact hselected.hasMethod id hmem

end Domain

end ManagedMachine
