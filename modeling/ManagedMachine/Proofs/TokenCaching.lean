import ManagedMachine.Proofs.SettledMethods

/-!
What is remembered under a method token. The answer for a token is kept if it claims not to depend
on the generic context, and from then on it is given in every context. `resolution_ignores_tokens`
says that this does not show: after any resolutions, in any contexts, a token is resolved as it
would be anew. Two things are asked of the references that are resolved (`Registry.Clear`), because
the claim is raised without regard to them: the context must not turn a constructor that takes
nothing into the idle one of the base of all types, and must not bind a parameter that a candidate
leaves open.
-/

set_option autoImplicit false
set_option relaxedAutoImplicit false

namespace ManagedMachine

namespace Registry

variable {r r' r₀ z : Registry} {home : ModuleId} {c d : GenericContext}

/-- The reference at which the search for the method of a token begins. -/
inductive Leads (m : Module) : Token → MethodRef → Prop
  | member {token : Token} {ref : MethodRef} : token.table? = some .memberRef →
    m.memberRef token = .ok (.method ref) → Leads m token ref
  | spec {token : Token} {spec : MethodSpec} {ref : MethodRef} :
    token.table? = some .methodSpec → m.methodSpec token = .ok spec → Leads m spec.method ref →
    Leads m token ref

/-- The context has no say in what the reference means beyond the type whose member it names: it
does not turn a constructor that takes nothing into one that has nothing to do, and binds no
parameter that a candidate leaves open. -/
structure Clear (r : Registry) (home : ModuleId) (ref : MethodRef) (c : GenericContext) : Prop where
  chosen : ∀ t r', ref.isConstructor = true → ref.params = [] →
    resolveSignature home c ref.on r = .ok (.dependent t) r' →
    r'.typeName t ≠ CoreLibrary.objectName ∧ r'.typeName t ≠ CoreLibrary.attributeName
  secluded : ∀ found t r', resolveSignature home c ref.on r = .ok found r' →
    found.type? = some t → r.Secluded ref c t

/-- A reference that no parameter stands in by itself, and that is not to a constructor which takes
nothing, is clear in every context. -/
theorem clear_of_closed {ref : MethodRef} (htakes : ref.isConstructor = true → ref.params ≠ [])
    (hclosed : ∀ s ∈ ref.ret :: ref.params, s.root? = none) : r.Clear home ref c where
  chosen _ _ hctor hparams := (htakes hctor hparams).elim
  secluded _ _ _ _ _ _ _ _ _ _ _ _ s hs name hroot := by
    cases (hclosed s hs).symm.trans hroot

/-- A type of the host that stands for an adaptor is in the registry. -/
theorem safe_adaptorCounterpart (fuel : Nat) (declaring : TypeId) (hc : r₀.HasContext c) :
    Safe Searches r₀ (adaptorCounterpart fuel declaring c) fun found r ↦
      ∀ t, found = some t → r.Has t := by
  unfold adaptorCounterpart
  have hnone (r₁ : Registry) : Safe Searches r₁ (pure none : RegistryM (Option TypeId))
      fun found r ↦ ∀ t, found = some t → r.Has t := .pure_none
  split
  · exact hnone r₀
  · next current hcurrent =>
    refine (safe_firstHostBase fuel (hc.1 current hcurrent)).bind fun hostBase r₁ _ _ _ ↦ ?_
    cases hostBase with
    | none => exact hnone r₁
    | some b =>
      refine .get_bind fun r hl hs ↦ ?_
      split
      · exact hnone r
      · split
        · exact (safe_ofHostType _).searches.bind fun t _ _ _ ht ↦
            .pure fun _ hl _ _ h ↦ Option.some.inj h ▸ hl.has ht
        · exact hnone r

theorem safe_findReferenced (fuel : Nat) (home : ModuleId) (ref : MethodRef) {t : TypeId}
    (ht : r₀.Has t) (hc : r₀.HasContext c) :
    Safe Searches r₀ (findReferenced fuel home ref c t)
      fun found r ↦ ∀ id, found = some id → r.HasMethod id :=
  (settles_findReferenced (z := r₀) fuel home ref ht hc (.inl rfl)).toSafe

/-- A reference that is resolved leads to a method of the registry. -/
theorem safe_resolveMethodRef (fuel : Nat) (home : ModuleId) (token : Token) (ref : MethodRef)
    (hc : r₀.HasContext c) :
    Safe Searches r₀ (resolveMethodRef fuel home token ref c)
      fun found r ↦ ∀ id, found.1 = some id → r.HasMethod id := by
  have hsome (r₁ : Registry) (id : MethodId) (dependent : Bool) (hid : r₁.HasMethod id) :
      Safe Searches r₁ (pure (some id, dependent))
        fun found r ↦ ∀ id, found.1 = some id → r.HasMethod id :=
    .pure fun _ hl _ _ h ↦ Option.some.inj h ▸ hl.hasMethod hid
  unfold resolveMethodRef
  refine (settles_resolveSignature (z := r₀) home hc ref.on).toSafe.searches.bind
    fun resolved r₁ hl₁ _ hresolved ↦ ?_
  cases resolved with
  | unbound name => exact .throw _
  | fixed declaring | dependent declaring =>
    refine .ask_bind fun r hl hs ↦ ?_
    dsimp only
    split
    · exact .pure fun _ _ _ _ h ↦ by cases h
    · refine (safe_findReferenced fuel home ref (hl.has (hresolved declaring rfl))
        ((hl₁.trans hl).hasContext hc)).bind fun found r₂ hl₂ _ hfound ↦ ?_
      cases found with
      | some id => exact hsome r₂ id _ (hfound id rfl)
      | none =>
        refine (safe_adaptorCounterpart fuel declaring
          (((hl₁.trans hl).trans hl₂).hasContext hc)).bind fun counterpart r₃ hl₃ _ ht ↦ ?_
        cases counterpart with
        | none => exact .throw _
        | some t =>
          refine (safe_findReferenced fuel home ref (ht t rfl)
            ((((hl₁.trans hl).trans hl₂).trans hl₃).hasContext hc)).bind
            fun found r₄ _ _ hfound ↦ ?_
          cases found with
          | none => exact .throw _
          | some id => exact hsome r₄ id _ (hfound id rfl)

theorem has_contextualOwner {t : TypeId} (ht : r.Has t) (hc : r.HasContext c) :
    r.Has (contextualOwner t c r).1 := by
  unfold contextualOwner
  split
  · exact ht
  · split
    · next instantiated hinst =>
      split
      · exact hc.1 instantiated hinst
      · exact ht
    · exact ht

/-- So does a token, by way of the other tokens that it names. -/
theorem safe_findMethodToken (home : ModuleId) : (fuel : Nat) → (token : Token) →
    {r₀ : Registry} → r₀.HasContext c →
    Safe Searches r₀ (findMethodToken home c fuel token)
      fun found r ↦ ∀ id, found.1 = some id → r.HasMethod id
  | 0, _, _, _ => .throw _
  | fuel + 1, token, r₀, hc => by
    unfold findMethodToken
    refine (Safe.lift (Q := fun _ _ ↦ True) fun _ _ _ _ _ ↦ trivial).bind fun m r₁ hl₁ _ _ ↦ ?_
    split
    · refine (Safe.lift (Q := fun _ _ ↦ True) fun _ _ _ _ _ ↦ trivial).bind
        fun row r₂ hl₂ _ _ ↦ ?_
      refine (settles_definedType (z := r₀) home _).toSafe.searches.bind
        fun owner r₃ hl₃ _ howner ↦ ?_
      refine .ask_bind fun r hl _ ↦ ?_
      have hdeclaring := has_contextualOwner (hl.has howner)
        ((((hl₁.trans hl₂).trans hl₃).trans hl).hasContext hc)
      refine (settles_methodsOf (z := r₀) hdeclaring).toSafe.bind fun ids r₄ _ _ hids ↦ ?_
      split
      · next id hid =>
        exact .pure fun _ hl' _ _ h ↦
          Option.some.inj h ▸ hl'.hasMethod (hids.1 id (List.mem_of_getElem? hid))
      · exact .throw _
    · refine (Safe.lift (Q := fun _ _ ↦ True) fun _ _ _ _ _ ↦ trivial).bind
        fun ref r₂ hl₂ _ _ ↦ ?_
      split
      · exact safe_resolveMethodRef fuel home token _ ((hl₁.trans hl₂).hasContext hc)
      · exact .throw _
    · refine (Safe.lift (Q := fun _ _ ↦ True) fun _ _ _ _ _ ↦ trivial).bind
        fun spec r₂ hl₂ _ _ ↦ ?_
      refine (safe_findMethodToken home fuel spec.method ((hl₁.trans hl₂).hasContext hc)).bind
        fun found r₃ hl₃ _ hfound ↦ ?_
      split
      · exact .pure fun _ _ _ _ h ↦ by cases h
      · next generic dependent =>
        refine (settles_resolveArguments (z := r₀) home
          (((hl₁.trans hl₂).trans hl₃).hasContext hc) spec.args).toSafe.searches.bind
          fun args r₄ hl₄ _ hargs ↦ ?_
        exact (settles_instantiateMethod (z := r₀) (hl₄.hasMethod (hfound generic rfl))
          hargs).toSafe.bind fun id _ _ _ hid ↦
            .pure fun _ hl _ _ h ↦ Option.some.inj h ▸ hl.hasMethod hid
    · exact .throw _

/-- A definition that the context has no part in is the same in every later registry and context. -/
theorem contextualOwner_fixed {t : TypeId} (ht : r.Has t) (hl : r.Later z)
    (h : (contextualOwner t c r).2 = false) : contextualOwner t d z = contextualOwner t c r := by
  unfold contextualOwner at h ⊢
  rw [hl.type_eq ht]
  split at h
  · next hplain => rw [if_pos hplain, if_pos hplain]
  · split at h
    · split at h <;> cases h
    · cases h

end Registry

/-- The reference is to the constructor of a type of that name and has nothing to do. -/
def MethodRef.isIdle (ref : MethodRef) (name : String) : Bool :=
  ref.isConstructor && ref.params.isEmpty &&
    (name == CoreLibrary.objectName || name == CoreLibrary.attributeName)

namespace Registry

variable {r r' r₀ z : Registry} {home : ModuleId} {c d : GenericContext}

/-- When the answer for a reference claims not to depend on the context: either there is nothing to
do, or the type is the same in every context and the method was found on it. -/
theorem resolveMethodRef_fixed {fuel : Nat} {token : Token} {ref : MethodRef}
    {found : Option MethodId}
    (hx : resolveMethodRef fuel home token ref c r = .ok (found, false) r') :
    ∃ resolved declaring r₁, resolveSignature home c ref.on r = .ok resolved r₁ ∧
      resolved.type? = some declaring ∧
      (ref.isIdle (r₁.typeName declaring) = true ∧ found = none ∧ r' = r₁ ∨
        ref.isIdle (r₁.typeName declaring) = false ∧ resolved = .fixed declaring ∧
          ∃ id, found = some id ∧
            findReferenced fuel home ref c declaring r₁ = .ok (some id) r') := by
  unfold resolveMethodRef at hx
  obtain ⟨resolved, r₁, hresolved, hrest⟩ := exists_of_bind hx
  refine ⟨resolved, ?_⟩
  cases resolved with
  | unbound name => cases hrest
  | fixed declaring | dependent declaring =>
    refine ⟨declaring, r₁, hresolved, rfl, ?_⟩
    dsimp only at hrest
    rw [ask_bind] at hrest
    split at hrest
    · next hidle =>
      cases hrest
      exact .inl ⟨hidle, rfl, rfl⟩
    · next hidle =>
      refine .inr ⟨Bool.eq_false_iff.mpr hidle, ?_⟩
      obtain ⟨there, r₂, hfind, hrest⟩ := exists_of_bind hrest
      cases there with
      | some id =>
        cases hrest <;> exact ⟨rfl, id, rfl, hfind⟩
      | none =>
        -- a method of the counterpart of an adaptor always depends on the context
        obtain ⟨counterpart, r₃, -, hrest⟩ := exists_of_bind hrest
        cases counterpart with
        | none => cases hrest
        | some t =>
          obtain ⟨there, r₄, -, hrest⟩ := exists_of_bind hrest
          cases there <;> cases hrest

theorem resolveMethodRef_of_idle {fuel : Nat} {token : Token} {ref : MethodRef}
    {resolved : Resolution} {declaring : TypeId}
    (hsig : resolveSignature home c ref.on r = .ok resolved r')
    (htype : resolved.type? = some declaring)
    (hidle : ref.isIdle (r'.typeName declaring) = true) :
    resolveMethodRef fuel home token ref c r = .ok (none, false) r' := by
  unfold resolveMethodRef
  refine (bind_of_ok hsig).trans ?_
  cases resolved with
  | unbound name => cases htype
  | fixed t | dependent t =>
    cases htype
    dsimp only
    rw [ask_bind]
    exact congrFun (if_pos hidle) r'

theorem resolveMethodRef_of_found {fuel : Nat} {token : Token} {ref : MethodRef}
    {resolved : Resolution} {declaring : TypeId} {r₁ : Registry} {id : MethodId}
    (hsig : resolveSignature home c ref.on r = .ok resolved r₁)
    (htype : resolved.type? = some declaring)
    (hidle : ref.isIdle (r₁.typeName declaring) = false)
    (hfind : findReferenced fuel home ref c declaring r₁ = .ok (some id) r') :
    resolveMethodRef fuel home token ref c r = .ok (some id, !resolved.isFixed) r' := by
  unfold resolveMethodRef
  refine (bind_of_ok hsig).trans ?_
  cases resolved with
  | unbound name => cases htype
  | fixed t | dependent t =>
    cases htype
    dsimp only
    rw [ask_bind]
    exact (congrFun (if_neg (Bool.eq_false_iff.mp hidle)) r₁).trans (bind_of_ok hfind)

/-- A reference that was resolved without the context is resolved alike in any other one. -/
theorem resolveMethodRef_again {fuel : Nat} {token : Token} {ref : MethodRef}
    {found : Option MethodId} (hs : r.Sound) (hc : r.HasContext c)
    (hx : resolveMethodRef fuel home token ref c r = .ok (found, false) r') (hlast : r'.Later z)
    (hnames : z.Unambiguous) (hclear : z.Clear home ref c)
    (hclear' : z.Clear home ref d) :
    resolveMethodRef fuel home token ref d z = .ok (found, false) z := by
  obtain ⟨resolved, declaring, r₁, hresolved, htype, hcases⟩ := resolveMethodRef_fixed hx
  have hsig := settles_resolveSignature (z := z) home hc ref.on
  obtain ⟨hstep, hs₁⟩ := hsig.ok (.refl r) hs hresolved
  have hdeclaring := hsig.yields r resolved r₁ (.refl r) hs hresolved declaring htype
  rcases hcases with ⟨hidle, rfl, rfl⟩ | ⟨hidle, rfl, id, rfl, hfind⟩
  · have hfinal := hsig.again r _ _ (.refl r) hs hresolved hlast hnames
    rw [← hlast.typeName_eq hdeclaring] at hidle
    cases resolved with
    | unbound name => cases htype
    | fixed t =>
      cases htype
      rw [resolveSignature_closed home c d ref.on (isOpen_of_fixed hresolved)] at hfinal
      exact resolveMethodRef_of_idle hfinal rfl hidle
    | dependent t =>
      cases htype
      simp only [MethodRef.isIdle, Bool.and_eq_true, List.isEmpty_iff, Bool.or_eq_true,
        beq_iff_eq] at hidle
      obtain ⟨⟨hctor, hparams⟩, hname⟩ := hidle
      obtain ⟨hobject, hattribute⟩ := hclear.chosen declaring z hctor hparams hfinal
      exact (hname.elim hobject hattribute).elim
  · have hfound := settles_findReferenced (z := z) (d := d) fuel home ref hdeclaring
      (hstep.toLater.hasContext hc) (.inr fun hlast₁ ↦ ?_)
    · have hlast₁ := (hfound.ok (.refl r₁) hs₁ hfind).1.toLater.trans hlast
      have hfinal := hsig.again r _ _ (.refl r) hs hresolved hlast₁ hnames
      rw [← hlast₁.typeName_eq hdeclaring] at hidle
      rw [resolveSignature_closed home c d ref.on (isOpen_of_fixed hresolved)] at hfinal
      exact resolveMethodRef_of_found hfinal rfl hidle
        (hfound.again r₁ _ _ (.refl r₁) hs₁ hfind hlast hnames)
    · have hfinal := hsig.again r _ _ (.refl r) hs hresolved hlast₁ hnames
      refine ⟨hclear.secluded _ declaring z hfinal rfl,
        hclear'.secluded (.fixed declaring) declaring z ?_ rfl⟩
      rwa [resolveSignature_closed home d c ref.on (isOpen_of_fixed hresolved)]

theorem lift_of_ok {α : Type} {query : Registry → Except Error α} {a : α} (h : query r = .ok a) :
    lift query r = .ok a r := by
  rw [lift, h]

/-- A query that succeeded has changed nothing. -/
theorem ok_of_lift {α : Type} {query : Registry → Except Error α} {a : α}
    (h : lift query r = .ok a r') : query r = .ok a ∧ r' = r := by
  unfold lift at h
  cases hq : query r with
  | ok a' =>
    rw [hq] at h
    cases h
    exact ⟨rfl, rfl⟩
  | error e =>
    rw [hq] at h
    cases h

theorem module_of_findMethodToken {fuel : Nat} {token : Token} {out : Option MethodId × Bool}
    (h : findMethodToken home c fuel token r = .ok out r') : ∃ m, r.module home = .ok m := by
  cases fuel with
  | zero => cases h
  | succ fuel =>
    unfold findMethodToken at h
    obtain ⟨m, r₁, hm, -⟩ := exists_of_bind h
    exact ⟨m, (ok_of_lift hm).1⟩

/-! The branches of the search, by the table of the token. -/

section

variable {m : Module} {fuel : Nat} {token : Token} {found : Option MethodId}

/-- The method of a row is one of those of its type, so it is found where it was. -/
theorem findMethodToken_methodDef_again (hmodule : r₀.module home = .ok m)
    (hlast₀ : r₀.Later z) (hnames : z.Unambiguous) (htable : token.table? = some .methodDef)
    (hl : r₀.Later r) (hs : r.Sound) (hc : r.HasContext c)
    (hx : findMethodToken home c (fuel + 1) token r = .ok (found, false) r') (hlast : r'.Later z) :
    findMethodToken home d (fuel + 1) token z = .ok (found, false) z := by
  unfold findMethodToken at hx ⊢
  rw [bind_of_ok (lift_of_ok (hl.module_eq home ▸ hmodule)), htable] at hx
  rw [bind_of_ok (lift_of_ok (hlast₀.module_eq home ▸ hmodule)), htable]
  obtain ⟨row, r₁, hlift, hrest⟩ := exists_of_bind hx
  obtain ⟨hrow, rfl⟩ := ok_of_lift hlift
  obtain ⟨owner, r₂, howner, hrest⟩ := exists_of_bind hrest
  rw [ask_bind] at hrest
  have hdefined := @settles_definedType r₁ z home (Module.typeToken row.owner)
  obtain ⟨hstep, hs₂⟩ := hdefined.ok (.refl r₁) hs howner
  have hthere := hdefined.yields r₁ owner r₂ (.refl r₁) hs howner
  have hdeclaring := has_contextualOwner hthere (hstep.toLater.hasContext hc)
  have hfixed := contextualOwner_fixed (c := c) (d := d) (z := z) hthere
  rcases hcontext : contextualOwner owner c r₂ with ⟨declaring, dependent⟩
  rw [hcontext] at hrest hdeclaring hfixed
  obtain ⟨ids, r₃, hids, hrest⟩ := exists_of_bind hrest
  have hmethods := settles_methodsOf (z := z) hdeclaring
  have hl₃ := (hmethods.ok (.refl r₂) hs₂ hids).1.toLater
  cases hget : ids[row.position]? with
  | none =>
    rw [hget] at hrest
    cases hrest
  | some id =>
    rw [hget] at hrest
    cases hrest
    refine (bind_of_ok (lift_of_ok hrow)).trans ?_
    refine (bind_of_ok (hdefined.again r₁ _ _ (.refl r₁) hs howner (hl₃.trans hlast)
      hnames)).trans ?_
    rw [ask_bind, hfixed (hl₃.trans hlast) rfl]
    refine (bind_of_ok (hmethods.again r₂ _ _ (.refl r₂) hs₂ hids hlast hnames)).trans ?_
    rw [hget]
    rfl

theorem findMethodToken_memberRef_again (hmodule : r₀.module home = .ok m)
    (hlast₀ : r₀.Later z) (hnames : z.Unambiguous) (htable : token.table? = some .memberRef)
    (hl : r₀.Later r) (hs : r.Sound) (hc : r.HasContext c)
    (hx : findMethodToken home c (fuel + 1) token r = .ok (found, false) r') (hlast : r'.Later z)
    (hclear : ∀ ref, Leads m token ref → z.Clear home ref c ∧ z.Clear home ref d) :
    findMethodToken home d (fuel + 1) token z = .ok (found, false) z := by
  unfold findMethodToken at hx ⊢
  rw [bind_of_ok (lift_of_ok (hl.module_eq home ▸ hmodule)), htable] at hx
  rw [bind_of_ok (lift_of_ok (hlast₀.module_eq home ▸ hmodule)), htable]
  obtain ⟨member, r₁, hlift, hrest⟩ := exists_of_bind hx
  obtain ⟨hmember, rfl⟩ := ok_of_lift hlift
  cases member with
  | field on name => cases hrest
  | method ref =>
    obtain ⟨hclear₁, hclear₂⟩ := hclear ref (.member htable hmember)
    refine (bind_of_ok (lift_of_ok hmember)).trans ?_
    exact resolveMethodRef_again hs hc hrest hlast hnames hclear₁ hclear₂

/-- The instance of a generic method is made of the method and of the arguments, so it is found
again if the method is. -/
theorem findMethodToken_methodSpec_again (hmodule : r₀.module home = .ok m)
    (hlast₀ : r₀.Later z) (hnames : z.Unambiguous) (htable : token.table? = some .methodSpec)
    (hl : r₀.Later r) (hs : r.Sound) (hc : r.HasContext c)
    (hx : findMethodToken home c (fuel + 1) token r = .ok (found, false) r') (hlast : r'.Later z)
    (hagain : ∀ spec, m.methodSpec token = .ok spec → ∀ generic? r₁,
      findMethodToken home c fuel spec.method r = .ok (generic?, false) r₁ → r₁.Later z →
      findMethodToken home d fuel spec.method z = .ok (generic?, false) z) :
    findMethodToken home d (fuel + 1) token z = .ok (found, false) z := by
  unfold findMethodToken at hx ⊢
  rw [bind_of_ok (lift_of_ok (hl.module_eq home ▸ hmodule)), htable] at hx
  rw [bind_of_ok (lift_of_ok (hlast₀.module_eq home ▸ hmodule)), htable]
  obtain ⟨spec, r₁, hlift, hrest⟩ := exists_of_bind hx
  obtain ⟨hspec, rfl⟩ := ok_of_lift hlift
  obtain ⟨⟨generic?, dependent⟩, r₂, hgeneric, hrest⟩ := exists_of_bind hrest
  have hsafe := safe_findMethodToken home fuel spec.method hc
  obtain ⟨hstep, hs₂⟩ := hsafe.ok (.refl r₁) hs hgeneric
  have hthere := hsafe.yields r₁ _ r₂ (.refl r₁) hs hgeneric
  refine (bind_of_ok (lift_of_ok hspec)).trans ?_
  cases generic? with
  | none =>
    cases hrest
    exact bind_of_ok (hagain spec hspec none _ hgeneric hlast)
  | some generic =>
    obtain ⟨⟨args, fixed_⟩, r₃, hargs, hrest⟩ := exists_of_bind hrest
    obtain ⟨id, r₄, hid, hrest⟩ := exists_of_bind hrest
    have hsigs := settles_resolveArguments (z := z) home (hstep.toLater.hasContext hc) spec.args
    obtain ⟨hstep₃, hs₃⟩ := hsigs.ok (.refl r₂) hs₂ hargs
    have hinstance := settles_instantiateMethod (z := z)
      (hstep₃.toLater.hasMethod (hthere generic rfl))
      (hsigs.yields r₂ _ r₃ (.refl r₂) hs₂ hargs)
    have hl₄ := (hinstance.ok (.refl r₃) hs₃ hid).1.toLater
    obtain ⟨rfl, rfl⟩ : dependent = false ∧ fixed_ = true := by
      cases dependent <;> cases fixed_ <;> first | exact ⟨rfl, rfl⟩ | cases hrest
    cases hrest
    have hl₃ := hl₄.trans hlast
    refine (bind_of_ok (hagain spec hspec _ _ hgeneric (hstep₃.toLater.trans hl₃))).trans ?_
    have hclosed := resolveArguments_closed home c d spec.args (anyOpen_of_fixed hargs)
    refine (bind_of_ok (hclosed ▸ hsigs.again r₂ _ _ (.refl r₂) hs₂ hargs hl₃ hnames)).trans ?_
    exact bind_of_ok (hinstance.again r₃ _ _ (.refl r₃) hs₃ hid hlast hnames)

end

/-- A token that was resolved without the context is resolved alike in any other one. -/
theorem findMethodToken_again {m : Module} (hmodule : r₀.module home = .ok m)
    (hlast₀ : r₀.Later z) (hnames : z.Unambiguous) :
    {fuel : Nat} → {token : Token} → {found : Option MethodId} → {r r' : Registry} →
    r₀.Later r → r.Sound → r.HasContext c →
    findMethodToken home c fuel token r = .ok (found, false) r' → r'.Later z →
    (∀ ref, Leads m token ref → z.Clear home ref c ∧ z.Clear home ref d) →
    findMethodToken home d fuel token z = .ok (found, false) z
  | 0, _, _, _, _, _, _, _, hx, _, _ => nomatch hx
  | fuel + 1, token, found, r, r', hl, hs, hc, hx, hlast, hclear => by
    have hmodule' : r.module home = .ok m := hl.module_eq home ▸ hmodule
    cases htable : token.table? with
    | none =>
      unfold findMethodToken at hx
      rw [bind_of_ok (lift_of_ok hmodule'), htable] at hx
      cases hx
    | some table =>
      cases table with
      | methodDef =>
        exact findMethodToken_methodDef_again hmodule hlast₀ hnames htable hl hs hc hx hlast
      | memberRef =>
        exact findMethodToken_memberRef_again hmodule hlast₀ hnames htable hl hs hc hx hlast hclear
      | methodSpec =>
        exact findMethodToken_methodSpec_again hmodule hlast₀ hnames htable hl hs hc hx hlast
          fun spec hspec generic? r₁ hgeneric hl₁ ↦
            findMethodToken_again hmodule hlast₀ hnames hl hs hc hgeneric hl₁
              fun ref hleads ↦ hclear ref (.spec htable hspec hleads)
      | typeRef | typeDef | field | typeSpec | userString =>
        unfold findMethodToken at hx
        rw [bind_of_ok (lift_of_ok hmodule'), htable] at hx
        cases hx

/-! ### Registries to start from -/

theorem sound_empty : empty.Sound := by
  constructor <;> simp [empty]

/-- Naming a type that is there keeps a registry sound. -/
theorem Sound.define (hs : r.Sound) (ref : Reference) {t : TypeId} (ht : r.Has t) :
    Sound { r with definitions := r.definitions.insert ref t } where
  types := hs.types
  methods := hs.methods
  names := hs.names
  hosts := hs.hosts
  definitions ref' t' h' := by
    rcases getElem?_insert_cases h' with hold | ⟨-, rfl⟩
    · exact hs.definitions ref' t' hold
    · exact ht
  bases := hs.bases
  declared := hs.declared
  instances := hs.instances

/-- The computation leaves a sound registry sound. -/
def SoundAfter (r r' : Registry) : Prop := r.Sound → r'.Sound

instance : IsPreorder Registry SoundAfter where
  refl _ := id
  trans _ _ _ h h' := h' ∘ h

/-- Definitions are named one after the other. -/
theorem keeps_addDefinitions (home : Home) : (definitions : List (Nat × TypeDef)) →
    Keeps SoundAfter (addDefinitions home definitions)
  | [] => .pure _
  | (position, definition) :: rest => fun r hs ↦ by
    let d : Descriptor :=
      ⟨definitionName definition, .interpreted home (Module.typeToken position), [], none⟩
    have hadd : Safe Spells r (addType d) fun t r ↦ r.Has t :=
      safe_addType ⟨fun _ h ↦ (nomatch h), fun _ h ↦ (nomatch h)⟩
    obtain ⟨r₁, t, hadded⟩ : ∃ r₁ t, addType d r = .ok t r₁ := ⟨_, _, rfl⟩
    have hs₁ := (hadd.ok (.refl r) hs hadded).2
    have ht := hadd.yields r t r₁ (.refl r) hs hadded
    rw [addDefinitions, endState_bind hadded, endState_get_bind]
    split
    · exact hs₁
    · obtain ⟨r₂, hnamed⟩ : ∃ r₂, addName d.name t r₁ = .ok () r₂ := ⟨_, rfl⟩
      obtain ⟨hl₂, hs₂⟩ := (safe_addName ht).ok (.refl r₁) hs₁ hnamed
      rw [endState_bind hnamed]
      exact keeps_addDefinitions home rest _
        (hs₂.define ⟨home.id, Module.typeToken position⟩ (hl₂.has ht))

/-- Loading a module moves the registry on to a sound one, whether it succeeds or fails. -/
theorem keeps_loadModule (m : Module) : Keeps SoundAfter (loadModule m) := by
  refine Keeps.get_bind fun r ↦ ?_
  split
  · exact id
  · split
    · exact id
    · refine fun hs ↦ ?_
      have hpushed : Sound { r with modules := r.modules.push m } :=
        ⟨hs.types, hs.methods, hs.names, hs.hosts, hs.definitions, hs.bases, hs.declared,
          hs.instances⟩
      have hversion (id : ModuleId) :
          Keeps SoundAfter (modify fun r ↦ { r with versions := r.versions.insert m.version id } :
            RegistryM Unit) :=
        .modify fun r hs ↦ ⟨hs.types, hs.methods, hs.names, hs.hosts, hs.definitions, hs.bases,
          hs.declared, hs.instances⟩
      refine ((keeps_addDefinitions _ _).bind fun _ ↦ ?_) _ hpushed
      split
      · exact (hversion _).bind fun _ ↦ .pure _
      · exact .pure _

/-! ### Histories -/

/-- What a computation answers. -/
def answer {α : Type} (x : RegistryM α) (r : Registry) : Except Error α :=
  match x r with
  | .ok a _ => .ok a
  | .error e _ => .error e

theorem answer_ok {α : Type} {x : RegistryM α} {a : α} (h : x r = .ok a r') :
    answer x r = .ok a := by
  rw [answer, h]

theorem answer_error {α : Type} {x : RegistryM α} {e : Error} (h : x r = .error e r') :
    answer x r = .error e := by
  rw [answer, h]

theorem exists_of_answer {α : Type} {x : RegistryM α} {a : α} (h : answer x r = .ok a) :
    ∃ r', x r = .ok a r' := by
  cases hx : x r with
  | ok b r' =>
    rw [answer_ok hx] at h
    cases h
    exact ⟨r', rfl⟩
  | error e r' =>
    rw [answer_error hx] at h
    cases h

end Registry

/-- A method token where it is used. -/
structure TokenUse where
  module : ModuleId
  token : Token
  context : GenericContext

namespace Registry

variable {r r' r₀ z : Registry} {fuel : Nat} {uses : List TokenUse} {use : TokenUse}

/-- The method of a token, as far as it is remembered. -/
def known? (r : Registry) (use : TokenUse) : Option (Option MethodId) :=
  r.tokens.methods[Reference.mk use.module use.token]?

/-- The use of a token in code, as it is resolved. -/
def resolveUse (fuel : Nat) (use : TokenUse) : RegistryM (Option MethodId) :=
  resolveMethod fuel use.module use.token use.context

/-- Resolving a token anew, whatever is remembered under it. -/
def findUse (fuel : Nat) (use : TokenUse) : RegistryM (Option MethodId × Bool) :=
  findMethodToken use.module use.context fuel use.token

/-- The registry after tokens were resolved one after the other, the latest use first; a resolution
that fails counts too. -/
inductive Resolving (fuel : Nat) (r₀ : Registry) : List TokenUse → Registry → Prop
  | start : Resolving fuel r₀ [] r₀
  | next {uses : List TokenUse} {r : Registry} (use : TokenUse) : Resolving fuel r₀ uses r →
    r.HasContext use.context →
    Resolving fuel r₀ (use :: uses) (endState (resolveUse fuel use) r)

/-- The context has no say in what the token of the use leads to, beyond the type it is looked for
on. -/
def ClearUse (r : Registry) (use : TokenUse) : Prop :=
  ∀ m ref, r.module use.module = .ok m → Leads m use.token ref →
    r.Clear use.module ref use.context

theorem resolveUse_of_known {found : Option MethodId} (h : r.known? use = some found) :
    resolveUse fuel use r = .ok found r := by
  rw [resolveUse, resolveMethod, ask_bind, show r.tokens.methods[_]? = some found from h]
  rfl

theorem resolveUse_of_error {e : Error} (h : r.known? use = none)
    (hfind : findUse fuel use r = .error e r') : resolveUse fuel use r = .error e r' := by
  rw [resolveUse, resolveMethod, ask_bind, show r.tokens.methods[_]? = none from h]
  exact bind_of_error hfind

/-- What a new answer leaves behind: the types and methods that were met, and the answer itself if
it claims not to depend on the context. -/
theorem resolveUse_of_found {found : Option MethodId} {dependent : Bool} (h : r.known? use = none)
    (hfind : findUse fuel use r = .ok (found, dependent) r') :
    ∃ r'', resolveUse fuel use r = .ok found r'' ∧ ∃ reached, r'' =
      { r' with
        tokens := { r'.tokens with
          methods := if dependent then r'.tokens.methods
            else r'.tokens.methods.insert ⟨use.module, use.token⟩ found }
        reached } := by
  rw [resolveUse, resolveMethod, ask_bind, show r.tokens.methods[_]? = none from h]
  cases dependent <;> cases found
  · exact ⟨_, (bind_of_ok hfind).trans rfl, r'.reached, rfl⟩
  · exact ⟨_, (bind_of_ok hfind).trans rfl, r'.reached.insert _ (), rfl⟩
  · exact ⟨_, (bind_of_ok hfind).trans rfl, r'.reached, rfl⟩
  · exact ⟨_, (bind_of_ok hfind).trans rfl, r'.reached.insert _ (), rfl⟩

/-- Remembering an answer is no other change. -/
theorem later_remember (r : Registry) (tokens : TokenTable) (reached : Std.HashMap MethodId Unit) :
    r.Later { r with tokens, reached } where
  toExtends := .of_eq rfl rfl rfl rfl
  hosts _ _ h := h
  bases _ _ h := h
  declared _ _ h := h
  instances _ _ h := h
  definitions := rfl
  modules := rfl
  host := rfl

theorem Sound.remember (hs : r.Sound) (tokens : TokenTable) (reached : Std.HashMap MethodId Unit) :
    Sound { r with tokens, reached } :=
  hs.later (later_remember r tokens reached) (fun _ _ ↦ .inl) (fun _ _ ↦ .inl) (fun _ _ ↦ .inl)
    (fun _ _ ↦ .inl) (fun _ _ ↦ .inl) (fun _ _ ↦ .inl) (fun _ _ ↦ .inl)

/-- What one use of a token does: it moves on to a later registry, and what is remembered there was
remembered before or is the answer that was just found. -/
theorem resolveUse_step (fuel : Nat) (hs : r.Sound) (hc : r.HasContext use.context) :
    r.Later (endState (resolveUse fuel use) r) ∧ (endState (resolveUse fuel use) r).Sound ∧
      ∀ (ref : Reference) found,
        (endState (resolveUse fuel use) r).tokens.methods[ref]? = some found →
        r.tokens.methods[ref]? = some found ∨ ref = ⟨use.module, use.token⟩ ∧
          ∃ r₂, findUse fuel use r = .ok (found, false) r₂ ∧
            r₂.Later (endState (resolveUse fuel use) r) := by
  have hkeeps :
      r.Searches (endState (findUse fuel use) r) ∧ (endState (findUse fuel use) r).Sound :=
    (safe_findMethodToken use.module fuel use.token hc).keeps r (.refl r) hs
  cases hknown : r.known? use with
  | some found =>
    rw [endState_ok (resolveUse_of_known hknown)]
    exact ⟨.refl r, hs, fun _ _ ↦ .inl⟩
  | none =>
    cases hfind : findUse fuel use r with
    | error e r₁ =>
      rw [endState_error hfind] at hkeeps
      rw [endState_error (resolveUse_of_error hknown hfind)]
      exact ⟨hkeeps.1.toLater, hkeeps.2, fun ref found h ↦ .inl (hkeeps.1.tokens ▸ h)⟩
    | ok out r₁ =>
      obtain ⟨found, dependent⟩ := out
      rw [endState_ok hfind] at hkeeps
      obtain ⟨r₂, hok, reached, rfl⟩ := resolveUse_of_found hknown hfind
      rw [endState_ok hok]
      refine ⟨hkeeps.1.toLater.trans (later_remember ..), hkeeps.2.remember ..,
        fun ref found' h ↦ ?_⟩
      cases dependent with
      | true => exact .inl (hkeeps.1.tokens ▸ h)
      | false =>
        rcases getElem?_insert_cases h with hold | ⟨rfl, rfl⟩
        · exact .inl (hkeeps.1.tokens ▸ hold)
        · exact .inr ⟨rfl, r₁, rfl, later_remember ..⟩

/-- Every answer that is remembered was found by an earlier use of its token, in whose context it
claimed not to depend on any. -/
theorem Resolving.kept (hrun : Resolving fuel r₀ uses r) (hs : r₀.Sound) :
    r₀.Later r ∧ r.Sound ∧ ∀ (ref : Reference) found, r.tokens.methods[ref]? = some found →
      r₀.tokens.methods[ref]? = some found ∨ ∃ use ∈ uses, ref = ⟨use.module, use.token⟩ ∧
        ∃ r₁ r₂, r₀.Later r₁ ∧ r₁.Sound ∧ r₁.HasContext use.context ∧
          findUse fuel use r₁ = .ok (found, false) r₂ ∧ r₂.Later r := by
  induction hrun with
  | start => exact ⟨.refl r₀, hs, fun _ _ ↦ .inl⟩
  | next use hrun hc ih =>
    obtain ⟨hl, hs', hkept⟩ := ih
    obtain ⟨hstep, hs'', hnew⟩ := resolveUse_step fuel hs' hc
    refine ⟨hl.trans hstep, hs'', fun ref found h ↦ ?_⟩
    rcases hnew ref found h with hold | ⟨rfl, r₂, hfind, hl₂⟩
    · refine (hkept ref found hold).imp_right ?_
      rintro ⟨earlier, hmem, rfl, r₁, r₂, hl₁, hs₁, hc₁, hfind, hl₂⟩
      exact ⟨earlier, .tail _ hmem, rfl, r₁, r₂, hl₁, hs₁, hc₁, hfind, hl₂.trans hstep⟩
    · exact .inr ⟨use, .head _, rfl, _, r₂, hl, hs', hc, hfind, hl₂⟩

/-! ### A module with two references -/

end Registry

def Module.cells.putCell : MethodRef :=
  ⟨.definition (typeToken 0), "Put", [.definition (typeToken 1)], .definition (typeToken 1), true,
    0⟩

/-- A module with a type `Cell`, which has a method and a constructor that takes nothing, and a type
of the name of the base of all types. It refers to the method, and to such a constructor of whatever
`T` stands for. -/
def Module.cells : Module :=
  { Module.empty "Cells" with
    types := #[⟨"", "Cell", .none, none, [], [], #[],
        #[⟨"Put", MethodKind.instance_.flags, [.definition (typeToken 1)],
            .definition (typeToken 1), [], none⟩,
          ⟨constructorName, MethodKind.constructor.flags, [], .definition (typeToken 1), [],
            none⟩]⟩,
      ⟨"System", "Object", .none, none, [], [], #[], #[]⟩]
    methodPlaces := #[⟨0, 0⟩, ⟨0, 1⟩]
    fieldLists := #[#[], #[]]
    methodLists := #[#[Token.next .methodDef 0, Token.next .methodDef 1], #[]]
    memberRefs :=
      #[.method cells.putCell,
        .method ⟨.parameter "T", constructorName, [], .definition (typeToken 1), true, 0⟩] }

namespace Registry

variable {r r' r₀ z : Registry} {fuel : Nat} {uses : List TokenUse} {use : TokenUse}

/-- The registry that loading the module leaves, up to the meaning of names, which no search below
asks for. -/
def ofCells (names : Std.HashMap String TypeId) : Registry :=
  { empty with
    types := #[⟨"Cell", .interpreted ⟨⟨0⟩, .cells⟩ (Module.typeToken 0), [], none⟩,
      ⟨"System.Object", .interpreted ⟨⟨0⟩, .cells⟩ (Module.typeToken 1), [], none⟩]
    names
    modules := #[.cells]
    definitions := (({} : Std.HashMap Reference TypeId).insert ⟨⟨0⟩, Module.typeToken 0⟩ ⟨0⟩).insert
      ⟨⟨0⟩, Module.typeToken 1⟩ ⟨1⟩ }

def cellNames : Std.HashMap String TypeId :=
  (({} : Std.HashMap String TypeId).insertIfNew "Cell" ⟨0⟩).insertIfNew "System.Object" ⟨1⟩

theorem loadModule_cells : loadModule .cells empty = .ok ⟨0⟩ (ofCells cellNames) := by
  have hcell (fields methods) : definitionName ⟨"", "Cell", .none, none, [], [], fields, methods⟩ =
      "Cell" := by cbv
  have hobject (fields methods) : definitionName ⟨"System", "Object", .none, none, [], [], fields,
      methods⟩ = "System.Object" := by
    cbv
  simp [loadModule, addDefinitions, Module.cells, Module.empty, hcell, hobject, empty, addType,
    addName, ofCells, cellNames, bind, EStateM.bind, get, getThe, MonadStateOf.get,
    EStateM.get, set, EStateM.set, modify, modifyGet, MonadStateOf.modifyGet, EStateM.modifyGet,
      pure, EStateM.pure]

theorem sound_ofCells : (ofCells cellNames).Sound :=
  endState_ok loadModule_cells ▸ keeps_loadModule .cells empty sound_empty

theorem fresh_ofCells (names : Std.HashMap String TypeId) (ref : Reference) :
    (ofCells names).tokens.methods[ref]? = none :=
  Std.HashMap.getElem?_empty

/-- The use of a reference of the module where `T` stands for a type. -/
def cellUse (row : Nat) (t : TypeId) : TokenUse :=
  ⟨⟨0⟩, Token.next .memberRef row, ⟨none, [⟨"T", t⟩]⟩⟩

theorem hasContext_cellUse {row : Nat} {t : TypeId} (ht : r.Has t) :
    r.HasContext (cellUse row t).context :=
  ⟨fun _ h ↦ (nomatch h), fun b hb ↦ by
    obtain rfl := List.mem_singleton.mp hb
    exact ht⟩

/-- The registry after a use in which `T` stands for the base of all types. -/
def cellsAfter (names : Std.HashMap String TypeId) (row : Nat) : Registry :=
  endState (resolveUse 2 (cellUse row ⟨1⟩)) (ofCells names)

theorem unambiguous_of_plain (hhosts : r.scoped_ = {})
    (hplain : ∀ (name : String) t, r.names[name]? = some t →
      (name.map fun c ↦ if c = '/' then '+' else c) = name) : r.Unambiguous where
  hosts name scope t h := by
    cases scope with
    | none => cases h
    | some s =>
      rw [inScope?, hhosts] at h
      cases Std.HashMap.getElem?_empty.symm.trans h
  nested name t t' h h' := by
    rw [hplain name t h, h] at h'
    exact Option.some.inj h'

theorem unambiguous_cells (hhosts : r.scoped_ = {}) (hnames : r.names = cellNames) :
    r.Unambiguous := by
  refine unambiguous_of_plain hhosts fun name t h ↦ ?_
  rw [hnames, cellNames, Std.HashMap.getElem?_insertIfNew, Std.HashMap.getElem?_insertIfNew] at h
  split at h
  · next hname =>
    obtain rfl := eq_of_beq hname.1
    cbv
  · split at h
    · next hname =>
      obtain rfl := eq_of_beq hname.1
      cbv
    · cases Std.HashMap.getElem?_empty.symm.trans h

theorem resolving_cells (names : Std.HashMap String TypeId) (row : Nat) :
    Resolving 2 (ofCells names) [cellUse row ⟨1⟩] (cellsAfter names row) :=
  .next _ .start (hasContext_cellUse (show 1 < 2 by decide))

theorem unambiguous_cellsAfter : (row : Nat) → row < 2 → (cellsAfter cellNames row).Unambiguous
  | 0, _ | 1, _ =>
    have hhosts (names) : (cellsAfter names _).scoped_ = {} := by cbv
    have hnames (names) : (cellsAfter names _).names = names := by cbv
    unambiguous_cells (hhosts cellNames) (hnames cellNames)

theorem clearUse_cells (hmodules : r.modules = #[.cells]) (t : TypeId) :
    r.ClearUse (cellUse 0 t) := by
  intro m ref hm hleads
  rw [Registry.module, hmodules] at hm
  cases hm
  have htable : (cellUse 0 t).token.table? = some .memberRef := by cbv
  have hrow : Module.cells.memberRef (cellUse 0 t).token = .ok (.method Module.cells.putCell) := by
    cbv
  cases hleads with
  | member _ hmember =>
    cases hrow.symm.trans hmember
    exact clear_of_closed (fun h ↦ absurd h (by decide))
      (by simp [Module.cells.putCell, Signature.root?])
  | spec htable' => cases htable.symm.trans htable'

/-! ### Resolution with and without what is remembered -/

/-- What is remembered under tokens does not show: after any resolutions in any contexts, a token is
resolved as it would be without anything remembered, and whatever is remembered is what it resolves
to in the context at hand. -/
theorem resolution_ignores_tokens (hs : r₀.Sound)
    (hfresh : ∀ ref : Reference, r₀.tokens.methods[ref]? = none)
    (hrun : Resolving fuel r₀ uses r) (hnames : r.Unambiguous)
    (huses : ∀ earlier ∈ uses, r.ClearUse earlier) (huse : r.ClearUse use) :
    answer (resolveUse fuel use) r = (answer (findUse fuel use) r).map Prod.fst ∧
      ∀ found, r.known? use = some found → findUse fuel use r = .ok (found, false) r := by
  obtain ⟨-, hs', hkept⟩ := hrun.kept hs
  have hfixed (found : Option MethodId) (hknown : r.known? use = some found) :
      findUse fuel use r = .ok (found, false) r := by
    rcases hkept _ found hknown with hold | ⟨earlier, hmem, heq, r₁, r₂, hl₁, hs₁, hc₁, hfind, hl₂⟩
    · cases (hfresh _).symm.trans hold
    · obtain ⟨hmodule, htoken⟩ := Reference.mk.inj heq
      obtain ⟨m, hm⟩ := module_of_findMethodToken hfind
      have hstep := ((safe_findMethodToken earlier.module fuel earlier.token hc₁).ok (.refl r₁) hs₁
        hfind).1.toLater
      have hlast : r₁.Later r := hstep.trans hl₂
      have hm' : r.module earlier.module = .ok m := (hlast.module_eq _).trans hm
      rw [findUse, hmodule, htoken]
      refine findMethodToken_again hm hlast hnames (.refl r₁) hs₁ hc₁ hfind hl₂ fun ref hleads ↦
        ⟨huses earlier hmem m ref hm' hleads, ?_⟩
      have hclear := huse m ref
      rw [hmodule, htoken] at hclear
      exact hclear hm' hleads
  refine ⟨?_, hfixed⟩
  cases hknown : r.known? use with
  | some found =>
    rw [answer_ok (resolveUse_of_known hknown), answer_ok (hfixed found hknown)]
    rfl
  | none =>
    cases hfind : findUse fuel use r with
    | error e r' => rw [answer_error (resolveUse_of_error hknown hfind), answer_error hfind]; rfl
    | ok out r' =>
      obtain ⟨r'', hok, -⟩ := resolveUse_of_found hknown hfind
      rw [answer_ok hok, answer_ok hfind]
      rfl

theorem resolution_ignores_tokens_cells :
    (cellsAfter cellNames 0).known? (cellUse 0 ⟨0⟩) = some (some ⟨0⟩) ∧
    (ofCells cellNames).Sound ∧
    (∀ ref : Reference, (ofCells cellNames).tokens.methods[ref]? = none) ∧
    Resolving 2 (ofCells cellNames) [cellUse 0 ⟨1⟩] (cellsAfter cellNames 0) ∧
    (cellsAfter cellNames 0).Unambiguous ∧ (∀ t, (cellsAfter cellNames 0).ClearUse (cellUse 0 t)) ∧
    findUse 2 (cellUse 0 ⟨0⟩) (cellsAfter cellNames 0) =
      .ok (some ⟨0⟩, false) (cellsAfter cellNames 0) := by
  have hknown (names) : (cellsAfter names 0).known? (cellUse 0 ⟨0⟩) = some (some ⟨0⟩) := by cbv
  have hmodules (names) : (cellsAfter names 0).modules = #[.cells] := by cbv
  have hclear := clearUse_cells (hmodules cellNames)
  refine ⟨hknown _, sound_ofCells, fresh_ofCells _, resolving_cells _ 0,
    unambiguous_cellsAfter 0 (by decide), hclear, ?_⟩
  exact (resolution_ignores_tokens sound_ofCells (fresh_ofCells _) (resolving_cells _ 0)
    (unambiguous_cellsAfter 0 (by decide))
    (fun use h ↦ List.mem_singleton.mp h ▸ hclear ⟨1⟩) (hclear ⟨0⟩)).2 _ (hknown _)

/-- A reference to a constructor of `T` that is resolved where `T` stands for the base of all types
is remembered as one with nothing to do, also for where `T` stands for another type. -/
theorem constructor_passed_over : ¬∀ (fuel : Nat) (r₀ r : Registry) (uses : List TokenUse)
    (use : TokenUse), r₀.Sound → (∀ ref : Reference, r₀.tokens.methods[ref]? = none) →
    Resolving fuel r₀ uses r → r.Unambiguous → r.HasContext use.context →
    answer (resolveUse fuel use) r = (answer (findUse fuel use) r).map Prod.fst := by
  intro h
  have hthere (names) : (cellsAfter names 1).HasContext (cellUse 1 ⟨0⟩).context :=
    hasContext_cellUse (show 0 < (cellsAfter names 1).types.size by cbv)
  have hknown (names) : (cellsAfter names 1).known? (cellUse 1 ⟨0⟩) = some none := by cbv
  have hanew (names) :
      (answer (findUse 2 (cellUse 1 ⟨0⟩)) (cellsAfter names 1)) = .ok (some ⟨1⟩, true) := by cbv
  have hsame := h 2 _ _ _ (cellUse 1 ⟨0⟩) sound_ofCells (fresh_ofCells _) (resolving_cells _ 1)
    (unambiguous_cellsAfter 1 (by decide)) (hthere _)
  rw [answer_ok (resolveUse_of_known (hknown _)), hanew] at hsame
  cases hsame

end Registry
end ManagedMachine
