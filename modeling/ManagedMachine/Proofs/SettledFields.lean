import ManagedMachine.Proofs.TokenCaching

/-!
Fields settle. The layout of a type is worked out once and remembered, so the search for a field
along the bases finds again what it has found. What a field token names settles too, and if the
answer claims not to depend on the generic context it is the same in every one.
-/

set_option autoImplicit false
set_option relaxedAutoImplicit false

namespace ManagedMachine

namespace Registry

variable {r r' r₀ z : Registry} {home : ModuleId} {c d : GenericContext} {t : TypeId}

/-! ### Layouts -/

/-- Types of fields are resolved in the context of the type that declares them. -/
theorem safe_appendDefinedFields (home : ModuleId) : (fields : List FieldDef) →
    {l : FieldLayout} → {r₀ : Registry} → r₀.Has t →
    Safe Spells r₀ (appendDefinedFields home t l fields) fun _ _ ↦ True
  | [], _, _, _ => .pure fun _ _ _ ↦ trivial
  | f :: rest, l, r₀, ht => by
    unfold appendDefinedFields
    exact (safe_resolveType home (hasContext_ofType ht) f.type).bind fun _ _ hl _ _ ↦
      safe_appendDefinedFields home rest (hl.has ht)

/-- Fields of the host name their types, which come into use with the layout. -/
theorem safe_appendHostFields (moduleName : String) : (fields : List HostField) →
    {l : FieldLayout} → {r₀ : Registry} →
    Safe Spells r₀ (appendHostFields moduleName t l fields) fun _ _ ↦ True
  | [], _, _ => .pure fun _ _ _ ↦ trivial
  | f :: rest, l, r₀ => by
    unfold appendHostFields
    exact (safe_resolveIn _ _).bind fun _ _ _ _ _ ↦ safe_appendHostFields moduleName rest

/-- A layout takes the one of the base type and appends to it. -/
theorem safe_buildLayout {inherited : TypeId → RegistryM FieldLayout} (ht : r₀.Has t)
    (hinherited : ∀ b r, r₀.Later r → r.Has b → Safe Searches r (inherited b) fun _ _ ↦ True) :
    Safe Searches r₀ (buildLayout inherited t) fun _ _ ↦ True := by
  have hempty (r : Registry) :
      Safe Searches r (pure FieldLayout.empty : RegistryM FieldLayout) fun _ _ ↦ True :=
    .pure fun _ _ _ ↦ trivial
  unfold buildLayout
  refine .ask_bind fun r hl hs ↦ ?_
  split
  · next home token _ =>
    refine (settles_baseType (z := r₀) (hl.has ht)).toSafe.bind fun base r₁ hl₁ _ hbase ↦ ?_
    have hrest (r₂ : Registry) (start : FieldLayout) (ht₂ : r₂.Has t) : Safe Searches r₂ (do
        let rows ← lift fun _ => home.content.fieldsOf token
        appendDefinedFields home.id t start (rows.map Prod.snd))
        fun _ _ ↦ True :=
      (Safe.lift (Q := fun _ _ ↦ True) fun _ _ _ _ _ ↦ trivial).bind fun _ _ hl₃ _ _ ↦
        (safe_appendDefinedFields home.id _ (hl₃.has ht₂)).searches
    cases base with
    | none => exact hrest r₁ _ ((hl.trans hl₁).has ht)
    | some b =>
      refine .ask_bind fun r₂ hl₂ _ ↦ ?_
      have hl₂' := (hl.trans hl₁).trans hl₂
      split
      · refine (hinherited b r₂ hl₂' (hl₂.has (hbase.1 b rfl))).bind fun l r₃ hl₃ _ _ ↦ ?_
        exact hrest r₃ _ ((hl₂'.trans hl₃).has ht)
      · exact hrest r₂ _ (hl₂'.has ht)
  · exact (safe_appendHostFields _ _).searches
  · exact hempty r

/-- The layout is known from then on. -/
theorem safe_layout : (fuel : Nat) → {t : TypeId} → {r₀ : Registry} → r₀.Has t →
    Safe Searches r₀ (layout fuel t) fun l r ↦ 0 < fuel ∧ r.facts.layouts[t]? = some l
  | 0, _, _, _ => .throw _
  | fuel + 1, t, r₀, ht => by
    unfold layout
    refine .ask_bind fun r hl hs ↦ ?_
    cases hknown : r.facts.layouts[t]? with
    | some l => exact .pure fun _ hl' _ ↦ ⟨Nat.succ_pos fuel, hl'.layouts _ _ hknown⟩
    | none =>
      refine (safe_buildLayout (hl.has ht) fun b _ _ hb ↦
        (safe_layout fuel hb).imp fun _ _ _ ↦ trivial).bind fun l r₁ hl₁ _ _ ↦ ?_
      refine (Safe.modify (Q := fun _ r ↦ ∃ l, r.facts.layouts[t]? = some l)
        fun r₂ _ hs₂ ↦ ?_).bind fun _ r₂ _ _ hkept ↦ ?_
      · have hstep : r₂.Searches { r₂ with facts := { r₂.facts with
            layouts := r₂.facts.layouts.insertIfNew t l } } :=
          { types := fun _ _ h ↦ h, methods := fun _ _ h ↦ h, names := fun _ _ h ↦ h
            layouts := fun _ _ h ↦ getElem?_insertIfNew_of_some h
            hosts := fun _ _ h ↦ h, bases := fun _ _ h ↦ h, declared := fun _ _ h ↦ h
            instances := fun _ _ h ↦ h, definitions := rfl, modules := rfl, host := rfl
            tokens := rfl }
        refine ⟨hstep, ?_, Option.isSome_iff_exists.mp (isSome_insertIfNew ..)⟩
        exact hs₂.later hstep.toLater (fun _ _ ↦ .inl) (fun _ _ ↦ .inl) (fun _ _ ↦ .inl)
          (fun _ _ ↦ .inl) (fun _ _ ↦ .inl) (fun _ _ ↦ .inl) (fun _ _ ↦ .inl)
      · obtain ⟨l', hkept⟩ := hkept
        refine ⟨fun r₃ _ hs₃ ↦ ⟨Forward.refl r₃, hs₃⟩, fun r₃ out r₄ hl₃ _ hx ↦ ?_⟩
        have hthere := hl₃.layouts _ _ hkept
        have hout : l' = out :=
          (congrArg (fun kept ↦ kept.getD l) hthere).symm.trans (EStateM.Result.ok.inj hx).1
        cases hx
        exact ⟨Nat.succ_pos fuel, hout ▸ hthere⟩

theorem settles_layout (fuel : Nat) (ht : r₀.Has t) :
    Settles z Searches r₀ (layout fuel t) (layout fuel t) fun _ _ ↦ True :=
  (Settles.of_known (safe_layout fuel ht) fun l r hkept hlast _ ↦ by
    obtain ⟨fuel, rfl⟩ := Nat.exists_eq_succ_of_ne_zero hkept.1.ne'
    exact layout_of_known (hlast.layouts _ _ hkept.2)).imp fun _ _ _ ↦ trivial

/-! ### Fields -/

/-- The search asks for layouts only, and they are remembered. -/
theorem settles_findField (fuel : Nat) (ht : r₀.Has t) (name : String) (isStatic : Option Bool) :
    Settles z Searches r₀ (findField fuel t name isStatic) (findField fuel t name isStatic)
      fun _ _ ↦ True := by
  unfold findField
  have hvisit (find : FieldLayout → Option Field) (t : TypeId) (r : Registry) (ht : r.Has t) :
      Settles z Searches r (visitWith (fun t ↦ return find (← layout fuel t)) t)
        (visitWith (fun t ↦ return find (← layout fuel t)) t)
        fun v _ ↦ ∀ f, v = .found f → True := by
    refine ((settles_layout fuel ht).bind fun l _ _ _ _ ↦
      .pure (Q := fun _ _ ↦ True) fun _ _ _ ↦ trivial).bind fun found _ _ _ _ ↦ ?_
    cases found <;> exact .pure fun _ _ _ _ _ ↦ trivial
  refine (settles_walk (Q := fun _ _ ↦ True) (P := fun _ ↦ True) (fun _ _ _ _ _ ↦ trivial)
    (fun _ _ _ _ ↦ trivial) (fun t r _ ht _ ↦ hvisit _ t r ht) fuel t (.refl r₀) ht
    fun _ ↦ trivial).bind fun found r hl _ _ ↦ ?_
  cases found with
  | some f => exact .pure fun _ _ _ ↦ trivial
  | none =>
    exact .ask_bind (fun r₁ hl₁ hlast ↦ hlast.typeName_eq ((hl.trans hl₁).has ht))
      fun _ _ _ ↦ .throw _

/-- The type that a field token belongs to is in the registry. -/
theorem safe_fieldOwner (home : ModuleId) (token : Token) (hc : r₀.HasContext c) :
    Safe Spells r₀ (fieldOwner home token c) fun out r ↦ r.Has out.1 := by
  unfold fieldOwner
  refine (Safe.lift (Q := fun _ _ ↦ True) fun _ _ _ _ _ ↦ trivial).bind fun m r₁ hl₁ _ _ ↦ ?_
  split
  · refine (Safe.lift (Q := fun _ _ ↦ True) fun _ _ _ _ _ ↦ trivial).bind fun row r₂ hl₂ _ _ ↦ ?_
    refine (settles_definedType (z := r₀) home _).toSafe.bind fun owner r₃ hl₃ _ howner ↦ ?_
    refine .ask_bind fun r hl _ ↦ ?_
    have hdeclaring := has_contextualOwner (hl.has howner)
      ((((hl₁.trans hl₂).trans hl₃).trans hl).hasContext hc)
    exact .pure fun _ hl' _ ↦ hl'.has hdeclaring
  · refine (Safe.lift (Q := fun _ _ ↦ True) fun _ _ _ _ _ ↦ trivial).bind fun ref r₂ hl₂ _ _ ↦ ?_
    split
    · exact .throw _
    · refine (settles_resolveSignature (z := r₀) home ((hl₁.trans hl₂).hasContext hc) _).toSafe.bind
        fun resolved r₃ _ _ hresolved ↦ ?_
      split
      · next declaring hdeclaring =>
        exact .pure fun _ hl _ ↦ hl.has (hresolved declaring hdeclaring)
      · exact .throw _
  · exact .throw _

/-- A type that does not depend on the context came out fixed. -/
theorem exists_fixed {resolved : Resolution} (h : resolved.type? = some t)
    (hfixed : (!resolved.isFixed) = false) : resolved = .fixed t := by
  cases resolved with
  | fixed t' =>
    cases h
    rfl
  | dependent _ | unbound _ => cases hfixed

/-- The owner of a field that was found without the context is found alike in any other one. -/
theorem fieldOwner_again {token : Token} {name : String} {kind : Option Bool} (hs : r.Sound)
    (hc : r.HasContext c) (hx : fieldOwner home token c r = .ok (t, name, kind, false) r')
    (hlast : r'.Later z) (hnames : z.Unambiguous) :
    fieldOwner home token d z = .ok (t, name, kind, false) z := by
  have hlater := ((safe_fieldOwner home token hc).ok (.refl r) hs hx).1.toLater.trans hlast
  unfold fieldOwner at hx ⊢
  obtain ⟨m, r₁, hm, hread⟩ := exists_of_bind hx
  obtain ⟨hmodule, rfl⟩ := ok_of_lift hm
  rw [bind_of_ok (lift_of_ok ((hlater.module_eq home).trans hmodule))]
  cases htable : token.table? with
  | none =>
    rw [htable] at hread
    cases hread
  | some table =>
    rw [htable] at hread
    cases table with
    | field =>
      obtain ⟨row, r₂, hlift, hrest⟩ := exists_of_bind hread
      obtain ⟨hrow, rfl⟩ := ok_of_lift hlift
      obtain ⟨owner, r₃, howner, hrest⟩ := exists_of_bind hrest
      rw [ask_bind] at hrest
      have hdefined := @settles_definedType r₂ z home (Module.typeToken row.owner)
      have hthere := hdefined.yields r₂ owner r₃ (.refl r₂) hs howner
      have hfixed := contextualOwner_fixed (c := c) (d := d) (z := z) hthere
      rcases hcontext : contextualOwner owner c r₃ with ⟨declaring, dependent⟩
      rw [hcontext] at hrest hfixed
      cases hrest
      refine (bind_of_ok (lift_of_ok hrow)).trans ?_
      refine (bind_of_ok (hdefined.again r₂ _ _ (.refl r₂) hs howner hlast hnames)).trans ?_
      rw [ask_bind, hfixed hlast rfl]
      rfl
    | memberRef =>
      obtain ⟨member, r₂, hlift, hrest⟩ := exists_of_bind hread
      obtain ⟨hmember, rfl⟩ := ok_of_lift hlift
      cases member with
      | method ref => cases hrest
      | field on fieldName =>
        obtain ⟨resolved, r₃, hresolved, hrest⟩ := exists_of_bind hrest
        have hsig := settles_resolveSignature (z := z) home hc on
        cases htype : resolved.type? with
        | none =>
          rw [htype] at hrest
          cases hrest
        | some declaring =>
          rw [htype] at hrest
          obtain ⟨hout, rfl⟩ := EStateM.Result.ok.inj hrest
          obtain ⟨rfl, rfl, rfl, hfixed⟩ : declaring = t ∧ fieldName = name ∧ none = kind ∧
              (!resolved.isFixed) = false := by simpa using hout
          obtain rfl := exists_fixed htype hfixed
          have hfinal := hsig.again r₂ _ _ (.refl r₂) hs hresolved hlast hnames
          rw [resolveSignature_closed home c d on (isOpen_of_fixed hresolved)] at hfinal
          exact (bind_of_ok (lift_of_ok hmember)).trans (bind_of_ok hfinal)
    | methodDef | methodSpec | typeRef | typeDef | typeSpec | userString => cases hread

end Registry

end ManagedMachine
