import ManagedMachine.Proofs.FieldLayouts

/-!
# Firm registries

Array and reference types come after the types inside of them and instantiations after what they
instantiate, and whatever a registry remembers, the types of locals, the fields in layouts and the
answers for tokens, is there. `Registry.Firm` says so of a registry. It holds of the empty one, and
every request keeps a sound registry firm, whether it succeeds or fails (`Registry.Request.firm`).

Positions of types are what this comes to in the end: a part has a smaller one than the whole, so
following parts ends. As for `Registry.Later`, the functions of the registry are gone through one by
one, here with the class `Firmly`, and every one of them promises besides that what it returns is
there.
-/

set_option autoImplicit false
set_option relaxedAutoImplicit false

namespace ManagedMachine

/-- A method with a body has a home. -/
theorem Method.exists_home {m : Method} {body : Body}
    (h : m.body? = some body) : ∃ home token, m.home? = some (home, token) := by
  unfold Method.body? at h
  unfold Method.home?
  split at h
  · exact ⟨_, _, rfl⟩
  · cases h

/-- The type is the one inside of an array or a reference, or the open type of an instantiation. -/
def Descriptor.ConsistsOf (d : Descriptor) (t : TypeId) : Prop :=
  d.element? = some t ∨ d.definition = some t

namespace Registry

variable {α : Type} {R : Registry → Registry → Prop} {r r' r₀ : Registry} {t e : TypeId}
  {c : GenericContext} {d : Descriptor} {x : RegistryM α} {Q : α → Registry → Prop}

/-! ### What is remembered -/

/-- All fields of a layout. -/
def fieldsOf (l : FieldLayout) : List Field := l.instance_ ++ l.statics

/-- What types consist of comes before them, and what is remembered is there. -/
structure Firm (r : Registry) : Prop where
  parts : ∀ (i : Nat) d e, r.types[i]? = some d → d.ConsistsOf e → e.index < i
  layouts : ∀ (t : TypeId) l, r.facts.layouts[t]? = some l → ∀ f ∈ fieldsOf l, r.Has f.declaring
  locals : ∀ (id : MethodId) ts, r.facts.locals[id]? = some ts → ∀ t ∈ ts, r.Has t
  types : ∀ (ref : Reference) t, r.tokens.types[ref]? = some t → r.Has t
  methods : ∀ (ref : Reference) id, r.tokens.methods[ref]? = some (some id) → r.HasMethod id
  fields : ∀ (ref : Reference) f, r.tokens.fields[ref]? = some f → r.Has f.declaring

/-- A registry that extends a firm one is firm if what it has beyond that one is. -/
theorem Firm.extends (h : r.Firm) (hr : r.Extends r')
    (parts : ∀ (i : Nat) d e, r'.types[i]? = some d → d.ConsistsOf e →
      r.types[i]? = some d ∨ e.index < i)
    (layouts : ∀ (t : TypeId) l, r'.facts.layouts[t]? = some l →
      r.facts.layouts[t]? = some l ∨ ∀ f ∈ fieldsOf l, r'.Has f.declaring)
    (locals : ∀ (id : MethodId) ts, r'.facts.locals[id]? = some ts →
      r.facts.locals[id]? = some ts ∨ ∀ t ∈ ts, r'.Has t)
    (types : ∀ (ref : Reference) t, r'.tokens.types[ref]? = some t →
      r.tokens.types[ref]? = some t ∨ r'.Has t)
    (methods : ∀ (ref : Reference) id, r'.tokens.methods[ref]? = some (some id) →
      r.tokens.methods[ref]? = some (some id) ∨ r'.HasMethod id)
    (fields : ∀ (ref : Reference) f, r'.tokens.fields[ref]? = some f →
      r.tokens.fields[ref]? = some f ∨ r'.Has f.declaring) : r'.Firm where
  parts i d e hd he := (parts i d e hd he).elim (fun hold ↦ h.parts i d e hold he) fun h ↦ h
  layouts t l hl := (layouts t l hl).elim
    (fun hold f hf ↦ hr.has (h.layouts t l hold f hf)) fun h ↦ h
  locals id ts hts := (locals id ts hts).elim
    (fun hold t ht ↦ hr.has (h.locals id ts hold t ht)) fun h ↦ h
  types ref t ht := (types ref t ht).elim (fun hold ↦ hr.has (h.types ref t hold)) fun h ↦ h
  methods ref id hid := (methods ref id hid).elim
    (fun hold ↦ hr.hasMethod (h.methods ref id hold)) fun h ↦ h
  fields ref f hf := (fields ref f hf).elim (fun hold ↦ hr.has (h.fields ref f hold)) fun h ↦ h

/-- What else is known does not matter. -/
theorem Firm.of_eq (h : r.Firm) (hr : r.Extends r') (htypes : r'.types = r.types)
    (hlayouts : r'.facts.layouts = r.facts.layouts) (hlocals : r'.facts.locals = r.facts.locals)
    (htokens : r'.tokens = r.tokens) : r'.Firm :=
  h.extends hr (fun _ _ _ hd _ ↦ .inl (htypes ▸ hd)) (fun _ _ hl ↦ .inl (hlayouts ▸ hl))
    (fun _ _ hts ↦ .inl (hlocals ▸ hts)) (fun _ _ ht ↦ .inl (htokens ▸ ht))
    (fun _ _ hid ↦ .inl (htokens ▸ hid)) fun _ _ hf ↦ .inl (htokens ▸ hf)

/-- A type may be added if what it consists of is there. -/
theorem Firm.push (h : r.Firm) (hd : ∀ e, d.ConsistsOf e → r.Has e)
    (hr : r.Extends r') (htypes : r'.types = r.types.push d) (hfacts : r'.facts = r.facts)
    (htokens : r'.tokens = r.tokens) : r'.Firm := by
  refine h.extends hr (fun i d' e hd' he ↦ ?_) (fun _ _ hl ↦ .inl (hfacts ▸ hl))
    (fun _ _ hts ↦ .inl (hfacts ▸ hts)) (fun _ _ ht ↦ .inl (htokens ▸ ht))
    (fun _ _ hid ↦ .inl (htokens ▸ hid)) fun _ _ hf ↦ .inl (htokens ▸ hf)
  rw [htypes, Array.getElem?_push] at hd'
  split at hd'
  · next hi =>
    cases hd'
    exact .inr (hi ▸ hd e he)
  · exact .inl hd'

/-! ### Computations that keep a registry firm -/

/-- Later, and firm if the first one was. -/
structure Firmly (r r' : Registry) : Prop extends Later r r' where
  firm : r.Firm → r'.Firm

instance : Forward Firmly where
  refl r := ⟨.refl r, id⟩
  trans h h' := ⟨h.toLater.trans h'.toLater, h'.firm ∘ h.firm⟩
  later h := h.toLater

theorem Safe.firmly [Forward R] (h : Safe R r₀ x Q)
    (hx : ∀ r, r₀.Later r → r.Sound → r.Firm → (endState x r).Firm) : Safe Firmly r₀ x Q :=
  ⟨fun r hl hs ↦ ⟨⟨Forward.later (h.keeps r hl hs).1, hx r hl hs⟩, (h.keeps r hl hs).2⟩, h.yields⟩

theorem Safe.firm (h : Safe Firmly r₀ x Q) (hl : r₀.Later r) (hs : r.Sound) (hf : r.Firm) :
    (endState x r).Firm :=
  (h.keeps r hl hs).1.firm hf

/-- What is found is noted where it does not matter. -/
theorem firm_of_noted {note : α → Registry → Registry} {y : RegistryM α}
    (h : Safe Firmly r x Q) (hy : y r = (x >>= fun a ↦ do modify (note a); return a) r)
    (hnote : ∀ a r', x r = .ok a r' → r'.Sound → r'.Firm → (note a r').Firm)
    (hs : r.Sound) (hf : r.Firm) : (endState y r).Firm := by
  have hfirm := h.firm (.refl r) hs hf
  cases hx : x r with
  | error e r₁ =>
    rw [endState_error hx] at hfirm
    rw [endState_error (hy.trans (bind_of_error hx))]
    exact hfirm
  | ok a r₁ =>
    rw [endState_ok hx] at hfirm
    rw [endState_ok (hy.trans ((bind_of_ok hx).trans rfl))]
    exact hnote a r₁ hx (h.ok (.refl r) hs hx).2 hfirm

/-! ### Types by name -/

theorem firm_intern (h : r.Firm) (hd : ∀ e, d.ConsistsOf e → r.Has e) :
    (endState (intern d) r).Firm := by
  cases hknown : r.names[d.name]? with
  | some t =>
    rw [endState_ok (intern_of_known hknown)]
    exact h
  | none =>
    have hr : r.Extends (endState (intern d) r) := grows_intern d r
    rw [endState_ok (intern_of_new hknown)] at hr ⊢
    exact h.push hd hr rfl rfl rfl

theorem firmly_makeArray (rank : UInt8) (he : r₀.Has e) :
    Safe Firmly r₀ (makeArray e rank) fun t r ↦ r.Has t :=
  (settles_makeArray (z := r₀) rank he).toSafe.firmly fun r hl _ hf ↦ by
    rw [endState, makeArray_eq]
    refine firm_intern hf fun e' hpart ↦ ?_
    rcases hpart with helement | ⟨⟨⟩⟩
    exact Option.some.inj helement ▸ hl.has he

theorem firmly_makeByRef (he : r₀.Has e) : Safe Firmly r₀ (makeByRef e) fun t r ↦ r.Has t :=
  (settles_makeByRef (z := r₀) he).toSafe.firmly fun r hl _ hf ↦ by
    rw [endState, makeByRef_eq]
    refine firm_intern hf fun e' hpart ↦ ?_
    rcases hpart with helement | ⟨⟨⟩⟩
    exact Option.some.inj helement ▸ hl.has he

theorem firmly_makeParameter (name : String) :
    Safe Firmly r₀ (makeParameter name) fun t r ↦ r.Has t :=
  (settles_makeParameter (z := r₀) name).toSafe.firmly fun _ _ _ hf ↦ firm_intern hf
    (by rintro _ (⟨⟨⟩⟩ | ⟨⟨⟩⟩))

/-- What a type consists of comes before it, so it is there. -/
theorem Firm.has_part (h : r.Firm) (ht : r.Has t) (he : (r.type t).ConsistsOf e) :
    e.index < t.index ∧ r.Has e := by
  have hlt := h.parts _ _ _ (getElem?_of_has ht) he
  exact ⟨hlt, hlt.trans ht⟩

/-- Names are regular in a firm registry unless a host type has a comma in its name. -/
theorem Firm.regular (h : r.Firm) (hcommas : ∀ (i : Nat) d, r.types[i]? = some d →
    d.isNative = true → d.definition = none → ',' ∉ d.name.toList) : r.Regular :=
  ⟨hcommas, fun i d g hd hg ↦ h.parts i d g hd (.inr hg)⟩

theorem Firm.has_openOf (h : r.Firm) (ht : r.Has t) : r.Has (r.openOf t) := by
  rw [openOf]
  cases hopen : (r.type t).definition with
  | none => exact ht
  | some g => exact (h.has_part ht (.inr hopen)).2

theorem firmly_makeInstance {args : List TypeId} (ht : r₀.Has t) (ha : ∀ a ∈ args, r₀.Has a) :
    Safe Firmly r₀ (makeInstance t args) fun t r ↦ r.Has t := by
  refine (settles_makeInstance (z := r₀) ht ha).toSafe.firmly fun r hl _ hf ↦ ?_
  by_cases harity : (r.type (r.openOf t)).generics.length = args.length
  · rw [endState, makeInstance_of_arity harity]
    have hopen := hf.has_openOf (hl.has ht)
    refine firm_intern hf fun e hpart ↦ ?_
    rcases hpart with helement | hdefinition
    · exact (hf.has_part hopen (.inl helement)).2
    · exact Option.some.inj hdefinition ▸ hopen
  · obtain ⟨e, he⟩ := makeInstance_of_mismatch harity
    rw [endState_error he]
    exact hf

theorem firmly_ofHostType (type : HostType) :
    Safe Firmly r₀ (ofHostType type) fun t r ↦ r.Has t := by
  refine (safe_ofHostType type).firmly fun r _ hs hf ↦ ?_
  have hr : r.Extends (endState (ofHostType type) r) := Building.ofHostType type r
  cases hknown : r.scoped_[type.scopedName]? with
  | some t =>
    rw [endState_ok (ofHostType_of_known hknown)]
    exact hf
  | none =>
    obtain ⟨r', hok, backed, rfl⟩ := ofHostType_of_new hknown
    rw [endState_ok hok] at hr ⊢
    exact hf.push (by rintro _ (⟨⟨⟩⟩ | ⟨⟨⟩⟩)) hr rfl rfl rfl

theorem firmly_lookup? (name : String) (scope : Option String) :
    Safe Firmly r₀ (lookup? name scope) fun found r ↦ ∀ t, found = some t → r.Has t := by
  refine ((safe_lookup? name scope).imp fun _ _ h t ht ↦ (h.1 t ht).1).firmly fun r _ hs hf ↦ ?_
  cases hknown : r.inScope? name scope <|> r.names[name]? with
  | some t =>
    rw [endState_ok (lookup?_of_known hknown)]
    exact hf
  | none =>
    cases hfind : HostLibrary.find? r.host.toList name scope with
    | none =>
      rw [endState_ok (lookup?_of_none hknown hfind)]
      exact hf
    | some type =>
      obtain ⟨t, r', hmade, -⟩ := ofHostType_ok hs type
      rw [endState_ok (lookup?_of_host hknown hfind hmade), ← endState_ok hmade]
      exact (firmly_ofHostType type).firm (.refl r) hs hf

theorem firmly_resolveIn (name : String) (scope : Option String) :
    Safe Firmly r₀ (resolveIn name scope) fun t r ↦ r.Has t := by
  unfold resolveIn
  refine (firmly_lookup? name scope).bind fun found r₁ _ _ hfound ↦ ?_
  cases found with
  | some t => exact .pure fun _ hl _ ↦ hl.has (hfound t rfl)
  | none =>
    dsimp only
    split
    · refine (firmly_lookup? _ scope).bind fun nested _ _ _ hnested ↦ ?_
      cases nested with
      | some t => exact .pure fun _ hl _ ↦ hl.has (hnested t rfl)
      | none => exact .throw _
    · exact .throw _

mutual

theorem firmly_resolveParsed {r₀ : Registry} : (name : TypeName) →
    Safe Firmly r₀ (resolveParsed name) fun t r ↦ r.Has t
  | .simple name scope => by
    unfold resolveParsed
    exact firmly_resolveIn name scope
  | .array element rank => by
    unfold resolveParsed
    exact (firmly_resolveParsed element).bind fun _ _ _ _ ht ↦ firmly_makeArray rank ht
  | .byRef inner => by
    unfold resolveParsed
    exact (firmly_resolveParsed inner).bind fun _ _ _ _ ht ↦ firmly_makeByRef ht
  | .generic head args => by
    unfold resolveParsed
    exact (firmly_resolveParsed head).bind fun _ _ _ _ ht ↦
      (firmly_resolveAllParsed args).bind fun _ _ hl _ hts ↦ firmly_makeInstance (hl.has ht) hts

theorem firmly_resolveAllParsed {r₀ : Registry} : (names : List TypeName) →
    Safe Firmly r₀ (resolveAllParsed names) fun ts r ↦ ∀ t ∈ ts, r.Has t
  | [] => by
    unfold resolveAllParsed
    exact .pure fun _ _ _ ↦ List.forall_mem_nil _
  | name :: rest => by
    unfold resolveAllParsed
    exact (firmly_resolveParsed name).bind fun _ _ _ _ ht ↦
      (firmly_resolveAllParsed rest).bind fun _ _ hl _ hts ↦
        .pure fun _ hl' _ ↦ List.forall_mem_cons.mpr
          ⟨(hl.trans hl').has ht, fun t' ht' ↦ hl'.has (hts t' ht')⟩

end

theorem firmly_addName {name : String} (ht : r₀.Has t) :
    Safe Firmly r₀ (addName name t) fun _ _ ↦ True :=
  (safe_addName ht).firmly fun r _ _ hf ↦ hf.of_eq (grows_addName name t r) rfl rfl rfl rfl

theorem firmly_resolve (name : String) : Safe Firmly r₀ (resolve name) fun t r ↦ r.Has t := by
  refine .ask_bind fun r _ hs ↦ ?_
  split
  · next t hknown => exact .pure fun _ hl _ ↦ hl.has (hs.names _ _ hknown)
  · split
    · exact .throw _
    · exact (firmly_resolveParsed _).bind fun _ _ _ _ ht ↦ (firmly_addName ht).bind fun _ _ hl _ _ ↦
        .pure fun _ hl' _ ↦ (hl.trans hl').has ht

theorem firmly_typeOfData (kind : HostKind) : Safe Firmly r₀ (typeOfData kind) fun _ _ ↦ True := by
  unfold typeOfData
  refine .get_bind fun r _ _ ↦ ?_
  split
  · exact .pure fun _ _ _ ↦ trivial
  · split
    · exact (firmly_ofHostType _).imp fun _ _ _ ↦ trivial
    · exact .throw _

/-! ### Types by signature -/

theorem firmly_definedType (home : ModuleId) (token : Token) :
    Safe Firmly r₀ (definedType home token) fun t r ↦ r.Has t := by
  refine .ask_bind fun r _ hs ↦ ?_
  cases hknown : r.definitions[Reference.mk home token]? with
  | none => exact .throw _
  | some t => exact .pure fun _ hl _ ↦ hl.has (hs.definitions _ _ hknown)

theorem firmly_wrapAround {wrap : TypeId → RegistryM TypeId} {found : Resolution} (closed : Bool)
    (hwrap : ∀ t, r₀.Has t → Safe Firmly r₀ (wrap t) fun t r ↦ r.Has t) (hfound : r₀.Bears found) :
    Safe Firmly r₀ (wrapAround wrap closed found) fun found r ↦ r.Bears found := by
  cases found with
  | fixed t =>
    exact (hwrap t (hfound t rfl)).bind fun t' _ _ _ ht' ↦
      .pure fun _ hl _ ↦ bears_of_type? (Resolution.type?_make t' closed) (hl.has ht')
  | dependent t =>
    exact (hwrap t (hfound t rfl)).bind fun _ _ _ _ ht' ↦
      .pure fun _ hl _ ↦ bears_of_type? rfl (hl.has ht')
  | unbound name => exact .pure fun _ _ _ ↦ bears_unbound

mutual

/-- A signature is resolved from its parts outwards, so what it is made of comes first. -/
theorem firmly_resolveSignature {r₀ : Registry} (home : ModuleId) {c : GenericContext}
    (hc : r₀.HasContext c) : (s : Signature) →
    Safe Firmly r₀ (resolveSignature home c s) fun found r ↦ r.Bears found
  | .definition token => by
    unfold resolveSignature
    exact (firmly_definedType home token).bind fun _ _ _ _ ht ↦
      .pure fun _ hl _ ↦ bears_of_type? rfl (hl.has ht)
  | .named name scope => by
    unfold resolveSignature
    exact (firmly_resolveIn name scope).bind fun _ _ _ _ ht ↦
      .pure fun _ hl _ ↦ bears_of_type? rfl (hl.has ht)
  | .parameter name => by
    unfold resolveSignature
    refine .ask_bind fun r hl hs ↦ ?_
    cases hfound : c.find? r name with
    | none => exact .pure fun _ _ _ ↦ bears_unbound
    | some t =>
      exact .pure fun _ hl' _ ↦
        bears_of_type? rfl (hl'.has ((hl.hasContext hc).find? hs hfound))
  | .byRef inner => by
    rw [resolveSignature_byRef]
    exact (firmly_resolveSignature home hc inner).bind fun _ _ _ _ hfound ↦
      firmly_wrapAround _ (fun _ ht ↦ firmly_makeByRef ht) hfound
  | .array element rank => by
    rw [resolveSignature_array]
    exact (firmly_resolveSignature home hc element).bind fun _ _ _ _ hfound ↦
      firmly_wrapAround _ (fun _ ht ↦ firmly_makeArray rank ht) hfound
  | .instantiation head args => by
    unfold resolveSignature
    refine (firmly_resolveSignature home hc head).bind fun found _ hl _ hfound ↦ ?_
    cases found with
    | unbound name => exact .pure fun _ _ _ ↦ bears_unbound
    | fixed t | dependent t =>
      exact (firmly_resolveArguments home (hl.hasContext hc) args).bind fun _ _ hl' _ hargs ↦
        (firmly_makeInstance (hl'.has (hfound t rfl)) hargs).bind fun t' _ _ _ ht' ↦
          .pure fun _ hl'' _ ↦ bears_of_type? (Resolution.type?_make t' _) (hl''.has ht')
  | .pointer inner => by
    unfold resolveSignature
    exact .throw _
  | .functionPointer => by
    unfold resolveSignature
    exact .throw _

theorem firmly_resolveArguments {r₀ : Registry} (home : ModuleId) {c : GenericContext}
    (hc : r₀.HasContext c) : (signatures : List Signature) →
    Safe Firmly r₀ (resolveArguments home c signatures) fun found r ↦ ∀ t ∈ found.1, r.Has t
  | [] => by
    unfold resolveArguments
    exact .pure fun _ _ _ ↦ List.forall_mem_nil _
  | s :: rest => by
    unfold resolveArguments
    refine (firmly_resolveSignature home hc s).bind fun found r₁ hl _ hfound ↦ ?_
    have hrest (r₂ : Registry) (hl₂ : r₁.Later r₂) (first : TypeId × Bool) (ht : r₂.Has first.1) :
        Safe Firmly r₂
          (do
            let (ts, restFixed) ← resolveArguments home c rest
            return (first.1 :: ts, first.2 && restFixed))
          fun found r ↦ ∀ t ∈ found.1, r.Has t :=
      (firmly_resolveArguments home ((hl.trans hl₂).hasContext hc) rest).bind
        fun _ _ hl₃ _ hts ↦ .pure fun _ hl₄ _ ↦ List.forall_mem_cons.mpr
          ⟨(hl₃.trans hl₄).has ht, fun t ht ↦ hl₄.has (hts t ht)⟩
    cases found with
    | fixed t => exact hrest r₁ (.refl r₁) (t, true) (hfound t rfl)
    | dependent t => exact hrest r₁ (.refl r₁) (t, false) (hfound t rfl)
    | unbound name =>
      exact (firmly_makeParameter name).bind fun t r₂ hl₂ _ ht ↦ hrest r₂ hl₂ (t, false) ht

end

theorem firmly_resolveType (home : ModuleId) (hc : r₀.HasContext c) (s : Signature) :
    Safe Firmly r₀ (resolveType home c s) fun t r ↦ r.Has t := by
  refine (firmly_resolveSignature home hc s).bind fun found _ _ _ hfound ↦ ?_
  cases found with
  | fixed t | dependent t => exact .pure fun _ hl _ ↦ hl.has (hfound t rfl)
  | unbound name => exact firmly_makeParameter name

theorem firmly_resolveTypes (home : ModuleId) (hc : r₀.HasContext c) (signatures : List Signature) :
    Safe Firmly r₀ (resolveTypes home c signatures) fun ts r ↦ ∀ t ∈ ts, r.Has t :=
  .mapM (Q := fun t r ↦ r.Has t) (fun _ _ _ ht hl ↦ hl.has ht) signatures fun s _ _ hl ↦
    firmly_resolveType home (hl.hasContext hc) s

theorem firmly_hostSignature {declaring : TypeId} (hd : r₀.Has declaring) (type : HostType)
    (params : List String) {args : List Binding} (ha : r₀.HasArgs args) (name : String) :
    Safe Firmly r₀ (hostSignature declaring type params args name) fun t r ↦ r.Has t := by
  refine .ask_bind fun r hl hs ↦ ?_
  split
  · next t hbound =>
    have hc : r.HasContext ⟨some declaring, args⟩ :=
      ⟨fun _ h ↦ Option.some.inj h ▸ hl.has hd, hl.hasArgs ha⟩
    exact .pure fun _ hl' _ ↦ hl'.has (hc.find? hs hbound)
  · split
    · exact firmly_makeParameter name
    · split
      · exact .throw _
      · split
        · exact firmly_resolveIn _ _
        · exact firmly_resolve _

/-! ### Bases and interfaces -/

/-- A type that is not there has no base type to find. -/
theorem firmly_findBase (r : Registry) (t : TypeId) :
    Safe Firmly r (findBase t (r.type t)) fun _ _ ↦ True := by
  have hsome {x : RegistryM TypeId} (hx : Safe Firmly r x fun b r ↦ r.Has b) :
      Safe Firmly r (do return some (← x)) fun _ _ ↦ True :=
    hx.bind fun _ _ _ _ _ ↦ .pure fun _ _ _ ↦ trivial
  have hnone : Safe Firmly r (pure none : RegistryM (Option TypeId)) fun _ _ ↦ True :=
    .pure fun _ _ _ ↦ trivial
  unfold findBase
  split
  · next hshape =>
    have ht : r.Has t := has_of_shape (hshape ▸ nofun)
    split
    · exact .throw _
    · split
      · exact hsome (firmly_resolveType _ (hasContext_ofType ht) _)
      · split
        · exact hnone
        · split <;> exact hsome (firmly_resolveIn _ _)
  · split
    · exact hsome (firmly_resolveIn _ _)
    · exact hnone
  · exact hsome (firmly_resolveIn _ _)
  · exact hnone
  · exact hnone

theorem firm_baseType (hs : r.Sound) (hf : r.Firm) (t : TypeId) :
    (endState (baseType t) r).Firm := by
  cases hknown : r.facts.bases[t]? with
  | some base =>
    rw [endState_ok (baseType_of_known hknown)]
    exact hf
  | none =>
    exact firm_of_noted (firmly_findBase r t) (baseType_of_new hknown)
      (fun _ _ _ _ hf' ↦ hf'.of_eq (.of_eq rfl rfl rfl rfl) rfl rfl rfl rfl) hs hf

theorem firmly_baseType (ht : r₀.Has t) :
    Safe Firmly r₀ (baseType t) fun base r ↦ ∀ b, base = some b → r.Has b :=
  ((settles_baseType (z := r₀) ht).toSafe.imp fun _ _ h ↦ h.1).firmly fun _ _ hs hf ↦
    firm_baseType hs hf t

theorem firmly_findInterfaces (r : Registry) (t : TypeId) :
    Safe Firmly r (findInterfaces t (r.type t)) fun _ _ ↦ True := by
  unfold findInterfaces
  split
  · next hshape =>
    have ht : r.Has t := has_of_shape (hshape ▸ nofun)
    split
    · exact (firmly_resolveTypes _ (hasContext_ofType ht) _).imp fun _ _ _ ↦ trivial
    · exact .pure fun _ _ _ ↦ trivial
  · exact (Safe.mapM (Q := fun _ _ ↦ True) (fun _ _ _ _ _ ↦ trivial) _ fun name _ _ _ ↦
      (firmly_resolveIn name _).imp fun _ _ _ ↦ trivial).imp fun _ _ _ ↦ trivial
  · exact .pure fun _ _ _ ↦ trivial

theorem firm_interfaces (hs : r.Sound) (hf : r.Firm) (t : TypeId) :
    (endState (interfaces t) r).Firm := by
  cases hknown : r.facts.interfaces[t]? with
  | some found =>
    rw [endState_ok (interfaces_of_known hknown)]
    exact hf
  | none =>
    exact firm_of_noted (firmly_findInterfaces r t) (interfaces_of_new hknown)
      (fun _ _ _ _ hf' ↦ hf'.of_eq (.of_eq rfl rfl rfl rfl) rfl rfl rfl rfl) hs hf

/-! ### Methods of types -/

theorem firmly_addMethod {m : Method} (hm : r₀.AdmitsMethod m) :
    Safe Firmly r₀ (addMethod m) fun id r ↦ r.HasMethod id :=
  (safe_addMethod hm).firmly fun r _ _ hf ↦ hf.of_eq (grows_addMethod m r) rfl rfl rfl rfl

theorem firmly_addDefinedMethods (home : Home) : (methods : List (Token × MethodDef)) →
    {r₀ : Registry} → r₀.Has t →
    Safe Firmly r₀ (addDefinedMethods home t methods) fun _ _ ↦ True
  | [], _, _ => .pure fun _ _ _ ↦ trivial
  | (token, def_) :: rest, r₀, ht => by
    unfold addDefinedMethods
    refine (firmly_resolveTypes _ (hasContext_ofType ht) _).bind fun params r₁ hl₁ _ _ ↦ ?_
    refine (firmly_resolveType _ (hasContext_ofType (hl₁.has ht)) _).bind fun ret r₂ hl₂ _ _ ↦ ?_
    have ht₂ := (hl₁.trans hl₂).has ht
    refine (firmly_addMethod (admitsMethod_plain ht₂ rfl rfl)).bind fun _ _ hl₃ _ _ ↦ ?_
    exact (firmly_addDefinedMethods home rest (hl₃.has ht₂)).bind fun _ _ _ _ _ ↦
      .pure fun _ _ _ ↦ trivial

theorem firmly_addHostMethods (type : HostType) : (methods : List HostMethod) →
    {r₀ : Registry} → r₀.Has t →
    Safe Firmly r₀ (addHostMethods type t methods) fun _ _ ↦ True
  | [], _, _ => .pure fun _ _ _ ↦ trivial
  | m :: rest, r₀, ht => by
    unfold addHostMethods
    refine (Safe.mapM (Q := fun t r ↦ r.Has t) (fun _ _ _ h hl ↦ hl.has h) m.params
      fun name _ r₁ hl ↦ firmly_hostSignature (hl.has ht) type m.generics hasArgs_nil name).bind
      fun params r₁ hl₁ _ _ ↦ ?_
    refine (firmly_hostSignature (hl₁.has ht) type m.generics hasArgs_nil m.ret).bind
      fun ret r₂ hl₂ _ _ ↦ ?_
    have ht₂ := (hl₁.trans hl₂).has ht
    refine (firmly_addMethod (admitsMethod_plain ht₂ rfl rfl)).bind fun _ _ hl₃ _ _ ↦ ?_
    exact (firmly_addHostMethods type rest (hl₃.has ht₂)).bind fun _ _ _ _ _ ↦
      .pure fun _ _ _ ↦ trivial

theorem firmly_declare (r : Registry) (t : TypeId) :
    Safe Firmly r (declare t (r.type t).shape) fun _ _ ↦ True := by
  unfold declare
  split
  · next hshape =>
    exact (Safe.lift (Q := fun _ _ ↦ True) fun _ _ _ _ _ ↦ trivial).bind fun _ _ hl _ _ ↦
      firmly_addDefinedMethods _ _ (hl.has (has_of_shape (hshape ▸ nofun)))
  · next hshape => exact firmly_addHostMethods _ _ (has_of_shape (hshape ▸ nofun))
  · exact .pure fun _ _ _ ↦ trivial

theorem firm_methodsOf (hs : r.Sound) (hf : r.Firm) (t : TypeId) :
    (endState (methodsOf t) r).Firm := by
  cases hknown : r.facts.methods[t]? with
  | some ids =>
    rw [endState_ok (methodsOf_of_known hknown)]
    exact hf
  | none =>
    exact firm_of_noted (firmly_declare r t) (methodsOf_of_new hknown)
      (fun _ _ _ _ hf' ↦ hf'.of_eq (.of_eq rfl rfl rfl rfl) rfl rfl rfl rfl) hs hf

theorem firmly_methodsOf (ht : r₀.Has t) :
    Safe Firmly r₀ (methodsOf t) fun ids r ↦ ∀ id ∈ ids, r.HasMethod id :=
  ((settles_methodsOf (z := r₀) ht).toSafe.imp fun _ _ h ↦ h.1).firmly fun _ _ hs hf ↦
    firm_methodsOf hs hf t

/-! ### Walks along the bases -/

/-- A walk finds what its visits find. -/
theorem firmly_walk {visit : TypeId → RegistryM (Visit α)}
    (hQ : ∀ a r r', Q a r → r.Later r' → Q a r')
    (hvisit : ∀ t r, r₀.Later r → r.Has t →
      Safe Firmly r (visit t) fun v r ↦ ∀ a, v = .found a → Q a r) :
    (fuel : Nat) → {t : TypeId} → {r : Registry} → r₀.Later r → r.Has t →
    Safe Firmly r (walk visit fuel t) fun found r ↦ ∀ a, found = some a → Q a r
  | 0, _, _, _, _ => .throw _
  | fuel + 1, t, r, hl, ht => by
    unfold walk
    refine (hvisit t r hl ht).bind fun visited r₁ hl₁ _ hvisited ↦ ?_
    cases visited with
    | found a =>
      exact .pure fun r₂ hl₂ _ a' ha' ↦ hQ a' r₁ r₂ (Option.some.inj ha' ▸ hvisited a rfl) hl₂
    | stop => exact .pure_none
    | onward =>
      refine (firmly_baseType (hl₁.has ht)).bind fun base r₂ hl₂ _ hbase ↦ ?_
      cases base with
      | none => exact .pure_none
      | some b => exact firmly_walk hQ hvisit fuel (hl.trans (hl₁.trans hl₂)) (hbase b rfl)

theorem firmly_firstHostBase (fuel : Nat) (ht : r₀.Has t) :
    Safe Firmly r₀ (firstHostBase fuel t) fun _ _ ↦ True := by
  have hvisit (t : TypeId) (r : Registry) : Safe Firmly r (visitWith (fun t ↦ ask fun r ↦
      if (r.type t).isNative then some t else none) t) fun v _ ↦ ∀ a, v = .found a → True :=
    .ask_bind fun _ _ _ ↦ by split <;> exact .pure fun _ _ _ _ _ ↦ trivial
  exact (firmly_walk (Q := fun _ _ ↦ True) (fun _ _ _ _ _ ↦ trivial)
    (fun t r _ _ ↦ hvisit t r) fuel (.refl r₀) ht).imp fun _ _ _ ↦ trivial

/-! ### Fields -/

theorem fieldsOf_appendField {l : FieldLayout} {name : String} {isStatic : Bool} {type : TypeId}
    {native : Option HostField} {f : Field}
    (hf : f ∈ fieldsOf (appendField l t name isStatic type native)) :
    f ∈ fieldsOf l ∨ f.declaring = t := by
  cases isStatic <;>
    simp only [fieldsOf, appendField, Bool.false_eq_true, if_false, if_true, List.mem_append,
      List.mem_singleton] at hf ⊢
  · rcases hf with (hf | rfl) | hf
    · exact .inl (.inl hf)
    · exact .inr rfl
    · exact .inl (.inr hf)
  · rcases hf with hf | hf | rfl
    · exact .inl (.inl hf)
    · exact .inl (.inr hf)
    · exact .inr rfl

/-- All fields that come on top are those of the type. -/
theorem firmly_appendDefinedFields (home : ModuleId) : (fields : List FieldDef) →
    {l : FieldLayout} → {r₀ : Registry} → r₀.Has t →
    Safe Firmly r₀ (appendDefinedFields home t l fields) fun l' _ ↦
      ∀ f ∈ fieldsOf l', f ∈ fieldsOf l ∨ f.declaring = t
  | [], _, _, _ => .pure fun _ _ _ _ hf ↦ .inl hf
  | field :: rest, l, r₀, ht => by
    unfold appendDefinedFields
    exact (firmly_resolveType home (hasContext_ofType ht) field.type).bind fun _ _ hl _ _ ↦
      (firmly_appendDefinedFields home rest (hl.has ht)).imp fun _ _ h f hf ↦
        (h f hf).elim fieldsOf_appendField .inr

theorem firmly_appendHostFields (moduleName : String) : (fields : List HostField) →
    {l : FieldLayout} → {r₀ : Registry} →
    Safe Firmly r₀ (appendHostFields moduleName t l fields) fun l' _ ↦
      ∀ f ∈ fieldsOf l', f ∈ fieldsOf l ∨ f.declaring = t
  | [], _, _ => .pure fun _ _ _ _ hf ↦ .inl hf
  | field :: rest, l, r₀ => by
    unfold appendHostFields
    exact (firmly_resolveIn _ _).bind fun _ _ _ _ _ ↦
      (firmly_appendHostFields moduleName rest).imp fun _ _ h f hf ↦
        (h f hf).elim fieldsOf_appendField .inr

/-- The types that declare the fields of a layout are there. -/
def Declared (l : FieldLayout) (r : Registry) : Prop := ∀ f ∈ fieldsOf l, r.Has f.declaring

/-- The own fields come on top of others, whose types are there. -/
theorem firmly_ownFields (home : Home) (token : Token) {start : FieldLayout} (ht : r₀.Has t)
    (hstart : ∀ r, r₀.Later r → r.Firm → Declared start r) :
    Safe Firmly r₀ (do
      let rows ← lift fun _ ↦ home.content.fieldsOf token
      appendDefinedFields home.id t start (rows.map Prod.snd))
      fun l r ↦ r.Firm → Declared l r := by
  refine (Safe.lift (Q := fun _ _ ↦ True) fun _ _ _ _ _ ↦ trivial).bind fun rows r₁ hl₁ _ _ ↦ ?_
  have happend := firmly_appendDefinedFields home.id (rows.map Prod.snd)
    (l := start) (hl₁.has ht)
  refine ⟨happend.keeps, fun r l r' hl hs hx hf f hmem ↦ ?_⟩
  have hl' : r₀.Later r' := (hl₁.trans hl).trans (happend.ok hl hs hx).1.toLater
  exact (happend.yields r l r' hl hs hx f hmem).elim (hstart r' hl' hf f) fun heq ↦
    heq ▸ hl'.has ht

theorem declared_empty : Declared .empty r := List.forall_mem_nil _

/-- All types that a layout names have been resolved before it is noted. -/
theorem firmly_buildLayout {inherited : TypeId → RegistryM FieldLayout} (ht : r₀.Has t)
    (hinherited : ∀ b r, r.Has b →
      Safe Firmly r (inherited b) fun l r ↦ r.facts.layouts[b]? = some l) :
    Safe Firmly r₀ (buildLayout inherited t) fun l r ↦ r.Firm → Declared l r := by
  unfold buildLayout
  refine .ask_bind fun r hl _ ↦ ?_
  split
  · next home token _ =>
    refine (firmly_baseType (hl.has ht)).bind fun base r₁ hl₁ _ hbase ↦ ?_
    have ht₁ := (hl.trans hl₁).has ht
    cases base with
    | none => exact firmly_ownFields home token ht₁ fun _ _ _ ↦ declared_empty
    | some b =>
      refine .ask_bind fun r₂ hl₂ _ ↦ ?_
      split
      · refine (hinherited b r₂ (hl₂.has (hbase b rfl))).bind fun l r₃ hl₃ _ hknown ↦ ?_
        refine firmly_ownFields home token (hl₃.has (hl₂.has ht₁)) fun r' hl' hf f hmem ↦ ?_
        refine hf.layouts b l (hl'.layouts _ _ hknown) f (List.mem_append_left _ ?_)
        exact (List.mem_append.mp hmem).elim id fun h ↦ nomatch h
      · exact firmly_ownFields home token (hl₂.has ht₁) fun _ _ _ ↦ declared_empty
  · next type _ =>
    have hosted : Safe Firmly r (appendHostFields type.moduleName t .empty type.fields)
        fun l _ ↦ ∀ f ∈ fieldsOf l, f ∈ fieldsOf .empty ∨ f.declaring = t :=
      firmly_appendHostFields type.moduleName type.fields
    refine ⟨hosted.keeps, fun r₁ l r₂ hl₁ hs₁ hx _ f hmem ↦ ?_⟩
    have ht₂ := (hl.trans (hl₁.trans (hosted.ok hl₁ hs₁ hx).1.toLater)).has ht
    exact (hosted.yields r₁ l r₂ hl₁ hs₁ hx f hmem).elim (fun h ↦ nomatch h) fun heq ↦ heq ▸ ht₂
  · exact .pure fun _ _ _ _ ↦ declared_empty

theorem Firm.withLayout {l : FieldLayout} (hf : r.Firm) (hl : Declared l r) :
    (r.withLayout t l).Firm :=
  hf.extends (notes_withLayout r t l).extends (fun _ _ _ hd _ ↦ .inl hd)
    (fun _ _ hl' ↦ (getElem?_insertIfNew_cases hl').imp_right fun heq ↦ by rw [heq]; exact hl)
    (fun _ _ ↦ .inl) (fun _ _ ↦ .inl) (fun _ _ ↦ .inl) fun _ _ ↦ .inl

/-- The layout is known from then on. -/
theorem firmly_layout : (fuel : Nat) → {t : TypeId} → {r₀ : Registry} → r₀.Has t →
    Safe Firmly r₀ (layout fuel t) fun l r ↦ r.facts.layouts[t]? = some l
  | 0, _, _, _ => .throw _
  | fuel + 1, t, r₀, ht => by
    refine ((safe_layout (fuel + 1) ht).imp fun _ _ h ↦ h.2).firmly fun r hl hs hf ↦ ?_
    have hbuild := firmly_buildLayout (hl.has ht) fun b r hb ↦ firmly_layout fuel hb
    have hfirm := hbuild.firm (.refl r) hs hf
    cases hknown : r.facts.layouts[t]? with
    | some l =>
      rw [endState_ok (layout_of_known hknown)]
      exact hf
    | none =>
      cases hx : buildLayout (layout fuel) t r with
      | error e r₁ =>
        rw [endState_error hx] at hfirm
        rw [endState_error ((layout_of_new hknown).trans (bind_of_error hx))]
        exact hfirm
      | ok l r₁ =>
        rw [endState_ok hx] at hfirm
        rw [endState_ok ((layout_of_new hknown).trans ((bind_of_ok hx).trans rfl))]
        exact hfirm.withLayout (hbuild.yields r l r₁ (.refl r) hs hx hfirm)

/-- The field stands in a known layout. -/
def Laying (r : Registry) (f : Field) : Prop :=
  ∃ (t : TypeId) (l : FieldLayout), r.facts.layouts[t]? = some l ∧ f ∈ fieldsOf l

theorem Firm.has_declaring {f : Field} (h : r.Firm) (hf : r.Laying f) : r.Has f.declaring := by
  obtain ⟨t, l, hl, hmem⟩ := hf
  exact h.layouts t l hl f hmem

theorem mem_fieldsOf_pick? {l : FieldLayout} {name : String} {kind : Option Bool} {f : Field}
    (h : l.pick? name kind = some f) : f ∈ fieldsOf l := by
  have hinstance (h : l.find? name = some f) : f ∈ fieldsOf l :=
    List.mem_append_left _ (List.mem_reverse.mp (List.mem_of_find?_eq_some h))
  have hstatic (h : l.findStatic? name = some f) : f ∈ fieldsOf l :=
    List.mem_append_right _ (List.mem_of_find?_eq_some h)
  match kind with
  | some true => exact hstatic h
  | some false => exact hinstance h
  | none =>
    rw [FieldLayout.pick?] at h
    cases hfind : l.find? name with
    | some g =>
      rw [hfind] at h
      exact hinstance (hfind.trans h)
    | none =>
      rw [hfind] at h
      exact hstatic h

theorem firmly_findField (fuel : Nat) (ht : r₀.Has t) (name : String) (kind : Option Bool) :
    Safe Firmly r₀ (findField fuel t name kind) fun f r ↦ r.Laying f := by
  have hlaying (f : Field) (r r' : Registry) (hf : r.Laying f) (hl : r.Later r') : r'.Laying f := by
    obtain ⟨t, l, hknown, hmem⟩ := hf
    exact ⟨t, l, hl.layouts _ _ hknown, hmem⟩
  have hvisit (t : TypeId) (r : Registry) (ht : r.Has t) :
      Safe Firmly r (visitWith (fun t ↦ return (← layout fuel t).pick? name kind) t)
        fun v r ↦ ∀ f, v = .found f → r.Laying f := by
    have hpick : Safe Firmly r (do return (← layout fuel t).pick? name kind)
        fun found r ↦ ∀ f, found = some f → r.Laying f :=
      (firmly_layout fuel ht).bind fun l _ _ _ hknown ↦ .pure fun r hl _ f hf ↦
        ⟨t, l, hl.layouts _ _ hknown, mem_fieldsOf_pick? hf⟩
    refine hpick.bind fun found _ _ _ hfound ↦ ?_
    cases found with
    | some f =>
      refine .pure fun r hl _ g hg ↦ ?_
      cases hg
      exact hlaying f _ r (hfound f rfl) hl
    | none => exact .pure fun _ _ _ _ h ↦ nomatch h
  have hwalk := firmly_walk hlaying (fun t r _ ↦ hvisit t r) fuel (.refl r₀) ht
  unfold findField
  refine Safe.bind hwalk fun found r hl _ hfound ↦ ?_
  cases found with
  | some f => exact .pure fun r' hl' _ ↦ hlaying f r r' (hfound f rfl) hl'
  | none => exact .ask_bind fun _ _ _ ↦ .throw _

/-! ### Answers for tokens -/

theorem firmly_fieldOwner (home : ModuleId) (token : Token) (hc : r₀.HasContext c) :
    Safe Firmly r₀ (fieldOwner home token c) fun out r ↦ r.Has out.1 := by
  unfold fieldOwner
  refine (Safe.lift (Q := fun _ _ ↦ True) fun _ _ _ _ _ ↦ trivial).bind fun m r₁ hl₁ _ _ ↦ ?_
  split
  · refine (Safe.lift (Q := fun _ _ ↦ True) fun _ _ _ _ _ ↦ trivial).bind fun row r₂ hl₂ _ _ ↦ ?_
    refine (firmly_definedType home _).bind fun owner r₃ hl₃ _ howner ↦ ?_
    refine .ask_bind fun r hl _ ↦ ?_
    have hdeclaring := has_contextualOwner (hl.has howner)
      ((((hl₁.trans hl₂).trans hl₃).trans hl).hasContext hc)
    exact .pure fun _ hl' _ ↦ hl'.has hdeclaring
  · refine (Safe.lift (Q := fun _ _ ↦ True) fun _ _ _ _ _ ↦ trivial).bind fun ref r₂ hl₂ _ _ ↦ ?_
    split
    · exact .throw _
    · refine (firmly_resolveSignature home ((hl₁.trans hl₂).hasContext hc) _).bind
        fun resolved r₃ _ _ hresolved ↦ ?_
      split
      · next declaring hdeclaring =>
        exact .pure fun _ hl _ ↦ hl.has (hresolved declaring hdeclaring)
      · exact .throw _
  · exact .throw _

theorem firmly_findFieldToken (fuel : Nat) (home : ModuleId) (token : Token)
    (hc : r₀.HasContext c) :
    Safe Firmly r₀ (findFieldToken fuel home token c) fun out r ↦ r.Firm → r.Has out.1.declaring :=
  (firmly_fieldOwner home token hc).bind fun _ _ _ _ ht ↦
    (firmly_findField fuel ht _ _).bind fun f _ _ _ hf ↦ .pure fun r hl _ hfirm ↦ by
      obtain ⟨t, l, hknown, hmem⟩ := hf
      exact hfirm.has_declaring ⟨t, l, hl.layouts _ _ hknown, hmem⟩

theorem firmly_findTypeToken (home : ModuleId) (token : Token) (hc : r₀.HasContext c) :
    Safe Firmly r₀ (findTypeToken home token c) fun out r ↦ r.Firm → r.Has out.1 := by
  unfold findTypeToken
  refine (Safe.lift (Q := fun _ _ ↦ True) fun _ _ _ _ _ ↦ trivial).bind fun m r₁ hl₁ _ _ ↦ ?_
  refine (Safe.lift (Q := fun _ _ ↦ True) fun _ _ _ _ _ ↦ trivial).bind fun s r₂ hl₂ _ _ ↦ ?_
  refine (firmly_resolveSignature home ((hl₁.trans hl₂).hasContext hc) s).bind
    fun found r₃ _ _ hfound ↦ ?_
  cases found with
  | fixed t | dependent t => exact .pure fun _ hl _ _ ↦ hl.has (hfound t rfl)
  | unbound name => exact .throw _

/-- An answer that is remembered, or found and then remembered unless it depends on the context. -/
theorem Remembers.firmly {find : RegistryM (α × Bool)} {look : Registry → Option α}
    {keep : α → Registry → Registry} {P : α → Registry → Prop} (h : Remembers x find look keep)
    (hfind : Safe Firmly r₀ find fun out r ↦ r.Firm → P out.1 r)
    (hknown : ∀ r a, look r = some a → r.Firm → P a r)
    (hlook : ∀ a r, look (keep a r) = some a)
    (hkeep : ∀ a r, r.Later (keep a r) ∧ (r.Sound → (keep a r).Sound) ∧
      (r.Firm → P a r → (keep a r).Firm)) :
    Safe Firmly r₀ x fun a r ↦ r.Firm → P a r := by
  refine ⟨fun r hl hs ↦ ?_, fun r a r' hl hs hx hf ↦ ?_⟩
  · cases hlooked : look r with
    | some a =>
      rw [endState_ok (h.known r a hlooked)]
      exact ⟨Forward.refl r, hs⟩
    | none =>
      obtain ⟨hstep, hsound⟩ := hfind.keeps r hl hs
      cases hfound : find r with
      | error e r₁ =>
        rw [endState_error hfound] at hstep hsound
        rw [endState_error (h.failed hlooked hfound)]
        exact ⟨hstep, hsound⟩
      | ok out r₁ =>
        obtain ⟨a, dependent⟩ := out
        rw [endState_ok hfound] at hstep hsound
        rw [endState_ok (h.found hlooked hfound)]
        cases dependent with
        | true => exact ⟨hstep, hsound⟩
        | false =>
          obtain ⟨hlater, hsound', hfirm⟩ := hkeep a r₁
          refine ⟨⟨hstep.toLater.trans hlater, fun hf ↦ ?_⟩, hsound' hsound⟩
          exact hfirm (hstep.firm hf) (hfind.yields r _ r₁ hl hs hfound (hstep.firm hf))
  · cases hlooked : look r with
    | some b =>
      cases (h.known r b hlooked).symm.trans hx
      exact hknown r a hlooked hf
    | none =>
      cases hfound : find r with
      | error e r₁ => cases (h.failed hlooked hfound).symm.trans hx
      | ok out r₁ =>
        obtain ⟨b, dependent⟩ := out
        cases (h.found hlooked hfound).symm.trans hx
        cases dependent with
        | true => exact hfind.yields r _ r₁ hl hs hfound hf
        | false => exact hknown _ _ (hlook a r₁) hf

theorem firmly_resolveTypeToken (home : ModuleId) (token : Token) (hc : r₀.HasContext c) :
    Safe Firmly r₀ (resolveTypeToken home token c) fun t r ↦ r.Firm → r.Has t :=
  (remembers_resolveTypeToken home token c).firmly (firmly_findTypeToken home token hc)
    (fun _ _ hlook hf ↦ hf.types _ _ hlook) (fun _ _ ↦ Std.HashMap.getElem?_insert_self)
    fun t r ↦ ⟨later_remember r _ r.reached, fun hs ↦ hs.remember _ r.reached, fun hf ht ↦
      hf.extends (later_remember r _ r.reached).toExtends (fun _ _ _ hd _ ↦ .inl hd)
        (fun _ _ ↦ .inl) (fun _ _ ↦ .inl)
        (fun _ _ hu ↦ (getElem?_insert_cases hu).imp_right fun heq ↦ by rw [heq.2]; exact ht)
        (fun _ _ ↦ .inl) fun _ _ ↦ .inl⟩

theorem firmly_resolveField (fuel : Nat) (home : ModuleId) (token : Token) (hc : r₀.HasContext c) :
    Safe Firmly r₀ (resolveField fuel home token c) fun f r ↦ r.Firm → r.Has f.declaring :=
  (remembers_resolveField fuel home token c).firmly (firmly_findFieldToken fuel home token hc)
    (fun _ _ hlook hf ↦ hf.fields _ _ hlook) (fun _ _ ↦ Std.HashMap.getElem?_insert_self)
    fun f r ↦ ⟨later_remember r _ r.reached, fun hs ↦ hs.remember _ r.reached, fun hf hd ↦
      hf.extends (later_remember r _ r.reached).toExtends (fun _ _ _ hd _ ↦ .inl hd)
        (fun _ _ ↦ .inl) (fun _ _ ↦ .inl) (fun _ _ ↦ .inl) (fun _ _ ↦ .inl)
        fun _ _ hg ↦ (getElem?_insert_cases hg).imp_right fun heq ↦ by rw [heq.2]; exact hd⟩

theorem firmly_resolveString (home : ModuleId) (token : Token) :
    Safe Firmly r₀ (resolveString home token) fun _ _ ↦ True := by
  refine ⟨fun r _ hs ↦ ?_, fun _ _ _ _ _ _ ↦ trivial⟩
  obtain ⟨strings, texts, hend⟩ := endState_resolveString r home token
  rw [hend]
  have hlater : r.Later { r with strings, tokens := { r.tokens with strings := texts } } :=
    { toExtends := .of_eq rfl rfl rfl rfl, hosts _ _ h := h, bases _ _ h := h, declared _ _ h := h
      instances _ _ h := h, definitions := rfl, modules := rfl, host := rfl }
  exact ⟨⟨hlater, fun hf ↦ hf.extends hlater.toExtends (fun _ _ _ hd _ ↦ .inl hd) (fun _ _ ↦ .inl)
    (fun _ _ ↦ .inl) (fun _ _ ↦ .inl) (fun _ _ ↦ .inl) fun _ _ ↦ .inl⟩,
    hs.of_eq rfl rfl rfl rfl rfl rfl rfl rfl⟩

/-! ### Methods by token -/

theorem firmly_instanceSignature {m : Method} (hm : r₀.Has m.declaring) {args : List Binding}
    (ha : r₀.HasArgs args) : Safe Firmly r₀ (instanceSignature m args) fun _ _ ↦ True := by
  have hc : r₀.HasContext ⟨some m.declaring, args⟩ := ⟨fun _ h ↦ Option.some.inj h ▸ hm, ha⟩
  unfold instanceSignature
  split
  · refine (Safe.lift fun _ _ _ _ _ ↦ trivial).bind fun row r₁ hl₁ _ _ ↦ ?_
    refine (firmly_resolveTypes _ (hl₁.hasContext hc) _).bind fun params r₂ hl₂ _ _ ↦ ?_
    exact (firmly_resolveType _ ((hl₁.trans hl₂).hasContext hc) _).bind fun _ _ _ _ _ ↦
      .pure fun _ _ _ ↦ trivial
  · refine .ask_bind fun r hl _ ↦ ?_
    split
    · exact .ask_bind fun _ _ _ ↦ .throw _
    · next type _ =>
      refine (Safe.mapM (Q := fun t r ↦ r.Has t) (fun _ _ _ h hl ↦ hl.has h) _
        fun name _ r₁ hl₁ ↦ firmly_hostSignature ((hl.trans hl₁).has hm) type _
          ((hl.trans hl₁).hasArgs ha) name).bind fun params r₁ hl₁ _ _ ↦ ?_
      exact (firmly_hostSignature ((hl.trans hl₁).has hm) type _ ((hl.trans hl₁).hasArgs ha)
        _).bind fun _ _ _ _ _ ↦ .pure fun _ _ _ ↦ trivial

/-- A method with arguments comes after the method and after its arguments. -/
theorem firmly_instantiateMethod {id : MethodId} {args : List TypeId} (hid : r₀.HasMethod id)
    (ha : ∀ t ∈ args, r₀.Has t) :
    Safe Firmly r₀ (instantiateMethod id args) fun found r ↦ r.HasMethod found := by
  refine ((safe_instantiateMethod hid ha).imp fun _ _ h ↦ h.1).firmly fun r hl hs hf ↦ ?_
  have hgeneric := hs.hasMethod_definition (hl.hasMethod hid)
  have hargs (names : List String) := hasArgs_zip names fun t ht ↦ hl.has (ha t ht)
  unfold instantiateMethod
  rw [endState_get_bind]
  dsimp only
  split
  · exact hf
  · split
    · exact hf
    · have hsignature := firmly_instanceSignature (hs.method hgeneric).1
        (hargs (r.method ((r.method id).definition.getD id)).generics)
      have hfirm := hsignature.firm (.refl r) hs hf
      cases hx : instanceSignature (r.method ((r.method id).definition.getD id)) _ r with
      | error e r₁ =>
        rw [endState_error hx] at hfirm
        rw [endState_error (bind_of_error hx)]
        exact hfirm
      | ok signature r₁ =>
        rw [endState_ok hx] at hfirm
        rw [endState_bind hx]
        exact hfirm.of_eq ⟨fun _ _ h ↦ h, fun _ _ h ↦ getElem?_push_of_some h, fun _ _ h ↦ h,
          fun _ _ h ↦ h⟩ rfl rfl rfl rfl

/-! ### References -/

theorem firmly_resolveInEither (home : ModuleId) {primary : GenericContext}
    (hp : r₀.HasContext primary) (hc : r₀.HasContext c) (s : Signature) :
    Safe Firmly r₀ (resolveInEither home s primary c) fun _ _ ↦ True := by
  refine (firmly_resolveSignature home hp s).bind fun found _ hl _ _ ↦ ?_
  cases found with
  | fixed t | dependent t => exact .pure fun _ _ _ ↦ trivial
  | unbound name => exact (firmly_resolveType home (hl.hasContext hc) s).imp fun _ _ _ ↦ trivial

theorem firmly_paramsAgree (home : ModuleId) {primary : GenericContext} :
    (signatures : List Signature) → (types : List TypeId) → {r₀ : Registry} →
    r₀.HasContext primary → r₀.HasContext c →
    Safe Firmly r₀ (paramsAgree home primary c signatures types) fun _ _ ↦ True
  | s :: signatures, t :: types, r₀, hp, hc => by
    unfold paramsAgree
    refine (firmly_resolveInEither home hp hc s).bind fun t' _ hl _ _ ↦ ?_
    split
    · exact firmly_paramsAgree home signatures types (hl.hasContext hp) (hl.hasContext hc)
    · exact .pure fun _ _ _ ↦ trivial
  | [], _, _, _, _ => .pure fun _ _ _ ↦ trivial
  | _ :: _, [], _, _, _ => .pure fun _ _ _ ↦ trivial

theorem firmly_fitting (home : ModuleId) (ref : MethodRef) : (ids : List MethodId) →
    {r₀ : Registry} → (∀ id ∈ ids, r₀.HasMethod id) → r₀.HasContext c →
    Safe Firmly r₀ (fitting home ref c ids) fun out _ ↦ out ⊆ ids
  | [], _, _, _ => .pure fun _ _ _ ↦ List.Subset.refl _
  | id :: rest, r₀, hids, hc => by
    unfold fitting
    refine .ask_bind fun r hl hs ↦ ?_
    have hothers (fits : Bool) (r₁ : Registry) (hl₁ : r₀.Later r₁) :
        Safe Firmly r₁
          (do
            let others ← fitting home ref c rest
            return if fits then id :: others else others)
          fun out _ ↦ out ⊆ id :: rest := by
      refine (firmly_fitting home ref rest (fun id' h ↦ hl₁.hasMethod (hids id' (.tail _ h)))
        (hl₁.hasContext hc)).bind fun others _ _ _ hothers ↦ .pure fun _ _ _ ↦ ?_
      split
      · exact List.cons_subset_cons id hothers
      · exact List.subset_cons_of_subset id hothers
    split
    · exact (firmly_paramsAgree home _ _ (hasContext_ofMethod hs (hl.hasMethod (hids id (.head _))))
        (hl.hasContext hc)).bind fun fits r₁ hl₁ _ _ ↦ hothers fits r₁ (hl.trans hl₁)
    · exact hothers false r hl

theorem firmly_byReturnType (home : ModuleId) (ref : MethodRef) : (ids : List MethodId) →
    {r₀ : Registry} → (∀ id ∈ ids, r₀.HasMethod id) → r₀.HasContext c →
    Safe Firmly r₀ (byReturnType home ref c ids) fun _ _ ↦ True
  | [], _, _, _ => .pure fun _ _ _ ↦ trivial
  | id :: rest, r₀, hids, hc => by
    unfold byReturnType
    refine .ask_bind fun r hl hs ↦ ?_
    refine (firmly_resolveInEither home (hasContext_ofMethod hs (hl.hasMethod (hids id (.head _))))
      (hl.hasContext hc) ref.ret).bind fun t r₁ hl₁ _ _ ↦ ?_
    split
    · exact .pure fun _ _ _ ↦ trivial
    · have hl₀ := hl.trans hl₁
      exact firmly_byReturnType home ref rest (fun id' h ↦ hl₀.hasMethod (hids id' (.tail _ h)))
        (hl₀.hasContext hc)

theorem firmly_findOn (home : ModuleId) (ref : MethodRef) (ht : r₀.Has t) (hc : r₀.HasContext c) :
    Safe Firmly r₀ (findOn home ref c t) fun _ _ ↦ True := by
  unfold findOn
  refine (firmly_methodsOf ht).bind fun ids r₁ hl₁ _ hids ↦ ?_
  refine (firmly_fitting home ref ids hids (hl₁.hasContext hc)).bind fun found r₂ hl₂ _ hfound ↦ ?_
  split
  · exact .pure fun _ _ _ ↦ trivial
  · exact .pure fun _ _ _ ↦ trivial
  · exact (firmly_byReturnType home ref _ (fun id h ↦ hl₂.hasMethod (hids id (hfound h)))
      ((hl₁.trans hl₂).hasContext hc)).bind fun _ _ _ _ _ ↦ .pure fun _ _ _ ↦ trivial

theorem firmly_findReferenced (fuel : Nat) (home : ModuleId) (ref : MethodRef) (ht : r₀.Has t)
    (hc : r₀.HasContext c) :
    Safe Firmly r₀ (findReferenced fuel home ref c t)
      fun found r ↦ ∀ id, found = some id → r.HasMethod id := by
  refine (safe_findReferenced fuel home ref ht hc).firmly fun r hl hs hf ↦ ?_
  suffices h : Safe Firmly r (findReferenced fuel home ref c t) fun _ _ ↦ True from
    h.firm (.refl r) hs hf
  unfold findReferenced
  refine (firmly_walk (Q := fun _ _ ↦ True) (fun _ _ _ _ _ ↦ trivial) (fun u r₁ hl₁ hu ↦ ?_) fuel hl
    (hl.has ht)).imp fun _ _ _ ↦ trivial
  refine (firmly_findOn home ref hu (hl₁.hasContext hc)).bind fun found _ _ _ _ ↦ ?_
  cases found <;> exact .pure fun _ _ _ _ _ ↦ trivial

theorem firmly_adaptorCounterpart (fuel : Nat) (declaring : TypeId) (hc : r₀.HasContext c) :
    Safe Firmly r₀ (adaptorCounterpart fuel declaring c) fun found r ↦
      ∀ t, found = some t → r.Has t := by
  unfold adaptorCounterpart
  split
  · exact .pure_none
  · next current hcurrent =>
    refine (firmly_firstHostBase fuel (hc.1 current hcurrent)).bind fun hostBase r₁ _ _ _ ↦ ?_
    cases hostBase with
    | none => exact .pure_none
    | some b =>
      refine .get_bind fun r hl hs ↦ ?_
      split
      · exact .pure_none
      · split
        · exact (firmly_ofHostType _).bind fun t _ _ _ ht ↦
            .pure fun _ hl _ _ h ↦ Option.some.inj h ▸ hl.has ht
        · exact .pure_none

/-- A reference to a method is looked for in the types above its parent, all of which are there. -/
theorem firmly_resolveMethodRef (fuel : Nat) (home : ModuleId) (token : Token) (ref : MethodRef)
    (hc : r₀.HasContext c) :
    Safe Firmly r₀ (resolveMethodRef fuel home token ref c) fun _ _ ↦ True := by
  unfold resolveMethodRef
  refine (firmly_resolveSignature home hc ref.on).bind fun resolved r₁ hl₁ _ hresolved ↦ ?_
  cases resolved with
  | unbound name => exact .throw _
  | fixed declaring | dependent declaring =>
    refine .ask_bind fun r hl hs ↦ ?_
    dsimp only
    split
    · exact .pure fun _ _ _ ↦ trivial
    · refine (firmly_findReferenced fuel home ref (hl.has (hresolved declaring rfl))
        ((hl₁.trans hl).hasContext hc)).bind fun found r₂ hl₂ _ _ ↦ ?_
      cases found with
      | some id => exact .pure fun _ _ _ ↦ trivial
      | none =>
        refine (firmly_adaptorCounterpart fuel declaring
          (((hl₁.trans hl).trans hl₂).hasContext hc)).bind fun counterpart r₃ hl₃ _ ht ↦ ?_
        cases counterpart with
        | none => exact .throw _
        | some t =>
          refine (firmly_findReferenced fuel home ref (ht t rfl)
            ((((hl₁.trans hl).trans hl₂).trans hl₃).hasContext hc)).bind fun found r₄ _ _ _ ↦ ?_
          cases found with
          | none => exact .throw _
          | some id => exact .pure fun _ _ _ ↦ trivial

/-- A token leads to a method of the registry, through however many other tokens. -/
theorem firmly_findMethodToken (home : ModuleId) : (fuel : Nat) → (token : Token) →
    {r₀ : Registry} → r₀.HasContext c →
    Safe Firmly r₀ (findMethodToken home c fuel token)
      fun found r ↦ ∀ id, found.1 = some id → r.HasMethod id
  | 0, _, _, _ => .throw _
  | fuel + 1, token, r₀, hc => by
    refine (safe_findMethodToken home (fuel + 1) token hc).firmly fun r hl hs hf ↦ ?_
    suffices h : Safe Firmly r (findMethodToken home c (fuel + 1) token) fun _ _ ↦ True from
      h.firm (.refl r) hs hf
    have hc := hl.hasContext hc
    unfold findMethodToken
    refine (Safe.lift (Q := fun _ _ ↦ True) fun _ _ _ _ _ ↦ trivial).bind fun m r₁ hl₁ _ _ ↦ ?_
    split
    · refine (Safe.lift (Q := fun _ _ ↦ True) fun _ _ _ _ _ ↦ trivial).bind
        fun row r₂ hl₂ _ _ ↦ ?_
      refine (firmly_definedType home _).bind fun owner r₃ hl₃ _ howner ↦ ?_
      refine .ask_bind fun r' hl' _ ↦ ?_
      have hdeclaring := has_contextualOwner (hl'.has howner)
        ((((hl₁.trans hl₂).trans hl₃).trans hl').hasContext hc)
      refine (firmly_methodsOf hdeclaring).bind fun ids r₄ _ _ _ ↦ ?_
      split
      · exact .pure fun _ _ _ ↦ trivial
      · exact .throw _
    · refine (Safe.lift (Q := fun _ _ ↦ True) fun _ _ _ _ _ ↦ trivial).bind
        fun ref r₂ hl₂ _ _ ↦ ?_
      split
      · exact firmly_resolveMethodRef fuel home token _ ((hl₁.trans hl₂).hasContext hc)
      · exact .throw _
    · refine (Safe.lift (Q := fun _ _ ↦ True) fun _ _ _ _ _ ↦ trivial).bind
        fun spec r₂ hl₂ _ _ ↦ ?_
      refine (firmly_findMethodToken home fuel spec.method ((hl₁.trans hl₂).hasContext hc)).bind
        fun found r₃ hl₃ _ hfound ↦ ?_
      split
      · exact .pure fun _ _ _ ↦ trivial
      · next generic dependent =>
        refine (firmly_resolveArguments home (((hl₁.trans hl₂).trans hl₃).hasContext hc)
          spec.args).bind fun args r₄ hl₄ _ hargs ↦ ?_
        exact (firmly_instantiateMethod (hl₄.hasMethod (hfound generic rfl)) hargs).bind
          fun _ _ _ _ _ ↦ .pure fun _ _ _ ↦ trivial
    · exact .throw _

/-- An answer for a token is kept only after it has been found. -/
theorem firmly_resolveUse (fuel : Nat) {use : TokenUse} (hc : r₀.HasContext use.context) :
    Safe Firmly r₀ (resolveUse fuel use) fun found r ↦
      r.Firm → ∀ id, found = some id → r.HasMethod id := by
  have hkeep (r : Registry) (found : Option MethodId) (dependent : Bool)
      (reached : Std.HashMap MethodId Unit) (hf : r.Firm)
      (hfound : ∀ id, found = some id → r.HasMethod id) : Firm { r with
        tokens := { r.tokens with
          methods := if dependent then r.tokens.methods
            else r.tokens.methods.insert ⟨use.module, use.token⟩ found }
        reached } := by
    refine hf.extends (later_remember r _ reached).toExtends (fun _ _ _ hd _ ↦ .inl hd)
      (fun _ _ ↦ .inl) (fun _ _ ↦ .inl) (fun _ _ ↦ .inl) (fun ref id hid ↦ ?_) fun _ _ ↦ .inl
    cases dependent with
    | true => exact .inl hid
    | false => exact (getElem?_insert_cases hid).imp_right fun heq ↦ hfound id heq.2.symm
  have hfind (r : Registry) (hl : r₀.Later r) : Safe Firmly r (findUse fuel use)
      fun found r ↦ ∀ id, found.1 = some id → r.HasMethod id :=
    firmly_findMethodToken use.module fuel use.token (hl.hasContext hc)
  refine ⟨fun r hl hs ↦ ?_, fun r found r' hl hs hx hf id hid ↦ ?_⟩
  · obtain ⟨hlater, hsound, -⟩ := resolveUse_step fuel hs (hl.hasContext hc)
    refine ⟨⟨hlater, fun hf ↦ ?_⟩, hsound⟩
    have hfirm := (hfind r hl).firm (.refl r) hs hf
    cases hknown : r.known? use with
    | some found =>
      rw [endState_ok (resolveUse_of_known hknown)]
      exact hf
    | none =>
      cases hx : findUse fuel use r with
      | error e r₁ =>
        rw [endState_error hx] at hfirm
        rw [endState_error (resolveUse_of_error hknown hx)]
        exact hfirm
      | ok out r₁ =>
        obtain ⟨found, dependent⟩ := out
        rw [endState_ok hx] at hfirm
        obtain ⟨r₂, hok, reached, rfl⟩ := resolveUse_of_found hknown hx
        rw [endState_ok hok]
        exact hkeep r₁ found dependent reached hfirm ((hfind r hl).yields r _ r₁ (.refl r) hs hx)
  · cases hknown : r.known? use with
    | some found' =>
      cases (resolveUse_of_known hknown).symm.trans hx
      subst hid
      exact hf.methods _ _ hknown
    | none =>
      cases hfound : findUse fuel use r with
      | error e r₁ => cases (resolveUse_of_error hknown hfound).symm.trans hx
      | ok out r₁ =>
        obtain ⟨found', dependent⟩ := out
        obtain ⟨r₂, hok, reached, rfl⟩ := resolveUse_of_found hknown hfound
        cases hok.symm.trans hx
        exact (hfind r hl).yields r _ r₁ (.refl r) hs hfound id hid

theorem firmly_resolveMethod (fuel : Nat) (home : ModuleId) (token : Token)
    (hc : r₀.HasContext c) : Safe Firmly r₀ (resolveMethod fuel home token c) fun found r ↦
      r.Firm → ∀ id, found = some id → r.HasMethod id :=
  have hcontext : r₀.HasContext (TokenUse.mk home token c).context := hc
  firmly_resolveUse fuel hcontext

/-! ### Locals -/

/-- The registry in which the locals of a method are known. -/
def withLocals (r : Registry) (id : MethodId) (ts : List TypeId) : Registry :=
  { r with facts := { r.facts with locals := r.facts.locals.insert id ts } }

theorem localsOf_of_known {id : MethodId} {ts : List TypeId} (h : r.facts.locals[id]? = some ts) :
    localsOf id r = .ok ts r := by
  rw [localsOf, get_bind_apply, h]
  rfl

theorem localsOf_of_new {id : MethodId} {body : Body} {home : Home} {token : Token}
    (h : r.facts.locals[id]? = none) (hbody : (r.method id).body? = some body)
    (hhome : (r.method id).home? = some (home, token)) :
    localsOf id r = (resolveTypes home.id (.ofMethod (r.method id)) body.locals >>= fun ts ↦ do
      modify fun r ↦ r.withLocals id ts
      return ts) r := by
  rw [localsOf, get_bind_apply, h]
  simp only [hbody, hhome]
  rfl

theorem localsOf_of_missing {id : MethodId} (h : r.facts.locals[id]? = none)
    (hmissing : (r.method id).body? = none) :
    localsOf id r = .error (.missingBody (r.fullName (r.method id))) r := by
  rw [localsOf, get_bind_apply, h]
  simp only [hmissing]
  rfl

theorem firm_withLocals {id : MethodId} {ts : List TypeId} (hf : r.Firm) (hts : ∀ t ∈ ts, r.Has t) :
    (r.withLocals id ts).Firm :=
  hf.extends (.of_eq rfl rfl rfl rfl) (fun _ _ _ hd _ ↦ .inl hd) (fun _ _ ↦ .inl)
    (fun _ _ hts' ↦ (getElem?_insert_cases hts').imp_right fun heq ↦ by rw [heq.2]; exact hts)
    (fun _ _ ↦ .inl) (fun _ _ ↦ .inl) fun _ _ ↦ .inl

/-- The types of locals are there. -/
theorem firmly_localsOf {id : MethodId} (hid : r₀.HasMethod id) :
    Safe Firmly r₀ (localsOf id) fun ts r ↦ r.Firm → ∀ t ∈ ts, r.Has t := by
  have htypes (r : Registry) (hl : r₀.Later r) (hs : r.Sound) (home : ModuleId) (body : Body) :
      Safe Firmly r (resolveTypes home (.ofMethod (r.method id)) body.locals)
        fun ts r ↦ ∀ t ∈ ts, r.Has t :=
    firmly_resolveTypes home (hasContext_ofMethod hs (hl.hasMethod hid)) body.locals
  refine ⟨((safe_localsOf hid).firmly fun r hl hs hf ↦ ?_).keeps, fun r ts r' hl hs hx hf ↦ ?_⟩
  · cases hknown : r.facts.locals[id]? with
    | some ts =>
      rw [endState_ok (localsOf_of_known hknown)]
      exact hf
    | none =>
      cases hbody : (r.method id).body? with
      | none =>
        rw [endState_error (localsOf_of_missing hknown hbody)]
        exact hf
      | some body =>
        obtain ⟨home, token, hhome⟩ := Method.exists_home hbody
        exact firm_of_noted (htypes r hl hs home.id body) (localsOf_of_new hknown hbody hhome)
          (fun ts r₁ hx _ hf' ↦ firm_withLocals hf'
            ((htypes r hl hs home.id body).yields r ts r₁ (.refl r) hs hx)) hs hf
  · cases hknown : r.facts.locals[id]? with
    | some ts' =>
      cases (localsOf_of_known hknown).symm.trans hx
      exact hf.locals _ _ hknown
    | none =>
      cases hbody : (r.method id).body? with
      | none => cases (localsOf_of_missing hknown hbody).symm.trans hx
      | some body =>
        obtain ⟨home, token, hhome⟩ := Method.exists_home hbody
        rw [localsOf_of_new hknown hbody hhome] at hx
        obtain ⟨found, r₁, hfound, hlast⟩ := exists_of_bind hx
        cases hlast
        exact (htypes r hl hs home.id body).yields r ts r₁ (.refl r) hs hfound

/-! ### Modules -/

theorem firm_addDefinitions (home : Home) : (defs : List (Nat × TypeDef)) → {r : Registry} →
    r.Firm → (endState (addDefinitions home defs) r).Firm
  | [], _, hf => hf
  | (position, def_) :: rest, r, hf => by
    have hpush {r' : Registry} (hr : r.Extends r')
        (htypes : r'.types = r.types.push (definedAs home position def_))
        (hfacts : r'.facts = r.facts) (htokens : r'.tokens = r.tokens) : r'.Firm :=
      hf.push (by rintro _ (⟨⟨⟩⟩ | ⟨⟨⟩⟩)) hr htypes hfacts htokens
    have hr : r.Extends (endState (addDefinitions home [(position, def_)]) r) :=
      grows_addDefinitions home [(position, def_)] r
    by_cases htaken : definitionName def_ ∈ r.names
    · rw [endState_error (addDefinitions_of_taken [] htaken)] at hr
      rw [endState_error (addDefinitions_of_taken rest htaken)]
      exact hpush hr rfl rfl rfl
    · rw [endState, addDefinitions_of_free [] htaken] at hr
      rw [endState, addDefinitions_of_free rest htaken]
      exact firm_addDefinitions home rest (hpush hr rfl rfl rfl)

/-- Definitions have no parts, so a load cannot get in the way, also one that fails. -/
theorem firm_loadModule (hf : r.Firm) (m : Module) : (endState (loadModule m) r).Firm := by
  cases hloaded : r.loaded? m with
  | some id =>
    rw [endState_ok (loadModule_of_loaded hloaded)]
    exact hf
  | none =>
    by_cases htaken : ∃ name ∈ definitionNames m, name ∈ r.names
    · obtain ⟨e, he⟩ := loadModule_of_taken hloaded htaken
      rw [endState_error he]
      exact hf
    · rw [endState, loadModule_of_free hloaded fun name hname hmem ↦ htaken ⟨name, hname, hmem⟩]
      generalize List.map _ m.types.toList.zipIdx = defs
      have hadded := firm_addDefinitions ⟨⟨r.modules.size⟩, m⟩ defs
        (r := { r with modules := r.modules.push m })
        (hf.of_eq (.of_eq rfl rfl rfl rfl) rfl rfl rfl rfl)
      cases hx : addDefinitions ⟨⟨r.modules.size⟩, m⟩ defs
        { r with modules := r.modules.push m } with
      | error e r₁ =>
        rw [endState_error hx] at hadded
        rw [bind_of_error hx]
        exact hadded
      | ok _ r₁ =>
        rw [endState_ok hx] at hadded
        rw [bind_of_ok hx]
        change (endState (finishLoad m ⟨r.modules.size⟩) r₁).Firm
        unfold finishLoad
        split
        · exact hadded.of_eq (.of_eq rfl rfl rfl rfl) rfl rfl rfl rfl
        · exact hadded

/-! ### Requests -/

/-- The computation leaves a registry that is sound and firm so. -/
def FirmAfter (r r' : Registry) : Prop := r.Sound ∧ r.Firm → r'.Sound ∧ r'.Firm

instance : IsPreorder Registry FirmAfter where
  refl _ h := h
  trans _ _ _ h h' := h' ∘ h

instance : Climbing FirmAfter where
  baseType t r h := ⟨soundAfter_baseType t r h.1, firm_baseType h.1 h.2 t⟩
  interfaces t r h := ⟨soundAfter_interfaces t r h.1, firm_interfaces h.1 h.2 t⟩
  methodsOf t r h := ⟨soundAfter_methodsOf t r h.1, firm_methodsOf h.1 h.2 t⟩

/-- A request leaves a sound registry firm. -/
theorem Request.firm (hx : r.Request x) (hs : r.Sound) (hf : r.Firm) : (endState x r).Firm := by
  cases hx with
  | loadModule m => exact firm_loadModule hf m
  | addHostModule m => exact hf.of_eq (.of_eq rfl rfl rfl rfl) rfl rfl rfl rfl
  | registerAdaptor f => exact hf.of_eq (.of_eq rfl rfl rfl rfl) rfl rfl rfl rfl
  | ofHostType type => exact (firmly_ofHostType type).firm (.refl r) hs hf
  | typeOfData kind => exact (firmly_typeOfData kind).firm (.refl r) hs hf
  | resolve name => exact (firmly_resolve name).firm (.refl r) hs hf
  | resolveIn name scope => exact (firmly_resolveIn name scope).firm (.refl r) hs hf
  | makeArray rank he => exact (firmly_makeArray rank he).firm (.refl r) hs hf
  | makeByRef he => exact (firmly_makeByRef he).firm (.refl r) hs hf
  | makeParameter name => exact (firmly_makeParameter name).firm (.refl r) hs hf
  | makeInstance ht ha => exact (firmly_makeInstance ht ha).firm (.refl r) hs hf
  | resolveSignature home s hc => exact (firmly_resolveSignature home hc s).firm (.refl r) hs hf
  | resolveType home s hc => exact (firmly_resolveType home hc s).firm (.refl r) hs hf
  | resolveTypeToken home token hc =>
    exact (firmly_resolveTypeToken home token hc).firm (.refl r) hs hf
  | resolveMethod fuel home token hc =>
    exact (firmly_resolveMethod fuel home token hc).firm (.refl r) hs hf
  | resolveField fuel home token hc =>
    exact (firmly_resolveField fuel home token hc).firm (.refl r) hs hf
  | resolveString home token => exact (firmly_resolveString home token).firm (.refl r) hs hf
  | baseType ht => exact (firmly_baseType ht).firm (.refl r) hs hf
  | interfaces ht => exact firm_interfaces hs hf _
  | isAssignable fuel _ _ => exact (grows_isAssignable (R := FirmAfter) fuel _ _ r ⟨hs, hf⟩).2
  | firstHostBase fuel ht => exact (firmly_firstHostBase fuel ht).firm (.refl r) hs hf
  | layout fuel ht => exact (firmly_layout fuel ht).firm (.refl r) hs hf
  | findField fuel name kind ht => exact (firmly_findField fuel ht name kind).firm (.refl r) hs hf
  | methodsOf ht => exact (firmly_methodsOf ht).firm (.refl r) hs hf
  | findMethod fuel name count _ =>
    exact (grows_findMethod (R := FirmAfter) fuel _ name count r ⟨hs, hf⟩).2
  | findOverride fuel _ _ => exact (grows_findOverride (R := FirmAfter) fuel _ _ r ⟨hs, hf⟩).2
  | instantiateMethod hid ha => exact (firmly_instantiateMethod hid ha).firm (.refl r) hs hf
  | localsOf hid => exact (firmly_localsOf hid).firm (.refl r) hs hf

end Registry

end ManagedMachine
