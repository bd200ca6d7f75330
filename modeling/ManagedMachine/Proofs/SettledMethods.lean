import ManagedMachine.Proofs.SettledTypes

/-!
Members settle. Base types, the methods of a type and the instantiations of a generic method are
worked out once and remembered, so what is found of them is found again. The search for the method
that a reference names reads the generic context of the caller only where a candidate leaves a
parameter open; a caller that leaves it open too finds what any other such caller finds.

The lemmas come in the order of the search: the base type and the methods of a type
(`settles_baseType`, `settles_methodsOf`), then the candidates among them (`settles_fitting`), then
the search along the bases. Each is about two contexts at once, which are equal or both leave open
what the other one does, so the statement for one context is the case of equal ones.
-/

set_option autoImplicit false
set_option relaxedAutoImplicit false

namespace ManagedMachine

namespace Registry

variable {α β γ : Type} {R : Registry → Registry → Prop} {r r' r'' r₀ z : Registry}

/-! ### Types of signatures -/

theorem settles_resolveType (home : ModuleId) {c : GenericContext} (hc : r₀.HasContext c)
    (s : Signature) :
    Settles z Spells r₀ (resolveType home c s) (resolveType home c s) fun t r ↦ r.Has t := by
  refine (settles_resolveSignature home hc s).bind fun found _ _ _ hfound ↦ ?_
  cases found with
  | fixed t | dependent t => exact .pure fun _ hl _ ↦ hl.has (hfound t rfl)
  | unbound name => exact settles_makeParameter name

theorem safe_resolveType (home : ModuleId) {c : GenericContext} (hc : r₀.HasContext c)
    (s : Signature) : Safe Spells r₀ (resolveType home c s) fun t r ↦ r.Has t :=
  (settles_resolveType (z := r₀) home hc s).toSafe

theorem safe_resolveTypes (home : ModuleId) {c : GenericContext} (hc : r₀.HasContext c)
    (signatures : List Signature) :
    Safe Spells r₀ (resolveTypes home c signatures) fun ts r ↦ ∀ t ∈ ts, r.Has t :=
  .mapM (Q := fun t r ↦ r.Has t) (fun _ _ _ ht hl ↦ hl.has ht) signatures fun s _ _ hl ↦
    safe_resolveType home (hl.hasContext hc) s

theorem safe_hostSignature {declaring : TypeId} (hd : r₀.Has declaring) (type : HostType)
    (params : List String) {args : List Binding} (ha : r₀.HasArgs args) (name : String) :
    Safe Spells r₀ (hostSignature declaring type params args name) fun t r ↦ r.Has t := by
  refine .ask_bind fun r hl hs ↦ ?_
  split
  · next t hbound =>
    have hc : r.HasContext ⟨some declaring, args⟩ :=
      ⟨fun _ h ↦ Option.some.inj h ▸ hl.has hd, hl.hasArgs ha⟩
    exact .pure fun _ hl' _ ↦ hl'.has (hc.find? hs hbound)
  · split
    · exact (settles_makeParameter (z := r₀) name).toSafe
    · split
      · exact .throw _
      · split
        · exact safe_resolveIn _ _
        · exact safe_resolve _

/-! ### Base types -/

theorem safe_findBase {t : TypeId} (ht : r₀.Has t) (d : Descriptor) :
    Safe Spells r₀ (findBase t d) fun base r ↦ ∀ b, base = some b → r.Has b := by
  have hsome {x : RegistryM TypeId} (hx : Safe Spells r₀ x fun b r ↦ r.Has b) :
      Safe Spells r₀ (do return some (← x)) fun base r ↦ ∀ b, base = some b → r.Has b :=
    hx.bind fun b _ _ _ hb ↦ .pure fun _ hl _ _ h ↦ Option.some.inj h ▸ hl.has hb
  have hnone : Safe Spells r₀ (pure none) fun base r ↦ ∀ b, base = some b → r.Has b :=
    .pure_none
  unfold findBase
  split
  · split
    · exact .throw _
    · split
      · exact hsome (safe_resolveType _ (hasContext_ofType ht) _)
      · split
        · exact hnone
        · split <;> exact hsome (safe_coreType _)
  · split
    · exact hsome (safe_resolveIn _ _)
    · exact hnone
  · exact hsome (safe_coreType _)
  · exact hnone
  · exact hnone

/-- An answer that is looked up among the facts, and otherwise found and kept there. -/
theorem safe_remembered {x : RegistryM α} {look : Registry → Option α}
    {Q : α → Registry → Prop} (keep : α → Registry → Registry)
    (hlook : ∀ r r', r'.facts = r.facts → look r' = look r)
    (hknown : ∀ r a, r₀.Later r → r.Sound → look r = some a → Q a r ∧ x r = .ok a r)
    (hnew : ∀ r, r₀.Later r → r.Sound → look r = none → ∃ find : RegistryM α,
      Safe Spells r find Q ∧ x r = (find >>= fun a ↦ modify (keep a) >>= fun _ ↦ pure a) r)
    (hkeep : ∀ a r, r.Sound → Q a r → look r = none →
      r.Searches (keep a r) ∧ (keep a r).Sound ∧ Q a (keep a r) ∧ look (keep a r) = some a) :
    Safe Searches r₀ x fun a r ↦ Q a r ∧ look r = some a := by
  have hends (r : Registry) (hl : r₀.Later r) (hs : r.Sound) :
      (r.Searches (endState x r) ∧ (endState x r).Sound) ∧
        ∀ a r', x r = .ok a r' → Q a r' ∧ look r' = some a := by
    cases hthere : look r with
    | some a =>
      obtain ⟨hQ, hx⟩ := hknown r a hl hs hthere
      refine ⟨by rw [endState_ok hx]; exact ⟨Forward.refl r, hs⟩, fun a' r' hok ↦ ?_⟩
      cases hx.symm.trans hok
      exact ⟨hQ, hthere⟩
    | none =>
      obtain ⟨find, hfind, hx⟩ := hnew r hl hs hthere
      have hk := hfind.keeps r (.refl r) hs
      cases hf : find r with
      | error e r₁ =>
        rw [endState_error hf] at hk
        rw [bind_of_error hf] at hx
        refine ⟨endState_error hx ▸ ⟨hk.1.toSearches, hk.2⟩, fun a r' hok ↦ ?_⟩
        cases hx.symm.trans hok
      | ok a r₁ =>
        rw [endState_ok hf] at hk
        rw [bind_of_ok hf] at hx
        have hQ := hfind.yields r a r₁ (.refl r) hs hf
        obtain ⟨hstep, hsound, hQ', hkept⟩ :=
          hkeep a r₁ hk.2 hQ ((hlook r r₁ hk.1.facts).trans hthere)
        refine ⟨endState_ok hx ▸ ⟨Forward.trans hk.1.toSearches hstep, hsound⟩,
          fun a' r' hok ↦ ?_⟩
        cases hx.symm.trans hok
        exact ⟨hQ', hkept⟩
  exact ⟨fun r hl hs ↦ (hends r hl hs).1, fun r a r' hl hs hx ↦ (hends r hl hs).2 a r' hx⟩

theorem baseType_of_known {t : TypeId} {base : Option TypeId}
    (h : r.facts.bases[t]? = some base) : baseType t r = .ok base r := by
  rw [baseType, ask_bind, h]
  rfl

/-- Base types are remembered when they have been found. -/
theorem settles_baseType {t : TypeId} (ht : r₀.Has t) :
    Settles z Searches r₀ (baseType t) (baseType t) fun base r ↦
      (∀ b, base = some b → r.Has b) ∧ r.facts.bases[t]? = some base := by
  refine .of_known (safe_remembered
    (fun base r ↦ { r with facts := { r.facts with bases := r.facts.bases.insert t base } })
    (fun r r' h ↦ h ▸ rfl) (fun r base _ hs hknown ↦ ?known) (fun r hl hs hthere ↦ ?new)
    (fun base r hs hbase hthere ↦ ?keep))
    fun base r hbase hlast _ ↦ baseType_of_known (hlast.bases _ _ hbase.2)
  case known => exact ⟨fun b hb ↦ hs.bases t b (hb ▸ hknown), baseType_of_known hknown⟩
  case new =>
    refine ⟨findBase t (r.type t), safe_findBase (hl.has ht) _, ?_⟩
    rw [baseType, ask_bind, hthere]
    rfl
  case keep =>
    have hstep : r.Searches
        { r with facts := { r.facts with bases := r.facts.bases.insert t base } } :=
      { toExtends := .of_eq rfl rfl rfl rfl, hosts _ _ h := h
        bases _ _ h := getElem?_insert_of_some hthere h, declared _ _ h := h
        instances _ _ h := h, definitions := rfl, modules := rfl, host := rfl, tokens := rfl }
    refine ⟨hstep, ?_, hbase, Std.HashMap.getElem?_insert_self⟩
    refine hs.later hstep.toLater (fun _ _ ↦ .inl) (fun _ _ ↦ .inl) (fun _ _ ↦ .inl)
      (fun _ _ ↦ .inl) (fun t' b hb ↦ ?_) (fun _ _ ↦ .inl) (fun _ _ ↦ .inl)
    exact (getElem?_insert_cases hb).imp_right fun heq ↦ hbase b heq.2.symm

/-- Two walks whose visits settle alike at every type on the way. -/
theorem settles_walk {visit visit' : TypeId → RegistryM (Visit α)} {Q : α → Registry → Prop}
    {P : TypeId → Prop} (hQ : ∀ a r r', Q a r → r.Later r' → Q a r')
    (hP : ∀ t b, P t → z.facts.bases[t]? = some (some b) → P b)
    (hvisit : ∀ t r₁, r₀.Later r₁ → r₁.Has t → (r₁.Later z → P t) →
      Settles z Searches r₁ (visit t) (visit' t) fun v r ↦ ∀ a, v = .found a → Q a r) :
    (fuel : Nat) → (t : TypeId) → {r₁ : Registry} → r₀.Later r₁ → r₁.Has t →
    (r₁.Later z → P t) →
    Settles z Searches r₁ (walk visit fuel t) (walk visit' fuel t)
      fun found r ↦ ∀ a, found = some a → Q a r
  | 0, _, _, _, _, _ => .throw _
  | fuel + 1, t, r, hl, ht, hon => by
    unfold walk
    refine (hvisit t r hl ht hon).bind fun visited r₁ hl₁ _ hvisited ↦ ?_
    cases visited with
    | found a =>
      exact .pure fun r hl _ a' ha' ↦ hQ a' r₁ r (Option.some.inj ha' ▸ hvisited a rfl) hl
    | stop => exact .pure_none
    | onward =>
      refine (settles_baseType (hl₁.has ht)).bind fun base r₂ hl₂ _ hbase ↦ ?_
      cases base with
      | none => exact .pure_none
      | some b =>
        exact settles_walk hQ hP hvisit fuel b (hl.trans (hl₁.trans hl₂)) (hbase.1 b rfl)
          fun hlast ↦ hP t b (hon ((hl₁.trans hl₂).trans hlast)) (hlast.bases _ _ hbase.2)

theorem safe_firstHostBase (fuel : Nat) {t : TypeId} (ht : r₀.Has t) :
    Safe Searches r₀ (firstHostBase fuel t) fun found r ↦ ∀ b, found = some b → r.Has b := by
  have hvisit (t : TypeId) (r : Registry) (ht : r.Has t) :
      Settles r₀ Searches r (visitWith (fun t ↦ ask fun r ↦ if (r.type t).isNative then some t
          else none) t) (visitWith (fun t ↦ ask fun r ↦ if (r.type t).isNative then some t
          else none) t) fun v r ↦ ∀ b, v = .found b → r.Has b := by
    refine .ask_bind (fun r₁ hl hlast ↦ by rw [hlast.type_eq (hl.has ht)]) fun r₁ hl _ ↦ ?_
    split
    · next b hb =>
      have htb : t = b := by
        split at hb
        · exact Option.some.inj hb
        · cases hb
      refine .pure fun r₂ hl' _ a ha ↦ ?_
      cases ha
      exact htb ▸ (hl.trans hl').has ht
    · exact .pure fun _ _ _ _ h ↦ nomatch h
  exact (settles_walk (Q := fun b r ↦ r.Has b) (fun _ _ _ hb hl ↦ hl.has hb)
    (fun _ _ _ _ ↦ trivial) (fun t r _ ht _ ↦ hvisit t r ht) fuel t (.refl r₀) ht
    fun _ ↦ trivial).toSafe

/-! ### Methods of types -/

theorem hasArgs_nil : r.HasArgs [] := fun _ h ↦ nomatch h

/-- A method that is no instantiation needs its type only. -/
theorem admitsMethod_plain {m : Method} (hd : r.Has m.declaring) (ha : m.args = [])
    (hg : m.definition = none) : r.AdmitsMethod m :=
  ⟨hd, ha ▸ hasArgs_nil, fun _ h ↦ nomatch hg.symm.trans h⟩

theorem safe_addDefinedMethods (home : Home) {t : TypeId} :
    (methods : List (Token × MethodDef)) → {r₀ : Registry} → r₀.Has t →
    Safe Spells r₀ (addDefinedMethods home t methods) fun ids r ↦ ∀ id ∈ ids, r.HasMethod id
  | [], _, _ => .pure fun _ _ _ ↦ List.forall_mem_nil _
  | (token, def_) :: rest, r₀, ht => by
    unfold addDefinedMethods
    refine (safe_resolveTypes _ (hasContext_ofType ht) _).bind fun params r₁ hl₁ _ _ ↦ ?_
    refine (safe_resolveType _ (hasContext_ofType (hl₁.has ht)) _).bind fun ret r₂ hl₂ _ _ ↦ ?_
    have ht₂ := (hl₁.trans hl₂).has ht
    refine (safe_addMethod (admitsMethod_plain ht₂ rfl rfl)).bind fun id r₃ hl₃ _ hid ↦ ?_
    refine (safe_addDefinedMethods home rest (hl₃.has ht₂)).bind fun ids r₄ hl₄ _ hids ↦ ?_
    exact .pure fun _ hl₅ _ ↦ List.forall_mem_cons.mpr
      ⟨(hl₄.trans hl₅).hasMethod hid, fun id' h ↦ hl₅.hasMethod (hids id' h)⟩

theorem safe_addHostMethods (type : HostType) {t : TypeId} :
    (methods : List HostMethod) → {r₀ : Registry} → r₀.Has t →
    Safe Spells r₀ (addHostMethods type t methods) fun ids r ↦ ∀ id ∈ ids, r.HasMethod id
  | [], _, _ => .pure fun _ _ _ ↦ List.forall_mem_nil _
  | m :: rest, r₀, ht => by
    unfold addHostMethods
    refine (Safe.mapM (Q := fun t r ↦ r.Has t) (fun _ _ _ h hl ↦ hl.has h) m.params
      fun name _ r₁ hl ↦ safe_hostSignature (hl.has ht) type m.generics hasArgs_nil name).bind
      fun params r₁ hl₁ _ _ ↦ ?_
    refine (safe_hostSignature (hl₁.has ht) type m.generics hasArgs_nil m.ret).bind
      fun ret r₂ hl₂ _ _ ↦ ?_
    have ht₂ := (hl₁.trans hl₂).has ht
    refine (safe_addMethod (admitsMethod_plain ht₂ rfl rfl)).bind fun id r₃ hl₃ _ hid ↦ ?_
    refine (safe_addHostMethods type rest (hl₃.has ht₂)).bind fun ids r₄ hl₄ _ hids ↦ ?_
    exact .pure fun _ hl₅ _ ↦ List.forall_mem_cons.mpr
      ⟨(hl₄.trans hl₅).hasMethod hid, fun id' h ↦ hl₅.hasMethod (hids id' h)⟩

theorem methodsOf_of_known {t : TypeId} {ids : List MethodId}
    (h : r.facts.methods[t]? = some ids) : methodsOf t r = .ok ids r := by
  rw [methodsOf, ask_bind, h]
  rfl

/-- So are the methods of a type. -/
theorem settles_methodsOf {t : TypeId} (ht : r₀.Has t) :
    Settles z Searches r₀ (methodsOf t) (methodsOf t) fun ids r ↦
      (∀ id ∈ ids, r.HasMethod id) ∧ r.facts.methods[t]? = some ids := by
  refine .of_known (safe_remembered
    (fun ids r ↦ { r with facts := { r.facts with methods := r.facts.methods.insert t ids } })
    (fun r r' h ↦ h ▸ rfl) (fun r ids _ hs hknown ↦ ?known) (fun r hl hs hthere ↦ ?new)
    (fun ids r hs hids hthere ↦ ?keep))
    fun ids r hids hlast _ ↦ methodsOf_of_known (hlast.declared _ _ hids.2)
  case known => exact ⟨hs.declared t ids hknown, methodsOf_of_known hknown⟩
  case new =>
    rw [methodsOf, ask_bind, hthere]
    dsimp only
    rw [ask_bind]
    cases hshape : (r.type t).shape with
    | interpreted home token =>
      cases hrows : home.content.methodsOf token with
      | error e =>
        refine ⟨throw e, .throw e, ?_⟩
        exact bind_of_error (congrFun (congrArg (fun x ↦ lift fun _ ↦ x) hrows) r)
      | ok rows =>
        refine ⟨_, safe_addDefinedMethods home rows (hl.has ht), ?_⟩
        exact bind_of_ok (congrFun (congrArg (fun x ↦ lift fun _ ↦ x) hrows) r)
    | native type => exact ⟨_, safe_addHostMethods type type.methods (hl.has ht), rfl⟩
    | array _ _ | byRef _ | parameter =>
      exact ⟨Pure.pure [], .pure fun _ _ _ ↦ List.forall_mem_nil _, rfl⟩
  case keep =>
    have hstep : r.Searches
        { r with facts := { r.facts with methods := r.facts.methods.insert t ids } } :=
      { toExtends := .of_eq rfl rfl rfl rfl, hosts _ _ h := h, bases _ _ h := h
        declared _ _ h := getElem?_insert_of_some hthere h, instances _ _ h := h
        definitions := rfl, modules := rfl, host := rfl, tokens := rfl }
    refine ⟨hstep, ?_, hids, Std.HashMap.getElem?_insert_self⟩
    refine hs.later hstep.toLater (fun _ _ ↦ .inl) (fun _ _ ↦ .inl) (fun _ _ ↦ .inl)
      (fun _ _ ↦ .inl) (fun _ _ ↦ .inl) (fun t' ids' hids' ↦ ?_) (fun _ _ ↦ .inl)
    rcases getElem?_insert_cases hids' with hold | ⟨-, rfl⟩
    · exact .inl hold
    · exact .inr hids

/-! ### Instantiations -/

theorem safe_instanceSignature {m : Method} (hm : r₀.Has m.declaring) {args : List Binding}
    (ha : r₀.HasArgs args) : Safe Spells r₀ (instanceSignature m args) fun _ _ ↦ True := by
  have hc : r₀.HasContext ⟨some m.declaring, args⟩ := ⟨fun _ h ↦ Option.some.inj h ▸ hm, ha⟩
  unfold instanceSignature
  split
  · refine (Safe.lift fun _ _ _ _ _ ↦ trivial).bind fun row r₁ hl₁ _ _ ↦ ?_
    refine (safe_resolveTypes _ (hl₁.hasContext hc) _).bind fun params r₂ hl₂ _ _ ↦ ?_
    exact (safe_resolveType _ ((hl₁.trans hl₂).hasContext hc) _).bind fun _ _ _ _ _ ↦
      .pure fun _ _ _ ↦ trivial
  · refine .ask_bind fun r hl _ ↦ ?_
    split
    · exact .ask_bind fun _ _ _ ↦ .throw _
    · next type _ =>
      refine (Safe.mapM (Q := fun t r ↦ r.Has t) (fun _ _ _ h hl ↦ hl.has h) _
        fun name _ r₁ hl₁ ↦ safe_hostSignature ((hl.trans hl₁).has hm) type _
          ((hl.trans hl₁).hasArgs ha) name).bind fun params r₁ hl₁ _ _ ↦ ?_
      exact (safe_hostSignature ((hl.trans hl₁).has hm) type _ ((hl.trans hl₁).hasArgs ha) _).bind
        fun _ _ _ _ _ ↦ .pure fun _ _ _ ↦ trivial

/-- The generic method that is instantiated, with the names of the arguments. -/
def instanceKey (r : Registry) (id : MethodId) (args : List TypeId) : MethodId × String :=
  ((r.method id).definition.getD id, String.intercalate "," (args.map r.typeName))

/-- The generic method takes as many arguments as there are. -/
def Takes (r : Registry) (id : MethodId) (args : List TypeId) : Prop :=
  (r.method (r.instanceKey id args).1).generics.length = args.length

theorem instantiateMethod_of_known {id found : MethodId} {args : List TypeId}
    (htakes : r.Takes id args) (h : r.facts.instances[r.instanceKey id args]? = some found) :
    instantiateMethod id args r = .ok found r := by
  simp only [Takes, instanceKey] at htakes h
  rw [instantiateMethod, get_bind_apply]
  dsimp only
  rw [if_neg (show ¬ (_ ≠ _) from not_not.mpr htakes), h]
  rfl

theorem Later.instanceKey_eq (hl : r.Later r') {id : MethodId} {args : List TypeId}
    (hid : r.HasMethod id) (ha : ∀ t ∈ args, r.Has t) :
    r'.instanceKey id args = r.instanceKey id args := by
  rw [instanceKey, instanceKey, hl.method_eq hid, hl.map_typeName_eq ha]

theorem Sound.hasMethod_definition (hs : r.Sound) {id : MethodId} (hid : r.HasMethod id) :
    r.HasMethod ((r.method id).definition.getD id) := by
  cases hd : (r.method id).definition with
  | none => exact hid
  | some generic => exact (hs.method hid).2.2 generic hd

theorem isSome_insertIfNew {κ α : Type} [BEq κ] [Hashable κ] [LawfulBEq κ] [LawfulHashable κ]
    (m : Std.HashMap κ α) (k : κ) (a : α) : (m.insertIfNew k a)[k]?.isSome := by
  rw [← Std.HashMap.mem_iff_isSome_getElem?]
  exact Std.HashMap.mem_insertIfNew_self

/-- And instantiations, under the method and its arguments. -/
theorem safe_instantiateMethod {id : MethodId} {args : List TypeId} (hid : r₀.HasMethod id)
    (ha : ∀ t ∈ args, r₀.Has t) :
    Safe Searches r₀ (instantiateMethod id args) fun found r ↦
      r.HasMethod found ∧ r.Takes id args ∧
        r.facts.instances[r.instanceKey id args]? = some found := by
  refine .get_bind fun r hl hs ↦ ?_
  have hgeneric := hs.hasMethod_definition (hl.hasMethod hid)
  have hargs (names : List String) := hasArgs_zip names fun t ht ↦ hl.has (ha t ht)
  have hfound {found : MethodId} {r' : Registry} (hl' : r.Later r') (hs' : r'.Sound)
      (htakes : r.Takes id args) (hkept : r'.facts.instances[r.instanceKey id args]? = some found) :
      r'.HasMethod found ∧ r'.Takes id args ∧
        r'.facts.instances[r'.instanceKey id args]? = some found := by
    have hkey := hl'.instanceKey_eq (hl.hasMethod hid) fun t ht ↦ hl.has (ha t ht)
    refine ⟨hs'.instances _ _ hkept, ?_, hkey.symm ▸ hkept⟩
    rwa [Takes, hkey, instanceKey, hl'.method_eq hgeneric]
  dsimp only
  split
  · exact .throw _
  · next hcount =>
    have htakes : r.Takes id args := not_not.mp hcount
    split
    · next found hknown =>
      exact .pure fun r' hl' hs' ↦ hfound hl' hs' htakes (hl'.instances _ _ hknown)
    · refine (safe_instanceSignature (hs.method hgeneric).1 (hargs _)).searches.bind
        fun signature r₁ hl₁ _ _ ↦ ?_
      refine Safe.bind (safe_addMethod ?admits).searches fun made r₂ hl₂ _ hmade ↦ ?_
      case admits => exact ⟨hl₁.has (hs.method hgeneric).1, hl₁.hasArgs (hargs _),
        fun g hg ↦ Option.some.inj hg ▸ hl₁.hasMethod hgeneric⟩
      refine Safe.bind (.modify (Q := fun _ r' ↦
        ∃ found, r'.facts.instances[r.instanceKey id args]? = some found) fun r₃ hl₃ hs₃ ↦ ?_)
        fun _ r₃ hl₃ hs₃ hkept ↦ ?_
      · have hstep : r₃.Searches { r₃ with facts := { r₃.facts with
            instances := r₃.facts.instances.insertIfNew (r.instanceKey id args) made } } :=
          { toExtends := .of_eq rfl rfl rfl rfl, hosts _ _ h := h, bases _ _ h := h
            declared _ _ h := h, instances _ _ h := getElem?_insertIfNew_of_some h
            definitions := rfl, modules := rfl, host := rfl, tokens := rfl }
        refine ⟨hstep, ?_, Option.isSome_iff_exists.mp (isSome_insertIfNew ..)⟩
        refine hs₃.later hstep.toLater (fun _ _ ↦ .inl) (fun _ _ ↦ .inl) (fun _ _ ↦ .inl)
          (fun _ _ ↦ .inl) (fun _ _ ↦ .inl) (fun _ _ ↦ .inl) (fun key found hkept ↦ ?_)
        rcases getElem?_insertIfNew_cases hkept with hold | rfl
        · exact .inl hold
        · exact .inr (hl₃.hasMethod hmade)
      · obtain ⟨found, hkept⟩ := hkept
        refine ⟨fun r₄ _ hs₄ ↦ ⟨Forward.refl r₄, hs₄⟩, fun r₄ out r₅ hl₄ hs₄ hx ↦ ?_⟩
        have hthere := hl₄.instances _ _ hkept
        have hout : found = out :=
          (congrArg (fun kept ↦ kept.getD made) hthere).symm.trans (EStateM.Result.ok.inj hx).1
        cases hx
        exact hfound (((hl₁.trans hl₂).trans hl₃).trans hl₄) hs₄ htakes (hout ▸ hthere)

theorem settles_instantiateMethod {id : MethodId} {args : List TypeId} (hid : r₀.HasMethod id)
    (ha : ∀ t ∈ args, r₀.Has t) :
    Settles z Searches r₀ (instantiateMethod id args) (instantiateMethod id args)
      fun found r ↦ r.HasMethod found := by
  have hsafe := safe_instantiateMethod hid ha
  refine ⟨hsafe.imp fun _ _ h ↦ h.1, fun r found r' hl hs hx hlast _ ↦ ?_⟩
  obtain ⟨-, htakes, hkept⟩ := hsafe.yields r found r' hl hs hx
  obtain ⟨hstep, hs'⟩ := hsafe.ok hl hs hx
  have hl' := hl.trans hstep.toLater
  have hkey : z.instanceKey id args = r'.instanceKey id args :=
    hlast.instanceKey_eq (hl'.hasMethod hid) fun t ht ↦ hl'.has (ha t ht)
  have hgeneric := hs'.hasMethod_definition (hl'.hasMethod hid)
  refine instantiateMethod_of_known ?_ (hkey ▸ hlast.instances _ _ hkept)
  rwa [Takes, hkey, instanceKey, hlast.method_eq hgeneric]

/-! ### References -/

/-- A parameter that the first context leaves open is one that the second leaves open too. -/
def Unasked (r : Registry) (s : Signature) (primary c : GenericContext) : Prop :=
  ∀ name, s.root? = some name → primary.find? r name = none → c.find? r name = none

/-- A parameter is looked up in the first context, then in the second one. What neither binds is
open in both searches. -/
theorem settles_resolveInEither (home : ModuleId) {primary c d : GenericContext} {s : Signature}
    (hp : r₀.HasContext primary) (hc : r₀.HasContext c)
    (hfree : c = d ∨ (r₀.Later z → z.Unasked s primary c ∧ z.Unasked s primary d)) :
    Settles z Spells r₀ (resolveInEither home s primary c) (resolveInEither home s primary d)
      fun _ _ ↦ True := by
  have hsig := settles_resolveSignature (z := z) home hp s
  rcases hfree with rfl | hfree
  · refine hsig.bind fun found _ hl _ _ ↦ ?_
    cases found with
    | fixed t | dependent t => exact .pure fun _ _ _ ↦ trivial
    | unbound name => exact (settles_resolveType home (hl.hasContext hc) s).imp fun _ _ _ ↦ trivial
  refine ⟨hsig.toSafe.bind fun found _ hl _ _ ↦ ?_, fun r t r' hl hs hx hlast hnames ↦ ?_⟩
  · cases found with
    | fixed t | dependent t => exact .pure fun _ _ _ ↦ trivial
    | unbound name => exact (safe_resolveType home (hl.hasContext hc) s).imp fun _ _ _ ↦ trivial
  · obtain ⟨found, r₁, hfound, hrest⟩ := exists_of_bind hx
    obtain ⟨hstep, hs₁⟩ := hsig.ok hl hs hfound
    have hl₁ := hl.trans hstep.toLater
    cases found with
    | fixed t' | dependent t' =>
      cases hrest
      exact (bind_of_ok (hsig.again r _ _ hl hs hfound hlast hnames)).trans rfl
    | unbound name =>
      have htype := settles_resolveType (z := z) home (hl₁.hasContext hc) s
      have hlast₁ := (htype.ok (.refl r₁) hs₁ hrest).1.toLater.trans hlast
      refine (bind_of_ok (hsig.again r _ _ hl hs hfound hlast₁ hnames)).trans ?_
      obtain ⟨hroot, hopen⟩ := root?_of_unbound hfound
      obtain ⟨hfree₁, hfree₂⟩ := hfree (hl₁.trans hlast₁)
      -- neither caller binds what the candidate leaves open: both get the stand-in
      have hopen' : primary.find? z name = none :=
        ((hl₁.trans hlast₁).find?_eq hp name).trans ((hl.find?_eq hp name).symm.trans hopen)
      have hc₁ : c.find? r₁ name = none :=
        (hlast₁.find?_eq (hl₁.hasContext hc) name).symm.trans (hfree₁ name hroot hopen')
      have hmade : makeParameter name r₁ = .ok t r' :=
        (bind_of_ok (resolveSignature_unbound hc₁ hroot)).symm.trans hrest
      refine (bind_of_ok (resolveSignature_unbound (hfree₂ name hroot hopen') hroot)).trans ?_
      exact (settles_makeParameter name).again r₁ t r' (.refl r₁) hs₁ hmade hlast hnames

theorem settles_paramsAgree (home : ModuleId) {primary c d : GenericContext} :
    (signatures : List Signature) → (types : List TypeId) → {r₀ : Registry} →
    r₀.HasContext primary → r₀.HasContext c →
    (c = d ∨ (r₀.Later z →
      ∀ s ∈ signatures, z.Unasked s primary c ∧ z.Unasked s primary d)) →
    Settles z Spells r₀ (paramsAgree home primary c signatures types)
      (paramsAgree home primary d signatures types) fun _ _ ↦ True
  | s :: signatures, t :: types, r₀, hp, hc, hfree => by
    unfold paramsAgree
    refine (settles_resolveInEither home hp hc (hfree.imp_right fun h hlast ↦
      h hlast s (.head _))).bind fun t' _ hl _ _ ↦ ?_
    split
    · exact settles_paramsAgree home signatures types (hl.hasContext hp) (hl.hasContext hc)
        (hfree.imp_right fun h hlast s' hs' ↦ h (hl.trans hlast) s' (.tail _ hs'))
    · exact .pure fun _ _ _ ↦ trivial
  | [], _, _, _, _, _ => .pure fun _ _ _ ↦ trivial
  | _ :: _, [], _, _, _, _ => .pure fun _ _ _ ↦ trivial

end Registry

/-- Name and shape of the method are those of the reference. -/
def MethodRef.fits (ref : MethodRef) (m : Method) : Bool :=
  m.name == ref.name && m.params.length == ref.params.length &&
    m.flags.hasThis == ref.hasThis && m.generics.length == ref.arity

namespace Registry

variable {r r' r'' r₀ z : Registry}

/-- In comparing the reference with the method, nothing hangs on what the context binds. -/
def Ignores (r : Registry) (ref : MethodRef) (id : MethodId) (c : GenericContext) : Prop :=
  ref.fits (r.method id) = true →
    ∀ s ∈ ref.ret :: ref.params, r.Unasked s (.ofMethod (r.method id)) c

/-- Candidates are compared one after the other. -/
theorem settles_fitting (home : ModuleId) (ref : MethodRef) {c d : GenericContext} :
    (ids : List MethodId) → {r₀ : Registry} → (∀ id ∈ ids, r₀.HasMethod id) → r₀.HasContext c →
    (c = d ∨
      (r₀.Later z → ∀ id ∈ ids, z.Ignores ref id c ∧ z.Ignores ref id d)) →
    Settles z Spells r₀ (fitting home ref c ids) (fitting home ref d ids)
      fun out r ↦ ∀ id ∈ out, id ∈ ids ∧ ref.fits (r.method id) = true
  | [], _, _, _, _ => .pure fun _ _ _ _ h ↦ absurd h List.not_mem_nil
  | id :: rest, r₀, hids, hc, hignores => by
    unfold fitting
    have hid := hids id (.head _)
    refine .ask_bind (fun r hl hlast ↦ hlast.method_eq (hl.hasMethod hid)) fun r hl hs ↦ ?_
    have hothers (fits : Bool) (r₁ : Registry) (hl₁ : r.Later r₁)
        (hfits : fits = true → ref.fits (r₁.method id) = true) :
        Settles z Spells r₁
          (do
            let others ← fitting home ref c rest
            return if fits then id :: others else others)
          (do
            let others ← fitting home ref d rest
            return if fits then id :: others else others)
          fun out r ↦ ∀ id' ∈ out, id' ∈ id :: rest ∧ ref.fits (r.method id') = true := by
      have hl₀ := hl.trans hl₁
      refine (settles_fitting home ref rest (fun id' h ↦ hl₀.hasMethod (hids id' (.tail _ h)))
        (hl₀.hasContext hc) (hignores.imp_right fun h hlast id' hmem ↦
          h (hl₀.trans hlast) id' (.tail _ hmem))).bind
        fun others r₂ hl₂ _ hothers ↦ .pure fun r₃ hl₃ _ id' hid' ↦ ?_
      have hrest (h : id' ∈ others) : id' ∈ id :: rest ∧ ref.fits (r₃.method id') = true := by
        obtain ⟨hmem, hfits'⟩ := hothers id' h
        refine ⟨.tail _ hmem, ?_⟩
        rwa [hl₃.method_eq ((hl₀.trans hl₂).hasMethod (hids id' (.tail _ hmem)))]
      cases fits with
      | false => exact hrest hid'
      | true =>
        rcases List.mem_cons.mp hid' with rfl | h
        · refine ⟨.head _, ?_⟩
          rw [(hl₂.trans hl₃).method_eq (hl₀.hasMethod hid)]
          exact hfits rfl
        · exact hrest h
    split
    · next hshape =>
      have hp := hasContext_ofMethod hs (hl.hasMethod hid)
      refine (settles_paramsAgree home _ _ hp (hl.hasContext hc)
        (hignores.imp_right fun hig hlast s hmem ↦ ?_)).bind
        fun fits r₁ hl₁ _ _ ↦ hothers fits r₁ hl₁ fun _ ↦ ?_
      · have hsame : z.method id = r.method id := hlast.method_eq (hl.hasMethod hid)
        obtain ⟨h, h'⟩ := hig (hl.trans hlast) id (.head _)
        rw [Ignores, hsame] at h h'
        exact ⟨h hshape s (.tail _ hmem), h' hshape s (.tail _ hmem)⟩
      · rw [hl₁.method_eq (hl.hasMethod hid)]
        exact hshape
    · exact hothers false r (.refl r) Bool.noConfusion

theorem settles_byReturnType (home : ModuleId) (ref : MethodRef) {c d : GenericContext} :
    (ids : List MethodId) → {r₀ : Registry} → (∀ id ∈ ids, r₀.HasMethod id) → r₀.HasContext c →
    (c = d ∨ (r₀.Later z → ∀ id ∈ ids,
      z.Unasked ref.ret (.ofMethod (z.method id)) c ∧
        z.Unasked ref.ret (.ofMethod (z.method id)) d)) →
    Settles z Spells r₀ (byReturnType home ref c ids) (byReturnType home ref d ids)
      fun found _ ↦ ∀ id, found = some id → id ∈ ids
  | [], _, _, _, _ => .pure_none
  | id :: rest, r₀, hids, hc, hfree => by
    unfold byReturnType
    have hid := hids id (.head _)
    refine .ask_bind (fun r hl hlast ↦ hlast.method_eq (hl.hasMethod hid)) fun r hl hs ↦ ?_
    refine (settles_resolveInEither home (hasContext_ofMethod hs (hl.hasMethod hid))
      (hl.hasContext hc) (hfree.imp_right fun h hlast ↦ ?_)).bind fun t r₁ hl₁ _ _ ↦ ?_
    · exact hlast.method_eq (hl.hasMethod hid) ▸ h (hl.trans hlast) id (.head _)
    · have hl₀ := hl.trans hl₁
      split
      · exact .pure fun _ _ _ id' h ↦ Option.some.inj h ▸ .head _
      · exact (settles_byReturnType home ref rest (fun id' h ↦ hl₀.hasMethod (hids id' (.tail _ h)))
          (hl₀.hasContext hc) (hfree.imp_right fun h hlast id' hmem ↦
            h (hl₀.trans hlast) id' (.tail _ hmem))).imp
          fun found _ h id' hid' ↦ .tail _ (h id' hid')

/-- The candidates of one type. -/
theorem settles_findOn (home : ModuleId) (ref : MethodRef) {c d : GenericContext} {t : TypeId}
    (ht : r₀.Has t) (hc : r₀.HasContext c)
    (hignores : c = d ∨ (r₀.Later z → ∀ ids, z.facts.methods[t]? = some ids →
      ∀ id ∈ ids, z.Ignores ref id c ∧ z.Ignores ref id d)) :
    Settles z Searches r₀ (findOn home ref c t) (findOn home ref d t)
      fun found r ↦ ∀ id, found = some id → r.HasMethod id := by
  unfold findOn
  refine (settles_methodsOf ht).bind fun ids r₁ hl₁ _ hids ↦ ?_
  have hall := hignores.imp_right fun h (hlast : r₁.Later z) ↦
    h (hl₁.trans hlast) ids (hlast.declared _ _ hids.2)
  refine (settles_fitting home ref ids hids.1 (hl₁.hasContext hc) hall).searches.bind
    fun found r₂ hl₂ _ hfound ↦ ?_
  have hthere (id : MethodId) (h : id ∈ found) : r₂.HasMethod id :=
    hl₂.hasMethod (hids.1 id (hfound id h).1)
  rcases found with _ | ⟨id, _ | ⟨id₂, rest⟩⟩
  · exact .pure_none
  · exact .pure fun _ hl _ id' h ↦ Option.some.inj h ▸ hl.hasMethod (hthere id (.head _))
  · refine (settles_byReturnType home ref _ hthere ((hl₁.trans hl₂).hasContext hc)
      (hall.imp_right fun hig hlast id' h ↦ ?_)).searches.bind
      fun best r₃ hl₃ _ hbest ↦ .pure fun r₄ hl₄ _ id' h ↦ ?_
    · obtain ⟨hmem, hfits⟩ := hfound id' h
      obtain ⟨hg, hg'⟩ := hig (hl₂.trans hlast) id' hmem
      rw [← hlast.method_eq (hthere id' h)] at hfits
      exact ⟨hg hfits _ (.head _), hg' hfits _ (.head _)⟩
    · refine (hl₃.trans hl₄).hasMethod (hthere id' ?_)
      cases best with
      | none => exact Option.some.inj h ▸ .head _
      | some id₃ => exact Option.some.inj h ▸ hbest id₃ rfl

/-- In the search for the reference from a type on, nothing hangs on what the context binds. -/
def Secluded (r : Registry) (ref : MethodRef) (c : GenericContext) (t : TypeId) : Prop :=
  ∀ u, Relation.ReflTransGen (fun a b ↦ r.facts.bases[a]? = some (some b)) t u →
    ∀ ids, r.facts.methods[u]? = some ids → ∀ id ∈ ids, r.Ignores ref id c

theorem settles_findReferenced (fuel : Nat) (home : ModuleId) (ref : MethodRef)
    {c d : GenericContext} {t : TypeId} (ht : r₀.Has t) (hc : r₀.HasContext c)
    (hfree : c = d ∨ (r₀.Later z → z.Secluded ref c t ∧ z.Secluded ref d t)) :
    Settles z Searches r₀ (findReferenced fuel home ref c t) (findReferenced fuel home ref d t)
      fun found r ↦ ∀ id, found = some id → r.HasMethod id := by
  refine settles_walk (Q := fun id r ↦ r.HasMethod id)
    (P := fun u ↦ Relation.ReflTransGen (fun a b ↦ z.facts.bases[a]? = some (some b)) t u)
    (fun _ _ _ h hl ↦ hl.hasMethod h) (fun _ _ hon hbase ↦ hon.tail hbase)
    (fun u r₁ hl₁ hu hon ↦ ?_) fuel t (.refl r₀) ht fun _ ↦ .refl
  refine (settles_findOn home ref hu (hl₁.hasContext hc) (hfree.imp_right
    fun h hlast ids hids id hid ↦ ⟨(h (hl₁.trans hlast)).1 u (hon hlast) ids hids id hid,
      (h (hl₁.trans hlast)).2 u (hon hlast) ids hids id hid⟩)).bind fun found _ _ _ hfound ↦ ?_
  cases found with
  | some id =>
    exact .pure fun _ hl _ id' h ↦ by
      cases h
      exact hl.hasMethod (hfound id rfl)
  | none =>
    dsimp only
    split <;> exact .pure fun _ _ _ _ h ↦ nomatch h

end Registry

end ManagedMachine
