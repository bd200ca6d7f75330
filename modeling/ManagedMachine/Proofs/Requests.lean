import ManagedMachine.Proofs.Hierarchies
import ManagedMachine.Proofs.TokenAnswers

/-!
# Requests

What is asked of a registry is about types and methods that it gave out before: the handles that a
session or running code holds are never positions at which nothing stands (`Registry.Request`).
Every such request leaves the registry sound, whether it succeeds or fails, so in a registry that
only such requests have led to no position dangles (`Registry.Consulted.sound`).

Soundness is the invariant, `Request.sound` the step and `Consulted.sound` the induction. A request
may walk up the base types and the interfaces of what it was asked about, so these walks are looked
at first (`soundAfter_baseType` and the like); what requests do besides is covered by
`Registry.Later`.
-/

set_option autoImplicit false
set_option relaxedAutoImplicit false

namespace ManagedMachine

namespace Registry

variable {r r' r₀ : Registry} {t : TypeId} {α : Type} {x : RegistryM α}

/-! ### What is asked of a type leaves a registry sound -/

theorem Safe.sound {R : Registry → Registry → Prop} {Q : α → Registry → Prop} (h : Safe R r x Q)
    (hs : r.Sound) : (endState x r).Sound := (h.keeps r (.refl r) hs).2

theorem shape_of_not_has (h : ¬r.Has t) : (r.type t).shape = .parameter :=
  not_not.mp fun hshape ↦ h (has_of_shape hshape)

theorem Sound.withBase (hs : r.Sound) (t : TypeId) {base : Option TypeId}
    (hbase : ∀ b, base = some b → r.Has b) :
    Sound { r with facts := { r.facts with bases := r.facts.bases.insert t base } } where
  types := hs.types
  methods := hs.methods
  names := hs.names
  hosts := hs.hosts
  definitions := hs.definitions
  bases t' b hb := (getElem?_insert_cases hb).elim (hs.bases t' b) fun heq ↦ hbase b heq.2.symm
  declared := hs.declared
  instances := hs.instances

/-- Noting methods that are there keeps a registry sound. -/
theorem Sound.withMethods (hs : r.Sound) (t : TypeId) :
    Sound { r with facts := { r.facts with methods := r.facts.methods.insert t [] } } where
  types := hs.types
  methods := hs.methods
  names := hs.names
  hosts := hs.hosts
  definitions := hs.definitions
  bases := hs.bases
  declared t' ids hids := by
    rcases getElem?_insert_cases hids with hold | ⟨-, rfl⟩
    · exact hs.declared t' ids hold
    · exact List.forall_mem_nil _
  instances := hs.instances

/-- Changes elsewhere do not matter. -/
theorem Sound.of_eq (hs : r.Sound) (htypes : r'.types = r.types) (hmethods : r'.methods = r.methods)
    (hnames : r'.names = r.names) (hhosts : r'.scoped_ = r.scoped_)
    (hdefinitions : r'.definitions = r.definitions) (hbases : r'.facts.bases = r.facts.bases)
    (hdeclared : r'.facts.methods = r.facts.methods)
    (hinstances : r'.facts.instances = r.facts.instances) : r'.Sound := by
  have hhas {t : TypeId} (ht : r.Has t) : r'.Has t := by rwa [Has, htypes]
  have hmethod {id : MethodId} (hid : r.HasMethod id) : r'.HasMethod id := by
    rwa [HasMethod, hmethods]
  exact
    { types := fun i d hd ↦ (hs.types i d (htypes ▸ hd)).imp (fun h b hb ↦ hhas (h b hb))
        fun h t ht ↦ hhas (h t ht)
      methods := fun i m hm ↦
        have hm := hs.methods i m (hmethods ▸ hm)
        ⟨hhas hm.1, fun b hb ↦ hhas (hm.2.1 b hb), fun g hg ↦ hmethod (hm.2.2 g hg)⟩
      names := fun name t ht ↦ hhas (hs.names name t (hnames ▸ ht))
      hosts := fun name t ht ↦ hhas (hs.hosts name t (hhosts ▸ ht))
      definitions := fun ref t ht ↦ hhas (hs.definitions ref t (hdefinitions ▸ ht))
      bases := fun t b hb ↦ hhas (hs.bases t b (hbases ▸ hb))
      declared := fun t ids hids id hid ↦ hmethod (hs.declared t ids (hdeclared ▸ hids) id hid)
      instances := fun key id hid ↦ hmethod (hs.instances key id (hinstances ▸ hid)) }

/-- Finding out the base type of any position leaves a sound registry sound. -/
theorem soundAfter_baseType (t : TypeId) : Keeps SoundAfter (baseType t) := by
  intro r hs
  by_cases ht : r.Has t
  · exact (settles_baseType (z := r) ht).toSafe.sound hs
  -- nothing stands at the position, so nothing is resolved
  cases hknown : r.facts.bases[t]? with
  | some base =>
    rw [endState_ok (baseType_of_known hknown)]
    exact hs
  | none =>
    have hfind : findBase t (r.type t) r = .ok none r := by
      rw [findBase, shape_of_not_has ht]
      rfl
    rw [endState_ok ((baseType_of_new hknown).trans (bind_of_ok hfind))]
    exact hs.withBase t fun _ hb ↦ absurd hb (Option.some_ne_none _).symm

theorem safe_findInterfaces (ht : r₀.Has t) (d : Descriptor) :
    Safe Spells r₀ (findInterfaces t d) fun _ _ ↦ True := by
  unfold findInterfaces
  split
  · split
    · exact (safe_resolveTypes _ (hasContext_ofType ht) _).imp fun _ _ _ ↦ trivial
    · exact .pure fun _ _ _ ↦ trivial
  · exact (Safe.mapM (Q := fun _ _ ↦ True) (fun _ _ _ _ _ ↦ trivial) _ fun name _ _ _ ↦
      (safe_resolveIn name _).imp fun _ _ _ ↦ trivial).imp fun _ _ _ ↦ trivial
  · exact .pure fun _ _ _ ↦ trivial

/-- The same of its interfaces. -/
theorem soundAfter_interfaces (t : TypeId) : Keeps SoundAfter (interfaces t) := by
  intro r hs
  cases hknown : r.facts.interfaces[t]? with
  | some found =>
    rw [endState_ok (interfaces_of_known hknown)]
    exact hs
  | none =>
    have hfind : (endState (findInterfaces t (r.type t)) r).Sound := by
      by_cases ht : r.Has t
      · exact (safe_findInterfaces ht _).sound hs
      · rw [findInterfaces, shape_of_not_has ht]
        exact hs
    cases hx : findInterfaces t (r.type t) r with
    | error e r₁ =>
      rw [endState_error hx] at hfind
      rw [endState_error ((interfaces_of_new hknown).trans (bind_of_error hx))]
      exact hfind
    | ok found r₁ =>
      rw [endState_ok hx] at hfind
      rw [endState_ok ((interfaces_of_new hknown).trans (bind_of_ok hx))]
      exact hfind.of_eq rfl rfl rfl rfl rfl rfl rfl rfl

/-- And of its methods, which are made on the way. -/
theorem soundAfter_methodsOf (t : TypeId) : Keeps SoundAfter (methodsOf t) := by
  intro r hs
  by_cases ht : r.Has t
  · exact (settles_methodsOf (z := r) ht).toSafe.sound hs
  cases hknown : r.facts.methods[t]? with
  | some ids =>
    rw [endState_ok (methodsOf_of_known hknown)]
    exact hs
  | none =>
    have hdeclare : declare t (r.type t).shape r = .ok [] r := by
      rw [shape_of_not_has ht]
      rfl
    rw [endState_ok ((methodsOf_of_new hknown).trans (bind_of_ok hdeclare))]
    exact hs.withMethods t

instance : Climbing SoundAfter where
  baseType := soundAfter_baseType
  interfaces := soundAfter_interfaces
  methodsOf := soundAfter_methodsOf

/-! ### Requests -/

/-- An operation on types and methods that are there. -/
inductive Request (r : Registry) : {α : Type} → RegistryM α → Prop
  | loadModule (m : Module) : Request r (loadModule m)
  | addHostModule (m : HostModule) : Request r (addHostModule m)
  | registerAdaptor (f : AdaptorTable → AdaptorTable) :
      Request r (modify fun r ↦ { r with adaptors := f r.adaptors } : RegistryM Unit)
  | ofHostType (type : HostType) : Request r (ofHostType type)
  | typeOfData (kind : HostKind) : Request r (typeOfData kind)
  | resolve (name : String) : Request r (resolve name)
  | resolveIn (name : String) (scope : Option String) : Request r (resolveIn name scope)
  | makeArray {e : TypeId} (rank : UInt8) (he : r.Has e) : Request r (makeArray e rank)
  | makeByRef {e : TypeId} (he : r.Has e) : Request r (makeByRef e)
  | makeParameter (name : String) : Request r (makeParameter name)
  | makeInstance {t : TypeId} {args : List TypeId} (ht : r.Has t) (ha : ∀ a ∈ args, r.Has a) :
      Request r (makeInstance t args)
  | resolveSignature (home : ModuleId) {c : GenericContext} (s : Signature) (hc : r.HasContext c) :
      Request r (resolveSignature home c s)
  | resolveType (home : ModuleId) {c : GenericContext} (s : Signature) (hc : r.HasContext c) :
      Request r (resolveType home c s)
  | resolveTypeToken (home : ModuleId) (token : Token) {c : GenericContext} (hc : r.HasContext c) :
      Request r (resolveTypeToken home token c)
  | resolveMethod (fuel : Nat) (home : ModuleId) (token : Token) {c : GenericContext}
      (hc : r.HasContext c) : Request r (resolveMethod fuel home token c)
  | resolveField (fuel : Nat) (home : ModuleId) (token : Token) {c : GenericContext}
      (hc : r.HasContext c) : Request r (resolveField fuel home token c)
  | resolveString (home : ModuleId) (token : Token) : Request r (resolveString home token)
  | baseType {t : TypeId} (ht : r.Has t) : Request r (baseType t)
  | interfaces {t : TypeId} (ht : r.Has t) : Request r (interfaces t)
  | isAssignable (fuel : Nat) {source target : TypeId} (hs : r.Has source) (ht : r.Has target) :
      Request r (isAssignable fuel source target)
  | firstHostBase (fuel : Nat) {t : TypeId} (ht : r.Has t) : Request r (firstHostBase fuel t)
  | layout (fuel : Nat) {t : TypeId} (ht : r.Has t) : Request r (layout fuel t)
  | findField (fuel : Nat) {t : TypeId} (name : String) (isStatic : Option Bool) (ht : r.Has t) :
      Request r (findField fuel t name isStatic)
  | methodsOf {t : TypeId} (ht : r.Has t) : Request r (methodsOf t)
  | findMethod (fuel : Nat) {t : TypeId} (name : String) (count : Nat) (ht : r.Has t) :
      Request r (findMethod fuel t name count)
  | findOverride (fuel : Nat) {receiver : TypeId} {id : MethodId} (ht : r.Has receiver)
      (hid : r.HasMethod id) : Request r (findOverride fuel receiver id)
  | instantiateMethod {id : MethodId} {args : List TypeId} (hid : r.HasMethod id)
      (ha : ∀ a ∈ args, r.Has a) : Request r (instantiateMethod id args)
  | localsOf {id : MethodId} (hid : r.HasMethod id) : Request r (localsOf id)

/-- A request is an operation on the registry. -/
theorem Request.operation (hx : r.Request x) : Operation x := by
  cases hx with
  | loadModule m => exact .loadModule ..
  | addHostModule m => exact .addHostModule ..
  | registerAdaptor f => exact .registerAdaptor ..
  | ofHostType type => exact .ofHostType ..
  | typeOfData kind => exact .typeOfData ..
  | resolve name => exact .resolve ..
  | resolveIn name scope => exact .resolveIn ..
  | makeArray rank _ => exact .makeArray ..
  | makeByRef _ => exact .makeByRef ..
  | makeParameter name => exact .makeParameter ..
  | makeInstance _ _ => exact .makeInstance ..
  | resolveSignature home s _ => exact .resolveSignature ..
  | resolveType home s _ => exact .resolveType ..
  | resolveTypeToken home token _ => exact .resolveTypeToken ..
  | resolveMethod fuel home token _ => exact .resolveMethod ..
  | resolveField fuel home token _ => exact .resolveField ..
  | resolveString home token => exact .resolveString ..
  | baseType _ => exact .baseType ..
  | interfaces _ => exact .interfaces ..
  | isAssignable fuel _ _ => exact .isAssignable ..
  | firstHostBase fuel _ => exact .firstHostBase ..
  | layout fuel _ => exact .layout ..
  | findField fuel name isStatic _ => exact .findField ..
  | methodsOf _ => exact .methodsOf ..
  | findMethod fuel name count _ => exact .findMethod ..
  | findOverride fuel _ _ => exact .findOverride ..
  | instantiateMethod _ _ => exact .instantiateMethod ..
  | localsOf _ => exact .localsOf ..

theorem safe_typeOfData (kind : HostKind) : Safe Spells r₀ (typeOfData kind) fun _ _ ↦ True := by
  unfold typeOfData
  refine .get_bind fun r _ _ ↦ ?_
  split
  · exact .pure fun _ _ _ ↦ trivial
  · split
    · exact (safe_ofHostType _).imp fun _ _ _ ↦ trivial
    · exact .throw _

/-- Types of locals are resolved in the context of their method. -/
theorem safe_localsOf {id : MethodId} (hid : r₀.HasMethod id) :
    Safe Searches r₀ (localsOf id) fun _ _ ↦ True := by
  unfold localsOf
  refine .get_bind fun r hl hs ↦ ?_
  split
  · exact .pure fun _ _ _ ↦ trivial
  · dsimp only
    split
    · have hc := hasContext_ofMethod hs (hl.hasMethod hid)
      refine (safe_resolveTypes _ hc _).searches.bind fun types r₁ _ _ _ ↦ ?_
      refine (Safe.modify (Q := fun _ _ ↦ True) fun r₂ _ hs₂ ↦ ⟨?_, ?_, trivial⟩).bind
        fun _ _ _ _ _ ↦ .pure fun _ _ _ ↦ trivial
      · exact
          { toExtends := .of_eq rfl rfl rfl rfl, hosts _ _ h := h, bases _ _ h := h
            declared _ _ h := h, instances _ _ h := h, definitions := rfl, modules := rfl
            host := rfl, tokens := rfl }
      · exact hs₂.of_eq rfl rfl rfl rfl rfl rfl rfl rfl
    · exact .throw _

theorem soundAfter_resolveTypeToken {home : ModuleId} {token : Token} {c : GenericContext}
    (hs : r.Sound) (hc : r.HasContext c) : (endState (resolveTypeToken home token c) r).Sound := by
  obtain ⟨r', -, hs', hend | ⟨t, -, hend⟩⟩ :=
    (remembers_resolveTypeToken home token c).step hs (safe_findTypeToken home token hc)
  · exact hend ▸ hs'
  · exact hend ▸ hs'.remember _ _

theorem soundAfter_resolveField {fuel : Nat} {home : ModuleId} {token : Token} {c : GenericContext}
    (hs : r.Sound) (hc : r.HasContext c) : (endState (resolveField fuel home token c) r).Sound := by
  obtain ⟨r', -, hs', hend | ⟨f, -, hend⟩⟩ :=
    (remembers_resolveField fuel home token c).step hs (safe_findFieldToken fuel home token hc)
  · exact hend ▸ hs'
  · exact hend ▸ hs'.remember _ _

/-- A request leaves a sound registry sound. -/
theorem Request.sound (hx : r.Request x) (hs : r.Sound) : (endState x r).Sound := by
  cases hx with
  | loadModule m => exact keeps_loadModule m r hs
  | addHostModule m => exact hs.of_eq rfl rfl rfl rfl rfl rfl rfl rfl
  | registerAdaptor f => exact hs.of_eq rfl rfl rfl rfl rfl rfl rfl rfl
  | ofHostType type => exact (safe_ofHostType type).sound hs
  | typeOfData kind => exact (safe_typeOfData kind).sound hs
  | resolve name => exact (safe_resolve name).sound hs
  | resolveIn name scope => exact (safe_resolveIn name scope).sound hs
  | makeArray rank he => exact (settles_makeArray (z := r) rank he).toSafe.sound hs
  | makeByRef he => exact (settles_makeByRef (z := r) he).toSafe.sound hs
  | makeParameter name => exact (settles_makeParameter (z := r) name).toSafe.sound hs
  | makeInstance ht ha => exact (settles_makeInstance (z := r) ht ha).toSafe.sound hs
  | resolveSignature home s hc =>
    exact (settles_resolveSignature (z := r) home hc s).toSafe.sound hs
  | resolveType home s hc => exact (safe_resolveType home hc s).sound hs
  | resolveTypeToken home token hc => exact soundAfter_resolveTypeToken hs hc
  | @resolveMethod fuel home token c hc =>
    let use : TokenUse := ⟨home, token, c⟩
    have hcontext : r.HasContext use.context := hc
    exact (resolveUse_step fuel hs hcontext).2.1
  | resolveField fuel home token hc => exact soundAfter_resolveField hs hc
  | resolveString home token =>
    obtain ⟨strings, texts, hend⟩ := endState_resolveString r home token
    rw [hend]
    exact hs.of_eq rfl rfl rfl rfl rfl rfl rfl rfl
  | baseType _ => exact grows_baseType (R := SoundAfter) _ r hs
  | interfaces _ => exact grows_interfaces (R := SoundAfter) _ r hs
  | isAssignable fuel _ _ => exact grows_isAssignable (R := SoundAfter) fuel _ _ r hs
  | firstHostBase fuel _ => exact grows_firstHostBase (R := SoundAfter) fuel _ r hs
  | layout fuel ht => exact (safe_layout fuel ht).sound hs
  | findField fuel name isStatic ht =>
    exact (settles_findField (z := r) fuel ht name isStatic).toSafe.sound hs
  | methodsOf _ => exact grows_methodsOf (R := SoundAfter) _ r hs
  | findMethod fuel name count _ => exact grows_findMethod (R := SoundAfter) fuel _ name count r hs
  | findOverride fuel _ _ => exact grows_findOverride (R := SoundAfter) fuel _ _ r hs
  | instantiateMethod hid ha => exact (safe_instantiateMethod hid ha).sound hs
  | localsOf hid => exact (safe_localsOf hid).sound hs

/-! ### Histories -/

/-- The registry after some requests, whether they succeeded or failed. -/
inductive Consulted : Registry → Prop
  | empty : Consulted empty
  | step {r : Registry} {α : Type} {x : RegistryM α} (h : Consulted r) (hx : r.Request x) :
      Consulted (endState x r)

/-- No position dangles. -/
theorem Consulted.sound (h : r.Consulted) : r.Sound := by
  induction h with
  | empty => exact sound_empty
  | step _ hx ih => exact hx.sound ih

end Registry

end ManagedMachine
