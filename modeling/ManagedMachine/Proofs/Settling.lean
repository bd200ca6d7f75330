import ManagedMachine.Proofs.RegistryGrowth

/-!
What was resolved once is resolved alike again. `Registry.Later` says that a registry still knows
what another one knew; `Registry.Sound` that no position in it dangles. A computation settles if,
after it succeeded, running it again in any later registry gives the same value and changes nothing.
That holds of names, signatures, base types and members, because each of them finds at the second
time what the first time left behind. A name is the one thing whose meaning can still move: a host
type that comes into use under a name that another type has, or a name with a slash that gains a
meaning of its own. `Registry.Unambiguous` excludes both.

`Safe R r₀ x Q` is about one run, which ends in a later and sound registry and gives a value with
`Q`; `Settles` is about a run and its repetition. Both come with rules for sequences, so that the
functions of the registry can be settled one at a time in the modules that follow.
-/

set_option autoImplicit false
set_option relaxedAutoImplicit false

namespace ManagedMachine

namespace Registry

/-! ### Later registries -/

/-- The second registry has everything that the first one can be asked for, and the same modules. -/
structure Later (r r' : Registry) : Prop extends Extends r r' where
  hosts : ∀ (name : String) t, r.scoped_[name]? = some t → r'.scoped_[name]? = some t
  bases : ∀ (t : TypeId) b, r.facts.bases[t]? = some b → r'.facts.bases[t]? = some b
  declared : ∀ (t : TypeId) ids, r.facts.methods[t]? = some ids → r'.facts.methods[t]? = some ids
  instances : ∀ (key : MethodId × String) id,
    r.facts.instances[key]? = some id → r'.facts.instances[key]? = some id
  definitions : r'.definitions = r.definitions
  modules : r'.modules = r.modules
  host : r'.host = r.host

/-- Later, with the same answers kept for tokens. -/
structure Searches (r r' : Registry) : Prop extends Later r r' where
  tokens : r'.tokens = r.tokens

/-- Later, with nothing new found out about the types and methods that were there. -/
structure Spells (r r' : Registry) : Prop extends Searches r r' where
  facts : r'.facts = r.facts

variable {r r' r'' : Registry}

theorem Later.refl (r : Registry) : r.Later r where
  toExtends := .refl r
  hosts _ _ h := h
  bases _ _ h := h
  declared _ _ h := h
  instances _ _ h := h
  definitions := rfl
  modules := rfl
  host := rfl

/-- What is known twice later is known later. -/
theorem Later.trans (h : r.Later r') (h' : r'.Later r'') : r.Later r'' where
  toExtends := h.toExtends.trans h'.toExtends
  hosts _ _ hs := h'.hosts _ _ (h.hosts _ _ hs)
  bases _ _ hs := h'.bases _ _ (h.bases _ _ hs)
  declared _ _ hs := h'.declared _ _ (h.declared _ _ hs)
  instances _ _ hs := h'.instances _ _ (h.instances _ _ hs)
  definitions := h'.definitions.trans h.definitions
  modules := h'.modules.trans h.modules
  host := h'.host.trans h.host

/-- The relations by which the parts of a resolution move a registry on. -/
class Forward (R : Registry → Registry → Prop) : Prop where
  refl : ∀ r, R r r
  trans : ∀ {r r' r''}, R r r' → R r' r'' → R r r''
  later : ∀ {r r'}, R r r' → r.Later r'

instance : Forward Later := ⟨.refl, .trans, id⟩

instance : Forward Searches where
  refl r := ⟨.refl r, rfl⟩
  trans h h' := ⟨h.toLater.trans h'.toLater, h'.tokens.trans h.tokens⟩
  later h := h.toLater

instance : Forward Spells where
  refl r := ⟨⟨.refl r, rfl⟩, rfl⟩
  trans h h' := ⟨⟨h.toLater.trans h'.toLater, h'.tokens.trans h.tokens⟩, h'.facts.trans h.facts⟩
  later h := h.toLater

theorem Later.module_eq (h : r.Later r') (id : ModuleId) : r'.module id = r.module id := by
  simp only [Registry.module, h.modules]

theorem Later.inScope? (h : r.Later r') {name : String} {scope : Option String} {t : TypeId}
    (ht : r.inScope? name scope = some t) : r'.inScope? name scope = some t := by
  cases scope with
  | none => cases ht
  | some s => exact h.hosts _ _ ht

/-! ### Positions that do not dangle -/

/-- The type is in the registry. -/
def Has (r : Registry) (t : TypeId) : Prop := t.index < r.types.size

/-- The method is in the registry. -/
def HasMethod (r : Registry) (id : MethodId) : Prop := id.index < r.methods.size

/-- All arguments are types of the registry. -/
def HasArgs (r : Registry) (args : List Binding) : Prop := ∀ b ∈ args, r.Has b.type

/-- Everything that the context binds is in the registry. -/
def HasContext (r : Registry) (c : GenericContext) : Prop :=
  (∀ t, c.type = some t → r.Has t) ∧ r.HasArgs c.methodArgs

/-- The types that a descriptor is instantiated with and from are there. -/
def Admits (r : Registry) (d : Descriptor) : Prop :=
  r.HasArgs d.args ∧ ∀ t, d.definition = some t → r.Has t

/-- The type that a method belongs to, its arguments and the method it instantiates are there. -/
def AdmitsMethod (r : Registry) (m : Method) : Prop :=
  r.Has m.declaring ∧ r.HasArgs m.args ∧ ∀ g, m.definition = some g → r.HasMethod g

theorem Extends.has (h : r.Extends r') {t : TypeId} (ht : r.Has t) : r'.Has t :=
  (Array.getElem?_eq_some_iff.mp (h.types _ _ (Array.getElem?_eq_getElem ht))).1

theorem Extends.hasMethod (h : r.Extends r') {id : MethodId} (hid : r.HasMethod id) :
    r'.HasMethod id :=
  (Array.getElem?_eq_some_iff.mp (h.methods _ _ (Array.getElem?_eq_getElem hid))).1

theorem Extends.method_eq (h : r.Extends r') {id : MethodId} (hid : r.HasMethod id) :
    r'.method id = r.method id := by
  have hsome := Array.getElem?_eq_getElem hid
  simp only [Registry.method, Array.getD_eq_getD_getElem?, hsome, h.methods _ _ hsome]

theorem Extends.typeName_eq (h : r.Extends r') {t : TypeId} (ht : r.Has t) :
    r'.typeName t = r.typeName t := congrArg Descriptor.name (h.type_eq ht)

theorem Extends.hasArgs (h : r.Extends r') {args : List Binding} (ha : r.HasArgs args) :
    r'.HasArgs args := fun b hb ↦ h.has (ha b hb)

theorem Extends.hasContext (h : r.Extends r') {c : GenericContext} (hc : r.HasContext c) :
    r'.HasContext c := ⟨fun t ht ↦ h.has (hc.1 t ht), h.hasArgs hc.2⟩

theorem Extends.admits (h : r.Extends r') {d : Descriptor} (hd : r.Admits d) : r'.Admits d :=
  ⟨h.hasArgs hd.1, fun t ht ↦ h.has (hd.2 t ht)⟩

theorem Extends.admitsMethod (h : r.Extends r') {m : Method} (hm : r.AdmitsMethod m) :
    r'.AdmitsMethod m :=
  ⟨h.has hm.1, h.hasArgs hm.2.1, fun g hg ↦ h.hasMethod (hm.2.2 g hg)⟩

/-- Every position that a registry holds is that of a type or method in it. -/
structure Sound (r : Registry) : Prop where
  types : ∀ (i : Nat) d, r.types[i]? = some d → r.Admits d
  methods : ∀ (i : Nat) m, r.methods[i]? = some m → r.AdmitsMethod m
  names : ∀ (name : String) t, r.names[name]? = some t → r.Has t
  hosts : ∀ (name : String) t, r.scoped_[name]? = some t → r.Has t
  definitions : ∀ (ref : Reference) t, r.definitions[ref]? = some t → r.Has t
  bases : ∀ (t b : TypeId), r.facts.bases[t]? = some (some b) → r.Has b
  declared : ∀ (t : TypeId) ids, r.facts.methods[t]? = some ids → ∀ id ∈ ids, r.HasMethod id
  instances : ∀ (key : MethodId × String) id, r.facts.instances[key]? = some id → r.HasMethod id

theorem Sound.type (h : r.Sound) {t : TypeId} (ht : r.Has t) : r.Admits (r.type t) := by
  have hsome := Array.getElem?_eq_getElem ht
  have hadmits := h.types _ _ hsome
  rwa [Registry.type, Array.getD_eq_getD_getElem?, hsome]

theorem Sound.method (h : r.Sound) {id : MethodId} (hid : r.HasMethod id) :
    r.AdmitsMethod (r.method id) := by
  have hsome := Array.getElem?_eq_getElem hid
  have hadmits := h.methods _ _ hsome
  rwa [Registry.method, Array.getD_eq_getD_getElem?, hsome]

theorem HasArgs.find? {args : List Binding} (h : r.HasArgs args) {name : String} {t : TypeId}
    (ht : Binding.find? args name = some t) : r.Has t := by
  obtain ⟨b, hb, rfl⟩ := Option.map_eq_some_iff.mp ht
  exact h b (List.mem_of_find?_eq_some hb)

/-- A parameter that the context binds means a type that is there. -/
theorem HasContext.find? (hs : r.Sound) {c : GenericContext} (hc : r.HasContext c) {name : String}
    {t : TypeId} (ht : c.find? r name = some t) : r.Has t := by
  unfold GenericContext.find? at ht
  cases hfirst : c.type.bind fun t ↦ Binding.find? (r.type t).args name with
  | some t' =>
    obtain ⟨type, htype, hfound⟩ := Option.bind_eq_some_iff.mp hfirst
    rw [hfirst] at ht
    cases ht
    exact (hs.type (hc.1 type htype)).1.find? hfound
  | none =>
    rw [hfirst] at ht
    exact hc.2.find? ht

/-- What a context binds, it binds for good. -/
theorem Extends.find?_eq (h : r.Extends r') {c : GenericContext} (hc : r.HasContext c)
    (name : String) : c.find? r' name = c.find? r name := by
  unfold GenericContext.find?
  cases htype : c.type with
  | none => rfl
  | some t => simp only [Option.bind_some, h.type_eq (hc.1 t htype)]

theorem hasContext_ofType {t : TypeId} (ht : r.Has t) : r.HasContext (.ofType t) :=
  ⟨fun _ h ↦ Option.some.inj h ▸ ht, fun _ h ↦ nomatch h⟩

theorem hasContext_ofMethod (hs : r.Sound) {id : MethodId} (hid : r.HasMethod id) :
    r.HasContext (.ofMethod (r.method id)) :=
  ⟨fun _ h ↦ Option.some.inj h ▸ (hs.method hid).1, (hs.method hid).2.1⟩

/-! ### Safe computations -/

variable {α β γ : Type} {R : Registry → Registry → Prop} {r₀ z : Registry}

/-- From a sound registry later than `r₀` the computation moves on as `R` says to a sound one, and
what it gives satisfies `Q` there. -/
structure Safe (R : Registry → Registry → Prop) (r₀ : Registry) (x : RegistryM α)
    (Q : α → Registry → Prop) : Prop where
  keeps : ∀ r, r₀.Later r → r.Sound → R r (endState x r) ∧ (endState x r).Sound
  yields : ∀ r a r', r₀.Later r → r.Sound → x r = .ok a r' → Q a r'

namespace Safe

variable {x : RegistryM α} {f : α → RegistryM β} {Q Q₁ : α → Registry → Prop}
  {Q₂ : β → Registry → Prop}

theorem ok (h : Safe R r₀ x Q) (hl : r₀.Later r) (hs : r.Sound) {a : α} (hx : x r = .ok a r') :
    R r r' ∧ r'.Sound := by
  have hk := h.keeps r hl hs
  rwa [endState_ok hx] at hk

/-- A computation that cannot fail. -/
theorem of_ok (h : ∀ r, r₀.Later r → r.Sound →
    ∃ a r', x r = .ok a r' ∧ R r r' ∧ r'.Sound ∧ Q a r') : Safe R r₀ x Q := by
  refine ⟨fun r hl hs ↦ ?_, fun r a r' hl hs hx ↦ ?_⟩ <;>
    obtain ⟨b, t, hok, hstep, hs', hQ⟩ := h r hl hs
  · exact endState_ok hok ▸ ⟨hstep, hs'⟩
  · rw [hok] at hx
    cases hx
    exact hQ

theorem imp (h : Safe R r₀ x Q) (hQ : ∀ a r', Q a r' → Q₁ a r') : Safe R r₀ x Q₁ :=
  ⟨h.keeps, fun r a r' hl hs hx ↦ hQ a r' (h.yields r a r' hl hs hx)⟩

theorem searches (h : Safe Spells r₀ x Q) : Safe Searches r₀ x Q :=
  ⟨fun r hl hs ↦ ⟨(h.keeps r hl hs).1.toSearches, (h.keeps r hl hs).2⟩, h.yields⟩

theorem modify {g : Registry → Registry} {Q : PUnit → Registry → Prop}
    (h : ∀ r, r₀.Later r → r.Sound → R r (g r) ∧ (g r).Sound ∧ Q ⟨⟩ (g r)) :
    Safe R r₀ (modify g) Q :=
  ⟨fun r hl hs ↦ ⟨(h r hl hs).1, (h r hl hs).2.1⟩, fun r _ r' hl hs hx ↦ by
    cases hx
    exact (h r hl hs).2.2⟩

/-- What follows may use that the registry it was handed is the one it starts in. -/
theorem get_bind {g : Registry → RegistryM β}
    (h : ∀ r, r₀.Later r → r.Sound → Safe R r (g r) Q₂) :
    Safe R r₀ (MonadState.get >>= g) Q₂ :=
  ⟨fun r hl hs ↦ (h r hl hs).keeps r (.refl r) hs,
    fun r b r' hl hs hx ↦ (h r hl hs).yields r b r' (.refl r) hs hx⟩

theorem ask_bind {query : Registry → α}
    (h : ∀ r, r₀.Later r → r.Sound → Safe R r (f (query r)) Q₂) :
    Safe R r₀ (Registry.ask query >>= f) Q₂ := get_bind h

variable [Forward R]

theorem pure {a : α} (h : ∀ r, r₀.Later r → r.Sound → Q a r) : Safe R r₀ (pure a) Q :=
  ⟨fun r _ hs ↦ ⟨Forward.refl r, hs⟩, fun r _ _ hl hs hx ↦ by
    cases hx
    exact h r hl hs⟩

/-- Nothing is asked of a computation that finds nothing. -/
theorem pure_none {Q : α → Registry → Prop} :
    Safe R r₀ (Pure.pure none) fun found r ↦ ∀ a, found = some a → Q a r :=
  pure fun _ _ _ _ h ↦ by cases h

theorem throw (e : Error) : Safe R r₀ (throw e : RegistryM α) Q :=
  ⟨fun r _ hs ↦ ⟨Forward.refl r, hs⟩, fun _ _ _ _ _ hx ↦ nomatch hx⟩

/-- A query changes nothing, and may use that the registry is sound. -/
theorem lift {query : Registry → Except Error α}
    (h : ∀ r a, r₀.Later r → r.Sound → query r = .ok a → Q a r) :
    Safe R r₀ (Registry.lift query) Q := by
  refine ⟨fun r hl hs ↦ ?_, fun r a r' hl hs hx ↦ ?_⟩
  · unfold endState Registry.lift
    cases query r <;> exact ⟨Forward.refl r, hs⟩
  · unfold Registry.lift at hx
    cases hq : query r with
    | ok a' =>
      rw [hq] at hx
      cases hx
      exact h r a hl hs hq
    | error e =>
      rw [hq] at hx
      cases hx

/-- The second part starts in a later registry, about which the first part has said `Q`. -/
theorem bind (hx : Safe R r₀ x Q)
    (hf : ∀ a r₁, r₀.Later r₁ → r₁.Sound → Q a r₁ → Safe R r₁ (f a) Q₂) :
    Safe R r₀ (x >>= f) Q₂ := by
  refine ⟨fun r hl hs ↦ ?_, fun r b r' hl hs hb ↦ ?_⟩
  · cases hr : x r with
    | ok a r₁ =>
      obtain ⟨hstep, hs₁⟩ := hx.ok hl hs hr
      have hl₁ := hl.trans (Forward.later hstep)
      have hnext := (hf a r₁ hl₁ hs₁ (hx.yields r a r₁ hl hs hr)).keeps r₁ (.refl r₁) hs₁
      exact endState_bind hr ▸ ⟨Forward.trans hstep hnext.1, hnext.2⟩
    | error e r₁ =>
      have hk := hx.keeps r hl hs
      rw [endState_error hr] at hk
      rwa [endState_error (bind_of_error hr)]
  · obtain ⟨a, r₁, hr, hrest⟩ := exists_of_bind hb
    obtain ⟨hstep, hs₁⟩ := hx.ok hl hs hr
    have hl₁ := hl.trans (Forward.later hstep)
    exact (hf a r₁ hl₁ hs₁ (hx.yields r a r₁ hl hs hr)).yields r₁ b r' (.refl r₁) hs₁ hrest

/-- Values of a list keep what was said of them while the rest is computed. -/
theorem mapM {g : γ → RegistryM α} (hQ : ∀ a r r', Q a r → r.Later r' → Q a r') :
    (cs : List γ) → {r₀ : Registry} →
    (∀ c ∈ cs, ∀ r₁, r₀.Later r₁ → Safe R r₁ (g c) Q) →
    Safe R r₀ (cs.mapM g) fun as r ↦ ∀ a ∈ as, Q a r
  | [], _, _ => pure fun _ _ _ _ h ↦ nomatch h
  | c :: cs, r₀, h => by
    rw [List.mapM_cons]
    refine (h c (.head _) r₀ (.refl r₀)).bind fun a r₁ hl₁ _ ha ↦ ?_
    refine (mapM hQ cs fun c' hc' r₂ hl₂ ↦ h c' (.tail _ hc') r₂ (hl₁.trans hl₂)).bind
      fun as r₂ hl₂ _ has ↦ ?_
    exact pure fun r₃ hl₃ _ ↦ List.forall_mem_cons.mpr
      ⟨hQ a r₁ r₃ ha (hl₂.trans hl₃), fun a' ha' ↦ hQ a' r₂ r₃ (has a' ha') hl₃⟩

end Safe

/-! ### Computations that settle -/

/-- No name can mean two types: a host type in use goes by its full name, and a name with a slash
that has a meaning has the one of the nested type that it spells. -/
structure Unambiguous (r : Registry) : Prop where
  hosts : ∀ name scope t, r.inScope? name scope = some t → r.names[name]? = some t
  nested : ∀ (name : String) t t', r.names[name]? = some t →
    r.names[name.map fun c ↦ if c = '/' then '+' else c]? = some t' → t = t'

/-- A safe computation after whose success `y` gives the same in `z` and changes nothing there,
if `z` is later still and no name in it is ambiguous. -/
structure Settles (z : Registry) (R : Registry → Registry → Prop) (r₀ : Registry)
    (x y : RegistryM α) (Q : α → Registry → Prop) : Prop extends Safe R r₀ x Q where
  again : ∀ r a r', r₀.Later r → r.Sound → x r = .ok a r' → r'.Later z → z.Unambiguous →
    y z = .ok a z

namespace Settles

variable {x y : RegistryM α} {f g : α → RegistryM β} {Q Q₁ : α → Registry → Prop}
  {Q₂ : β → Registry → Prop}

theorem imp (h : Settles z R r₀ x y Q) (hQ : ∀ a r', Q a r' → Q₁ a r') :
    Settles z R r₀ x y Q₁ :=
  ⟨h.toSafe.imp hQ, h.again⟩

theorem searches (h : Settles z Spells r₀ x y Q) : Settles z Searches r₀ x y Q :=
  ⟨h.toSafe.searches, h.again⟩

/-- What a result leaves behind is enough to find it again. -/
theorem of_known (h : Safe R r₀ x Q)
    (hy : ∀ a r, Q a r → r.Later z → z.Unambiguous → y z = .ok a z) :
    Settles z R r₀ x y Q :=
  ⟨h, fun r a r' hl hs hx ↦ hy a r' (h.yields r a r' hl hs hx)⟩

variable [Forward R]

theorem pure {a : α} (h : ∀ r, r₀.Later r → r.Sound → Q a r) :
    Settles z R r₀ (pure a) (pure a) Q :=
  ⟨.pure h, fun _ _ _ _ _ hx _ _ ↦ by
    cases hx
    rfl⟩

theorem pure_none {Q : α → Registry → Prop} :
    Settles z R r₀ (Pure.pure none) (Pure.pure none) fun found r ↦ ∀ a, found = some a → Q a r :=
  pure fun _ _ _ _ h ↦ by cases h

theorem throw (e : Error) : Settles z R r₀ (throw e : RegistryM α) y Q :=
  ⟨.throw e, fun _ _ _ _ _ hx ↦ nomatch hx⟩

/-- The second part is repeated with the value that the first part gives again. -/
theorem bind (hx : Settles z R r₀ x y Q)
    (hf : ∀ a r₁, r₀.Later r₁ → r₁.Sound → Q a r₁ → Settles z R r₁ (f a) (g a) Q₂) :
    Settles z R r₀ (x >>= f) (y >>= g) Q₂ := by
  refine ⟨hx.toSafe.bind fun a r₁ hl hs ha ↦ (hf a r₁ hl hs ha).toSafe,
    fun r b r' hl hs hb hlast hnames ↦ ?_⟩
  obtain ⟨a, r₁, hr, hrest⟩ := exists_of_bind hb
  obtain ⟨hstep, hs₁⟩ := hx.ok hl hs hr
  have hl₁ := hl.trans (Forward.later hstep)
  have hnext := hf a r₁ hl₁ hs₁ (hx.yields r a r₁ hl hs hr)
  have hl₂ := Forward.later (hnext.ok (.refl r₁) hs₁ hrest).1
  rw [bind_of_ok (hx.again r a r₁ hl hs hr (hl₂.trans hlast) hnames)]
  exact hnext.again r₁ b r' (.refl r₁) hs₁ hrest hlast hnames

/-- What is asked for has the same answer in `z`. -/
theorem ask_bind {query : Registry → α}
    (hsame : ∀ r, r₀.Later r → r.Later z → query z = query r)
    (h : ∀ r, r₀.Later r → r.Sound → Settles z R r (f (query r)) (g (query r)) Q₂) :
    Settles z R r₀ (Registry.ask query >>= f) (Registry.ask query >>= g) Q₂ := by
  refine ⟨.ask_bind fun r hl hs ↦ (h r hl hs).toSafe, fun r b r' hl hs hx hlast hnames ↦ ?_⟩
  have hrest := h r hl hs
  have hl' := (Forward.later (hrest.ok (.refl r) hs hx).1).trans hlast
  change g (query z) z = _
  rw [hsame r hl hl']
  exact hrest.again r b r' (.refl r) hs hx hlast hnames

/-- What follows reads in `z` what it read before. -/
theorem get_bind {g : Registry → RegistryM β}
    (hsame : ∀ r, r₀.Later r → r.Sound → r.Later z → g z = g r)
    (h : ∀ r, r₀.Later r → r.Sound → Settles z R r (g r) (g r) Q₂) :
    Settles z R r₀ (MonadState.get >>= g) (MonadState.get >>= g) Q₂ := by
  refine ⟨.get_bind fun r hl hs ↦ (h r hl hs).toSafe, fun r b r' hl hs hx hlast hnames ↦ ?_⟩
  have hrest := h r hl hs
  have hl' := (Forward.later (hrest.ok (.refl r) hs hx).1).trans hlast
  change g z z = _
  rw [hsame r hl hs hl']
  exact hrest.again r b r' (.refl r) hs hx hlast hnames

end Settles

end Registry

end ManagedMachine
