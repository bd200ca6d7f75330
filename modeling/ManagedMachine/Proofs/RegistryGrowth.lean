import ManagedMachine.Proofs.Keeping
import ManagedMachine.Registry.Members

/-!
The registry only grows. A type, a method, the meaning of a name and the layout of a type stay what
they are once they are there, whatever is resolved afterwards and whether or not that succeeds.
`Registry.Extends` says so of two registries, and each operation is shown to end in an extension of
the registry that it started with. `Building`, `Noting`, `Climbing`, `Asking`, `Learning` and
`Growth` name what is used of this relation: any other one that holds while types are made, and
while the registry notes what it has found out about them, is kept by the same operations.

A function is in one of the classes by what it writes, and its lemma is named `grows_` after it,
with the relation as a parameter. `Registry.Later` and its relatives in other modules are then
instances, and hold along every function of the registry without a second look at them.
-/

set_option autoImplicit false
set_option relaxedAutoImplicit false

namespace ManagedMachine

namespace Registry

/-- Everything that one registry knows of types, methods, names and layouts stands in the other. -/
structure Extends (r r' : Registry) : Prop where
  types : ∀ (i : Nat) d, r.types[i]? = some d → r'.types[i]? = some d
  methods : ∀ (i : Nat) m, r.methods[i]? = some m → r'.methods[i]? = some m
  names : ∀ (name : String) t, r.names[name]? = some t → r'.names[name]? = some t
  layouts : ∀ (t : TypeId) l, r.facts.layouts[t]? = some l → r'.facts.layouts[t]? = some l

theorem Extends.refl (r : Registry) : r.Extends r :=
  ⟨fun _ _ h ↦ h, fun _ _ h ↦ h, fun _ _ h ↦ h, fun _ _ h ↦ h⟩

theorem Extends.trans {r r' r'' : Registry} (h : r.Extends r') (h' : r'.Extends r'') :
    r.Extends r'' :=
  ⟨fun i d hd ↦ h'.types i d (h.types i d hd), fun i m hm ↦ h'.methods i m (h.methods i m hm),
    fun name t ht ↦ h'.names name t (h.names name t ht),
    fun t l hl ↦ h'.layouts t l (h.layouts t l hl)⟩

instance : IsPreorder Registry Extends where
  refl := Extends.refl
  trans _ _ _ := Extends.trans

/-- A registry that differs only in tables which `Extends` does not speak of. -/
theorem Extends.of_eq {r r' : Registry} (htypes : r'.types = r.types)
    (hmethods : r'.methods = r.methods) (hnames : r'.names = r.names)
    (hlayouts : r'.facts.layouts = r.facts.layouts) : r.Extends r' := by
  refine ⟨?_, ?_, ?_, ?_⟩
  · intro i d h
    rwa [htypes]
  · intro i m h
    rwa [hmethods]
  · intro name t h
    rwa [hnames]
  · intro t l h
    rwa [hlayouts]

theorem Extends.type_eq {r r' : Registry} (h : r.Extends r') {t : TypeId}
    (ht : t.index < r.types.size) : r'.type t = r.type t := by
  have hsome := Array.getElem?_eq_getElem ht
  simp only [Registry.type, Array.getD_eq_getD_getElem?, hsome, h.types _ _ hsome]

theorem getElem?_insertIfNew_of_some {κ α : Type} [BEq κ] [Hashable κ] [LawfulBEq κ]
    {m : Std.HashMap κ α} {k k' : κ} {a b : α} (h : m[k]? = some a) :
    (m.insertIfNew k' b)[k]? = some a := by
  have hk : k ∈ m := by
    rw [Std.HashMap.mem_iff_isSome_getElem?, h]
    rfl
  rw [Std.HashMap.getElem?_insertIfNew, if_neg, h]
  rintro ⟨heq, hnew⟩
  exact hnew (eq_of_beq heq ▸ hk)

/-! ### Adding -/

/-- The computation extends the registry, whether it succeeds or fails. -/
abbrev Grows {α : Type} (x : RegistryM α) : Prop := Keeps Extends x

variable {α β : Type} {R : Registry → Registry → Prop}

theorem grows_ask [IsPreorder Registry R] (query : Registry → α) : Keeps R (ask query) :=
  fun r ↦ refl_of R r

theorem grows_lift [IsPreorder Registry R] (query : Registry → Except Error α) :
    Keeps R (lift query) := by
  intro r
  unfold endState lift
  cases query r <;> exact refl_of R r

theorem grows_addType (d : Descriptor) : Grows (addType d) := fun _ ↦
  ⟨fun _ _ h ↦ getElem?_push_of_some h, fun _ _ h ↦ h, fun _ _ h ↦ h, fun _ _ h ↦ h⟩

theorem grows_addName (name : String) (t : TypeId) : Grows (addName name t) :=
  Keeps.modify fun _ ↦
    ⟨fun _ _ h ↦ h, fun _ _ h ↦ h, fun _ _ h ↦ getElem?_insertIfNew_of_some h, fun _ _ h ↦ h⟩

/-- A relation in which a registry stays with itself while types and names are added to it, and
while it notes what is known of neither. -/
class Adding (R : Registry → Registry → Prop) : Prop extends IsPreorder Registry R where
  addType : ∀ d, Keeps R (addType d)
  addName : ∀ name t, Keeps R (addName name t)
  aside : ∀ {r r' : Registry}, r'.types = r.types → r'.names = r.names → r'.methods = r.methods →
    r'.facts = r.facts → r'.modules = r.modules → r'.strings = r.strings → r'.tokens = r.tokens →
    R r r'

instance : Adding Extends where
  addType := grows_addType
  addName := grows_addName
  aside htypes hnames hmethods hfacts _ _ _ := .of_eq htypes hmethods hnames (hfacts ▸ rfl)

/-- A relation in which a registry stays with itself while types are added to it. -/
class Building (R : Registry → Registry → Prop) : Prop extends IsPreorder Registry R where
  makeArray : ∀ element rank, Keeps R (makeArray element rank)
  makeByRef : ∀ element, Keeps R (makeByRef element)
  makeParameter : ∀ name, Keeps R (makeParameter name)
  makeInstance : ∀ definition args, Keeps R (makeInstance definition args)
  ofHostType : ∀ type, Keeps R (ofHostType type)

section Adding

variable [Adding R]

theorem grows_intern (d : Descriptor) : Keeps R (intern d) := by
  unfold intern
  refine (grows_ask _).bind fun known ↦ ?_
  split
  · exact .pure _
  · exact (Adding.addType d).bind fun t ↦ (Adding.addName _ _).seqRight (.pure t)

instance : Building R where
  makeArray _ _ := (grows_ask _).bind fun _ ↦ grows_intern _
  makeByRef _ := (grows_ask _).bind fun _ ↦ grows_intern _
  makeParameter _ := grows_intern _
  makeInstance _ _ := by
    unfold makeInstance
    refine Keeps.get.bind fun r ↦ ?_
    dsimp only
    split
    · exact .throw _
    · exact grows_intern _
  ofHostType _ := by
    unfold ofHostType
    refine (grows_ask _).bind fun known ↦ ?_
    split
    · exact .pure _
    · refine (Adding.addType _).bind fun t ↦ ?_
      refine Keeps.seqRight (.modify fun r ↦ ?_) ((Adding.addName _ _).seqRight ?_)
      · exact Adding.aside rfl rfl rfl rfl rfl rfl rfl
      · split
        · refine Keeps.seqRight (.modify fun r ↦ ?_) (.pure t)
          exact Adding.aside rfl rfl rfl rfl rfl rfl rfl
        · exact .pure t

theorem grows_addDefinitions (home : Home) :
    (defs : List (Nat × TypeDef)) → Keeps R (addDefinitions home defs)
  | [] => .pure ()
  | (_, _) :: rest => by
    unfold addDefinitions
    refine (Adding.addType _).bind fun t ↦ Keeps.get.bind fun r ↦ ?_
    split
    · exact .throw _
    · refine (Adding.addName _ _).seqRight (Keeps.seqRight (.modify fun r ↦ ?_) ?_)
      · exact Adding.aside rfl rfl rfl rfl rfl rfl rfl
      · exact grows_addDefinitions home rest

theorem grows_loadModule (m : Module) (hpush : ∀ r, R r { r with modules := r.modules.push m }) :
    Keeps R (loadModule m) := by
  refine Keeps.get_bind fun r ↦ ?_
  split
  · exact refl_of R r
  · split
    · exact refl_of R r
    · refine trans_of R (hpush r) (((grows_addDefinitions _ _).bind fun _ ↦ ?_) _)
      split
      · refine Keeps.seqRight (.modify fun r ↦ ?_) (.pure _)
        exact Adding.aside rfl rfl rfl rfl rfl rfl rfl
      · exact .pure _

end Adding

/-! ### Names -/

section Building

variable [Building R]

theorem grows_definedType (id : ModuleId) (token : Token) : Keeps R (definedType id token) := by
  unfold definedType
  refine (grows_ask _).bind fun known ↦ ?_
  split
  · exact .pure _
  · exact .throw _

theorem grows_lookup? (name : String) (scope : Option String) : Keeps R (lookup? name scope) := by
  unfold lookup?
  refine Keeps.get.bind fun r ↦ ?_
  split
  · exact .pure _
  · split
    · exact (Building.ofHostType _).bind fun t ↦ .pure _
    · exact .pure _

theorem grows_resolveIn (name : String) (scope : Option String) :
    Keeps R (resolveIn name scope) := by
  unfold resolveIn
  refine (grows_lookup? _ _).bind fun found ↦ ?_
  split
  · exact .pure _
  · dsimp only
    split
    · refine (grows_lookup? _ _).bind fun nested ↦ ?_
      cases nested
      · exact .throw _
      · exact .pure _
    · exact .throw _

mutual

theorem grows_resolveParsed : (name : TypeName) → Keeps R (resolveParsed name)
  | .simple name scope => by
    unfold resolveParsed
    exact grows_resolveIn _ _
  | .array element rank => by
    unfold resolveParsed
    exact (grows_resolveParsed element).bind fun _ ↦ Building.makeArray _ _
  | .byRef inner => by
    unfold resolveParsed
    exact (grows_resolveParsed inner).bind fun _ ↦ Building.makeByRef _
  | .generic head args => by
    unfold resolveParsed
    exact (grows_resolveParsed head).bind fun _ ↦
      (grows_resolveAllParsed args).bind fun _ ↦ Building.makeInstance _ _

theorem grows_resolveAllParsed : (names : List TypeName) → Keeps R (resolveAllParsed names)
  | [] => by
    unfold resolveAllParsed
    exact .pure _
  | name :: rest => by
    unfold resolveAllParsed
    exact (grows_resolveParsed name).bind fun _ ↦
      (grows_resolveAllParsed rest).bind fun _ ↦ .pure _

end

theorem grows_coreType (name : String) : Keeps R (coreType name) := grows_resolveIn _ _

theorem grows_primitive (p : Primitive) : Keeps R (primitive p) := grows_coreType _

theorem grows_typeOfData (kind : HostKind) : Keeps R (typeOfData kind) := by
  unfold typeOfData
  refine Keeps.get.bind fun r ↦ ?_
  split
  · exact .pure _
  · split
    · exact Building.ofHostType _
    · exact .throw _

end Building

/-- The registries know the same types under the same names; there may be more methods, layouts and
remembered answers in the second. -/
structure Files (r r' : Registry) : Prop where
  types : r'.types = r.types
  names : r'.names = r.names
  scoped_ : r'.scoped_ = r.scoped_
  definitions : r'.definitions = r.definitions
  methods : ∀ (i : Nat) m, r.methods[i]? = some m → r'.methods[i]? = some m
  layouts : ∀ (t : TypeId) l, r.facts.layouts[t]? = some l → r'.facts.layouts[t]? = some l

/-- The modules and the texts are the same as well. -/
structure Notes (r r' : Registry) : Prop extends Files r r' where
  modules : r'.modules = r.modules
  host : r'.host = r.host
  strings : r'.strings = r.strings
  texts : r'.tokens.strings = r.tokens.strings

/-- What has been found out about the bases, the interfaces, the fields and the methods of types is
the same as well. -/
structure Quiet (r r' : Registry) : Prop extends Notes r r' where
  bases : r'.facts.bases = r.facts.bases
  interfaces : r'.facts.interfaces = r.facts.interfaces
  laid : r'.facts.layouts = r.facts.layouts
  declared : r'.facts.methods = r.facts.methods

/-- A relation in which a registry stays with itself under everything that is resolved in it without
asking a type for its bases, interfaces, fields or methods. -/
class Noting (R : Registry → Registry → Prop) : Prop extends Building R where
  resolve : ∀ name, Keeps R (resolve name)
  resolveString : ∀ home token, Keeps R (resolveString home token)
  quiet : ∀ {r r'}, Quiet r r' → R r r'

/-- A relation in which a registry stays with itself while types are asked for their bases, their
interfaces and their methods. -/
class Climbing (R : Registry → Registry → Prop) : Prop extends IsPreorder Registry R where
  baseType : ∀ t, Keeps R (baseType t)
  interfaces : ∀ t, Keeps R (interfaces t)
  methodsOf : ∀ t, Keeps R (methodsOf t)

/-- A relation in which a registry stays with itself under everything that is resolved in it without
asking a type for its fields. -/
class Asking (R : Registry → Registry → Prop) : Prop extends Noting R, Climbing R

/-- A relation in which a registry stays with itself under everything that is resolved in it. -/
class Learning (R : Registry → Registry → Prop) : Prop extends Asking R where
  layout : ∀ fuel t, Keeps R (layout fuel t)

/-- A relation that does not speak of what is noted, apart from the layouts of types. -/
class Growth (R : Registry → Registry → Prop) : Prop extends Building R where
  resolve : ∀ name, Keeps R (resolve name)
  resolveString : ∀ home token, Keeps R (resolveString home token)
  notes : ∀ {r r'}, Notes r r' → R r r'

instance [Growth R] : Noting R where
  resolve := Growth.resolve
  resolveString := Growth.resolveString
  quiet h := Growth.notes h.toNotes

/-- What leaves types, names, methods, layouts and modules alone only notes. -/
theorem Noting.of_eq [Noting R] {r r' : Registry} (htypes : r'.types = r.types)
    (hnames : r'.names = r.names) (hscoped : r'.scoped_ = r.scoped_)
    (hdefinitions : r'.definitions = r.definitions) (hmethods : r'.methods = r.methods)
    (hlayouts : r'.facts.layouts = r.facts.layouts) (hmodules : r'.modules = r.modules)
    (hhost : r'.host = r.host) (hstrings : r'.strings = r.strings)
    (htexts : r'.tokens.strings = r.tokens.strings) (hbases : r'.facts.bases = r.facts.bases)
    (hinterfaces : r'.facts.interfaces = r.facts.interfaces)
    (hdeclared : r'.facts.methods = r.facts.methods) : R r r' :=
  Noting.quiet
    { types := htypes
      names := hnames
      scoped_ := hscoped
      definitions := hdefinitions
      methods := hmethods ▸ fun _ _ h ↦ h
      layouts := hlayouts ▸ fun _ _ h ↦ h
      modules := hmodules
      host := hhost
      strings := hstrings
      texts := htexts
      bases := hbases
      interfaces := hinterfaces
      laid := hlayouts
      declared := hdeclared }

/-- Everything but the texts is the same after a literal was looked up. -/
theorem endState_resolveString (r : Registry) (home : ModuleId) (token : Token) :
    ∃ strings texts, endState (resolveString home token) r =
      { r with strings, tokens := { r.tokens with strings := texts } } := by
  have hrefl :
      ∃ strings texts, r = { r with strings, tokens := { r.tokens with strings := texts } } :=
    ⟨r.strings, r.tokens.strings, rfl⟩
  unfold endState
  cases hknown : (r.tokens.strings[Reference.mk home token]?).bind r.strings.get? with
  | some literal =>
    simp only [Registry.resolveString, bind, EStateM.bind, get, getThe, MonadStateOf.get,
      EStateM.get, hknown]
    exact hrefl
  | none =>
    cases hmodule : r.module home with
    | error e =>
      simp only [Registry.resolveString, bind, EStateM.bind, get, getThe, MonadStateOf.get,
        EStateM.get, hknown, lift, hmodule]
      exact hrefl
    | ok m =>
      cases hstring : m.userString token with
      | error e =>
        simp only [Registry.resolveString, bind, EStateM.bind, get, getThe, MonadStateOf.get,
          EStateM.get, hknown, lift, hmodule, hstring]
        exact hrefl
      | ok literal =>
        simp only [Registry.resolveString, bind, EStateM.bind, get, getThe, MonadStateOf.get,
          EStateM.get, hknown, lift, hmodule, hstring]
        exact ⟨_, _, rfl⟩

theorem files_resolveString (home : ModuleId) (token : Token) :
    Keeps Files (resolveString home token) := by
  intro r
  obtain ⟨strings, texts, hend⟩ := endState_resolveString r home token
  rw [hend]
  exact ⟨rfl, rfl, rfl, rfl, fun _ _ h ↦ h, fun _ _ h ↦ h⟩

theorem Files.extends {r r' : Registry} (h : Files r r') : r.Extends r' :=
  ⟨fun _ _ ht ↦ h.types ▸ ht, h.methods, fun _ _ ht ↦ h.names ▸ ht, h.layouts⟩

/-- A name is resolved within any relation that lets types and names be added. -/
theorem keeps_resolve [Adding R] (name : String) : Keeps R (resolve name) := by
  unfold resolve
  refine (grows_ask _).bind fun known ↦ ?_
  split
  · exact .pure _
  · split
    · exact .throw _
    · exact (grows_resolveParsed _).bind fun t ↦ (Adding.addName _ _).seqRight (.pure t)

instance : Growth Extends where
  resolve := keeps_resolve
  resolveString home token := (files_resolveString home token).mono fun _ _ ↦ Files.extends
  notes h := h.toFiles.extends

/-! ### Signatures -/

/-- What is wrapped around the type that a part of a signature was resolved to. -/
def wrapAround (wrap : TypeId → RegistryM TypeId) (closed : Bool) : Resolution →
    RegistryM Resolution
  | .fixed t => do return .make (← wrap t) closed
  | .dependent t => do return .dependent (← wrap t)
  | .unbound name => return .unbound name

theorem resolveSignature_byRef (home : ModuleId) (c : GenericContext) (inner : Signature) :
    resolveSignature home c (.byRef inner) =
      resolveSignature home c inner >>= wrapAround makeByRef !inner.isOpen := by
  rw [resolveSignature]
  rfl

theorem resolveSignature_array (home : ModuleId) (c : GenericContext) (element : Signature)
    (rank : UInt8) : resolveSignature home c (.array element rank) =
      resolveSignature home c element >>= wrapAround (makeArray · rank) !element.isOpen := by
  rw [resolveSignature]
  rfl

section Building

variable [Building R]

theorem grows_wrapAround {wrap : TypeId → RegistryM TypeId} (closed : Bool)
    (hwrap : ∀ t, Keeps R (wrap t)) (found : Resolution) :
    Keeps R (wrapAround wrap closed found) := by
  cases found with
  | fixed t | dependent t => exact (hwrap t).bind fun _ ↦ .pure _
  | unbound name => exact .pure _

mutual

/-- By recursion on the signature. Types are made from its parts outwards. -/
theorem grows_resolveSignature (home : ModuleId) (c : GenericContext) :
    (s : Signature) → Keeps R (resolveSignature home c s)
  | .definition token => by
    unfold resolveSignature
    exact (grows_definedType _ _).bind fun _ ↦ .pure _
  | .named name scope => by
    unfold resolveSignature
    exact (grows_resolveIn _ _).bind fun _ ↦ .pure _
  | .parameter name => by
    unfold resolveSignature
    refine (grows_ask _).bind fun bound ↦ ?_
    split <;> exact .pure _
  | .byRef inner => by
    rw [resolveSignature_byRef]
    exact (grows_resolveSignature home c inner).bind (grows_wrapAround _ Building.makeByRef)
  | .array element rank => by
    rw [resolveSignature_array]
    exact (grows_resolveSignature home c element).bind
      (grows_wrapAround _ fun t ↦ Building.makeArray t rank)
  | .instantiation head args => by
    unfold resolveSignature
    refine (grows_resolveSignature home c head).bind fun resolved ↦ ?_
    have hargs (definition : TypeId) : Keeps (ε := Error) R (do
        let (args', fixed_) ← resolveArguments home c args
        let t ← makeInstance definition args'
        return Resolution.make t (fixed_ && !(Signature.instantiation head args).isOpen)) :=
      (grows_resolveArguments home c args).bind fun _ ↦
        (Building.makeInstance _ _).bind fun _ ↦ .pure _
    split
    · exact .pure _
    · exact hargs _
    · exact hargs _
  | .pointer inner => by
    unfold resolveSignature
    exact .throw _
  | .functionPointer => by
    unfold resolveSignature
    exact .throw _

theorem grows_resolveArguments (home : ModuleId) (c : GenericContext) :
    (signatures : List Signature) → Keeps R (resolveArguments home c signatures)
  | [] => by
    unfold resolveArguments
    exact .pure _
  | s :: rest => by
    unfold resolveArguments
    refine (grows_resolveSignature home c s).bind fun resolved ↦ ?_
    have hrest (first : TypeId × Bool) : Keeps (ε := Error) R (do
        let (ts, restFixed) ← resolveArguments home c rest
        return (first.1 :: ts, first.2 && restFixed)) :=
      (grows_resolveArguments home c rest).bind fun _ ↦ .pure _
    split
    · exact hrest (_, true)
    · exact hrest (_, false)
    · exact (Building.makeParameter _).bind fun t ↦ hrest (t, false)

end

theorem grows_resolveType (home : ModuleId) (c : GenericContext) (s : Signature) :
    Keeps R (resolveType home c s) := by
  unfold resolveType
  refine (grows_resolveSignature home c s).bind fun resolved ↦ ?_
  split
  · exact .pure _
  · exact .pure _
  · exact Building.makeParameter _

theorem grows_resolveTypes (home : ModuleId) (c : GenericContext) (signatures : List Signature) :
    Keeps R (resolveTypes home c signatures) :=
  .mapM (grows_resolveType home c) signatures

theorem grows_findBase (t : TypeId) (d : Descriptor) : Keeps R (findBase t d) := by
  unfold findBase
  split
  · split
    · exact .throw _
    · split
      · exact (grows_resolveType _ _ _).bind fun _ ↦ .pure _
      · split
        · exact .pure _
        · split <;> exact (grows_coreType _).bind fun _ ↦ .pure _
  · split
    · exact (grows_resolveIn _ _).bind fun _ ↦ .pure _
    · exact .pure _
  · exact (grows_coreType _).bind fun _ ↦ .pure _
  · exact .pure _
  · exact .pure _

theorem grows_findInterfaces (t : TypeId) (d : Descriptor) : Keeps R (findInterfaces t d) := by
  unfold findInterfaces
  split
  · split
    · exact grows_resolveTypes _ _ _
    · exact .pure _
  · exact .mapM (fun _ ↦ grows_resolveIn _ _) _
  · exact .pure _

end Building

section Noting

variable [Noting R]

theorem grows_resolve (name : String) : Keeps R (resolve name) := Noting.resolve name

theorem grows_addMethod (m : Method) : Keeps R (addMethod m) := fun _ ↦
  Noting.quiet ⟨⟨⟨rfl, rfl, rfl, rfl, fun _ _ h ↦ getElem?_push_of_some h, fun _ _ h ↦ h⟩, rfl, rfl,
    rfl, rfl⟩, rfl, rfl, rfl, rfl⟩

theorem grows_resolveTypeToken (home : ModuleId) (token : Token) (c : GenericContext) :
    Keeps R (resolveTypeToken home token c) := by
  unfold resolveTypeToken
  refine (grows_ask _).bind fun known ↦ ?_
  split
  · exact .pure _
  · refine (grows_lift _).bind fun m ↦ (grows_lift _).bind fun s ↦ ?_
    refine (grows_resolveSignature home c s).bind fun resolved ↦ ?_
    split
    · refine Keeps.seqRight (.modify fun r ↦ ?_) (.pure _)
      exact Noting.of_eq rfl rfl rfl rfl rfl rfl rfl rfl rfl rfl rfl rfl rfl
    · exact .pure _
    · exact .throw _

/-! ### Members -/

theorem grows_hostSignature (declaring : TypeId) (type : HostType) (params : List String)
    (args : List Binding) (name : String) :
    Keeps R (hostSignature declaring type params args name) := by
  unfold hostSignature
  refine (grows_ask _).bind fun bound ↦ ?_
  split
  · exact .pure _
  · split
    · exact Building.makeParameter _
    · split
      · exact .throw _
      · split
        · exact grows_resolveIn _ _
        · exact grows_resolve _

theorem grows_addDefinedMethods (home : Home) (t : TypeId) :
    (methods : List (Token × MethodDef)) → Keeps R (addDefinedMethods home t methods)
  | [] => .pure _
  | (_, _) :: rest =>
    (grows_resolveTypes _ _ _).bind fun _ ↦ (grows_resolveType _ _ _).bind fun _ ↦
      (grows_addMethod _).bind fun _ ↦ (grows_addDefinedMethods home t rest).bind fun _ ↦ .pure _

theorem grows_addHostMethods (type : HostType) (t : TypeId) :
    (methods : List HostMethod) → Keeps R (addHostMethods type t methods)
  | [] => .pure _
  | _ :: rest =>
    (Keeps.mapM (grows_hostSignature _ _ _ _) _).bind fun _ ↦
      (grows_hostSignature _ _ _ _ _).bind fun _ ↦
        (grows_addMethod _).bind fun _ ↦ (grows_addHostMethods type t rest).bind fun _ ↦ .pure _

/-- Base types are found within any relation that lets them be kept. -/
theorem keeps_baseType (hkeep : ∀ (r : Registry) (t : TypeId) base,
    R r { r with facts := { r.facts with bases := r.facts.bases.insert t base } }) (t : TypeId) :
    Keeps R (baseType t) := by
  unfold baseType
  refine (grows_ask _).bind fun known ↦ ?_
  split
  · exact .pure _
  · exact (grows_ask _).bind fun d ↦ (grows_findBase t d).bind fun base ↦
      Keeps.seqRight (.modify fun r ↦ hkeep r t base) (.pure base)

theorem keeps_interfaces (hkeep : ∀ (r : Registry) (t : TypeId) found,
    R r { r with facts := { r.facts with interfaces := r.facts.interfaces.insert t found } })
    (t : TypeId) : Keeps R (interfaces t) := by
  unfold interfaces
  refine (grows_ask _).bind fun known ↦ ?_
  split
  · exact .pure _
  · exact (grows_ask _).bind fun d ↦ (grows_findInterfaces t d).bind fun found ↦
      Keeps.seqRight (.modify fun r ↦ hkeep r t found) (.pure found)

theorem keeps_methodsOf (hkeep : ∀ (r : Registry) (t : TypeId) found,
    R r { r with facts := { r.facts with methods := r.facts.methods.insert t found } })
      (t : TypeId) :
    Keeps R (methodsOf t) := by
  unfold methodsOf
  refine (grows_ask _).bind fun known ↦ ?_
  have hlast (found : List MethodId) : Keeps (ε := Error) R (do
      modify fun r => { r with facts := { r.facts with methods := r.facts.methods.insert t found } }
      return found) := Keeps.seqRight (.modify fun r ↦ hkeep r t found) (.pure found)
  split
  · exact .pure _
  · refine (grows_ask _).bind fun d ↦ ?_
    split
    · exact (grows_lift _).bind fun owner ↦ (grows_addDefinedMethods _ _ _).bind hlast
    · exact (grows_addHostMethods _ _ _).bind hlast
    · exact (Keeps.pure []).bind hlast

end Noting

instance [Growth R] : Asking R where
  baseType := keeps_baseType fun _ _ _ ↦ Growth.notes
    ⟨⟨rfl, rfl, rfl, rfl, fun _ _ h ↦ h, fun _ _ h ↦ h⟩, rfl, rfl, rfl, rfl⟩
  interfaces := keeps_interfaces fun _ _ _ ↦ Growth.notes
    ⟨⟨rfl, rfl, rfl, rfl, fun _ _ h ↦ h, fun _ _ h ↦ h⟩, rfl, rfl, rfl, rfl⟩
  methodsOf := keeps_methodsOf fun _ _ _ ↦ Growth.notes
    ⟨⟨rfl, rfl, rfl, rfl, fun _ _ h ↦ h, fun _ _ h ↦ h⟩, rfl, rfl, rfl, rfl⟩

/-! ### Bases and interfaces -/

section Climbing

variable [Climbing R]

theorem grows_baseType (t : TypeId) : Keeps R (baseType t) := Climbing.baseType t

theorem grows_methodsOf (t : TypeId) : Keeps R (methodsOf t) := Climbing.methodsOf t

theorem grows_interfaces (t : TypeId) : Keeps R (interfaces t) := Climbing.interfaces t

theorem grows_walk {visit : TypeId → RegistryM (Visit α)} (h : ∀ t, Keeps R (visit t)) :
    (fuel : Nat) → (t : TypeId) → Keeps R (walk visit fuel t)
  | 0, _ => .throw _
  | fuel + 1, t => by
    unfold walk
    refine (h t).bind fun visited ↦ ?_
    split
    · exact .pure _
    · exact .pure _
    · refine (grows_baseType t).bind fun base ↦ ?_
      split
      · exact grows_walk h fuel _
      · exact .pure _

theorem grows_visitWith {find : TypeId → RegistryM (Option α)} (h : ∀ t, Keeps R (find t))
    (t : TypeId) : Keeps R (visitWith find t) := by
  unfold visitWith
  refine (h t).bind fun found ↦ ?_
  split <;> exact .pure _

theorem grows_firstHostBase (fuel : Nat) (t : TypeId) : Keeps R (firstHostBase fuel t) :=
  grows_walk (grows_visitWith fun _ ↦ grows_ask _) fuel t

/-- By recursion on the bound on the way up. -/
theorem grows_reaches (target : TypeId) : (fuel : Nat) → (t : TypeId) →
    Keeps R (reaches target fuel t)
  | 0, _ => .throw _
  | fuel + 1, t => by
    unfold reaches
    split
    · exact .pure _
    · refine (grows_ask _).bind fun isInterface ↦ ?_
      have hbase {y : Option TypeId → RegistryM Bool} (hnone : y none = pure false)
          (hsome : ∀ base, y (some base) = reaches target fuel base) :
          Keeps R (baseType t >>= y) := by
        refine (grows_baseType t).bind fun base ↦ ?_
        cases base with
        | none => exact hnone ▸ .pure _
        | some base => exact hsome base ▸ grows_reaches target fuel base
      cases isInterface with
      | false => exact hbase rfl fun _ ↦ rfl
      | true =>
        refine (grows_interfaces t).bind fun found ↦ ?_
        refine (Keeps.anyM (grows_reaches target fuel) found).bind fun among ↦ ?_
        cases among with
        | true => exact .pure _
        | false => exact hbase rfl fun _ ↦ rfl

theorem grows_isAssignable (fuel : Nat) (source target : TypeId) :
    Keeps R (isAssignable fuel source target) := by
  unfold isAssignable
  refine Keeps.get.bind fun r ↦ ?_
  split
  · exact .pure _
  · split
    · exact .pure _
    · exact grows_reaches _ _ _

theorem grows_firstMethod (methods : List MethodId) (p : Method → Bool) :
    Keeps R (firstMethod methods p) := grows_ask _

theorem grows_findMethod (fuel : Nat) (t : TypeId) (name : String) (count : Nat) :
    Keeps R (findMethod fuel t name count) :=
  grows_walk (grows_visitWith fun t ↦ (grows_methodsOf t).bind fun _ ↦ grows_firstMethod _ _) fuel t

theorem grows_constructors (t : TypeId) : Keeps R (constructors t) :=
  (grows_methodsOf t).bind fun _ ↦ grows_ask _

theorem grows_typeInitializer (t : TypeId) : Keeps R (typeInitializer t) :=
  (grows_methodsOf t).bind fun _ ↦ grows_firstMethod _ _

theorem grows_findOverride (fuel : Nat) (receiver : TypeId) (id : MethodId) :
    Keeps R (findOverride fuel receiver id) := by
  unfold findOverride
  refine (grows_ask _).bind fun m ↦ ?_
  split
  · exact .pure _
  · refine (grows_walk (fun t ↦ ?_) fuel receiver).bind fun _ ↦ .pure _
    split
    · exact .pure _
    · exact grows_visitWith (fun t ↦ (grows_methodsOf t).bind fun _ ↦ grows_firstMethod _ _) t

end Climbing

section Asking

variable [Asking R]

/-! ### Layouts -/

theorem grows_appendDefinedFields (home : ModuleId) (t : TypeId) :
    (fields : List FieldDef) → (l : FieldLayout) → Keeps R (appendDefinedFields home t l fields)
  | [], _ => .pure _
  | _ :: rest, _ =>
    (grows_resolveType _ _ _).bind fun _ ↦ grows_appendDefinedFields home t rest _

theorem grows_appendHostFields (moduleName : String) (t : TypeId) :
    (fields : List HostField) → (l : FieldLayout) → Keeps R (appendHostFields moduleName t l fields)
  | [], _ => .pure _
  | _ :: rest, _ => (grows_resolveIn _ _).bind fun _ ↦ grows_appendHostFields moduleName t rest _

theorem grows_buildLayout {inherited : TypeId → RegistryM FieldLayout}
    (h : ∀ t, Keeps R (inherited t)) (t : TypeId) : Keeps R (buildLayout inherited t) := by
  unfold buildLayout
  refine (grows_ask _).bind fun d ↦ ?_
  split
  · refine (grows_baseType t).bind fun base ↦ ?_
    have hfields (home : Home) (token : Token) (start : FieldLayout) : Keeps (ε := Error) R (do
        let rows ← lift fun _ ↦ home.content.fieldsOf token
        appendDefinedFields home.id t start (rows.map Prod.snd)) :=
      (grows_lift _).bind fun _ ↦ grows_appendDefinedFields _ _ _ _
    split
    · refine (grows_ask _).bind fun d ↦ ?_
      split
      · exact (h _).bind fun l ↦ hfields _ _ _
      · exact hfields _ _ _
    · exact hfields _ _ _
  · exact grows_appendHostFields _ _ _ _
  · exact .pure _

/-- The registry with a layout for a type that had none. -/
def withLayout (r : Registry) (t : TypeId) (l : FieldLayout) : Registry :=
  { r with facts := { r.facts with layouts := r.facts.layouts.insertIfNew t l } }

theorem notes_withLayout (r : Registry) (t : TypeId) (l : FieldLayout) :
    Notes r (r.withLayout t l) :=
  ⟨⟨rfl, rfl, rfl, rfl, fun _ _ h ↦ h, fun _ _ h ↦ getElem?_insertIfNew_of_some h⟩, rfl, rfl, rfl,
    rfl⟩

/-- Layouts are worked out within any relation that lets them be kept. -/
theorem keeps_layout (hkeep : ∀ r t l, R r (withLayout r t l)) :
    (fuel : Nat) → (t : TypeId) → Keeps R (layout fuel t)
  | 0, _ => .throw _
  | fuel + 1, t => by
    unfold layout
    refine (grows_ask _).bind fun known ↦ ?_
    split
    · exact .pure _
    · refine (grows_buildLayout (keeps_layout hkeep fuel) t).bind fun l ↦ ?_
      exact Keeps.seqRight (.modify fun r ↦ hkeep r t l) (grows_ask _)

end Asking

instance [Growth R] : Learning R where
  layout := keeps_layout fun r t l ↦ Growth.notes (notes_withLayout r t l)

theorem grows_layout [Learning R] (fuel : Nat) (t : TypeId) : Keeps R (layout fuel t) :=
  Learning.layout fuel t

theorem layout_of_known {fuel : Nat} {t : TypeId} {r : Registry} {l : FieldLayout}
    (h : r.facts.layouts[t]? = some l) : layout (fuel + 1) t r = .ok l r := by
  have hask : ask (·.facts.layouts[t]?) r = .ok (some l) r := by rw [ask, h]
  exact bind_of_ok hask

/-- A layout that was worked out is the one that the registry keeps. -/
theorem layouts_of_layout {fuel : Nat} {t : TypeId} {r r' : Registry} {l : FieldLayout}
    (h : layout fuel t r = .ok l r') : r'.facts.layouts[t]? = some l := by
  cases fuel with
  | zero => cases h
  | succ fuel =>
    unfold layout at h
    cases hknown : r.facts.layouts[t]? with
    | some known =>
      simp only [bind, EStateM.bind, ask, hknown] at h
      cases h
      exact hknown
    | none =>
      cases hbuild : buildLayout (layout fuel) t r with
      | ok built r'' =>
        simp only [bind, EStateM.bind, ask, hknown, hbuild, modify, modifyGet,
          MonadStateOf.modifyGet, EStateM.modifyGet] at h
        cases h
        rw [Std.HashMap.getElem?_insertIfNew]
        split <;> simp_all
      | error e r'' =>
        simp only [bind, EStateM.bind, ask, hknown, hbuild] at h
        cases h

theorem grows_findField [Learning R] (fuel : Nat) (t : TypeId) (name : String)
    (isStatic : Option Bool) : Keeps R (findField fuel t name isStatic) := by
  unfold findField
  refine (grows_walk (grows_visitWith fun t ↦ ?_) fuel t).bind fun found ↦ ?_
  · exact (grows_layout fuel t).bind fun _ ↦ .pure _
  · split
    · exact .pure _
    · exact (grows_ask _).bind fun _ ↦ .throw _

/-! ### Methods -/

section Asking

variable [Asking R]

theorem grows_instanceSignature (m : Method) (args : List Binding) :
    Keeps R (instanceSignature m args) := by
  unfold instanceSignature
  split
  · exact (grows_lift _).bind fun _ ↦ (grows_resolveTypes _ _ _).bind fun _ ↦
      (grows_resolveType _ _ _).bind fun _ ↦ .pure _
  · refine (grows_ask _).bind fun d ↦ ?_
    split
    · exact (grows_ask _).bind fun _ ↦ .throw _
    · exact (Keeps.mapM (grows_hostSignature _ _ _ _) _).bind fun _ ↦
        (grows_hostSignature _ _ _ _ _).bind fun _ ↦ .pure _

theorem grows_instantiateMethod (id : MethodId) (args : List TypeId) :
    Keeps R (instantiateMethod id args) := by
  unfold instantiateMethod
  refine Keeps.get.bind fun r ↦ ?_
  dsimp only
  split
  · exact .throw _
  · split
    · exact .pure _
    · refine (grows_instanceSignature _ _).bind fun _ ↦ (grows_addMethod _).bind fun made ↦ ?_
      refine Keeps.seqRight (.modify fun r ↦ ?_) (grows_ask _)
      exact Noting.of_eq rfl rfl rfl rfl rfl rfl rfl rfl rfl rfl rfl rfl rfl

theorem grows_localsOf (id : MethodId) : Keeps R (localsOf id) := by
  unfold localsOf
  refine Keeps.get.bind fun r ↦ ?_
  split
  · exact .pure _
  · dsimp only
    split
    · refine (grows_resolveTypes _ _ _).bind fun types ↦ ?_
      refine Keeps.seqRight (.modify fun r ↦ ?_) (.pure types)
      exact Noting.of_eq rfl rfl rfl rfl rfl rfl rfl rfl rfl rfl rfl rfl rfl
    · exact .throw _

/-! ### Tokens -/

theorem grows_resolveInEither (home : ModuleId) (s : Signature)
    (primary fallback : GenericContext) : Keeps R (resolveInEither home s primary fallback) := by
  unfold resolveInEither
  refine (grows_resolveSignature _ _ _).bind fun resolved ↦ ?_
  split
  · exact .pure _
  · exact .pure _
  · exact grows_resolveType _ _ _

theorem grows_paramsAgree (home : ModuleId) (primary fallback : GenericContext) :
    (signatures : List Signature) → (types : List TypeId) →
      Keeps R (paramsAgree home primary fallback signatures types)
  | s :: signatures, t :: types => by
    unfold paramsAgree
    refine (grows_resolveInEither _ _ _ _).bind fun t' ↦ ?_
    split
    · exact grows_paramsAgree home primary fallback signatures types
    · exact .pure _
  | [], _ => .pure _
  | _ :: _, [] => .pure _

theorem grows_fitting (home : ModuleId) (ref : MethodRef) (c : GenericContext) :
    (candidates : List MethodId) → Keeps R (fitting home ref c candidates)
  | [] => .pure _
  | id :: rest => by
    unfold fitting
    refine (grows_ask _).bind fun m ↦ ?_
    have hothers (fits : Bool) : Keeps (ε := Error) R (do
        let others ← fitting home ref c rest
        return if fits then id :: others else others) :=
      (grows_fitting home ref c rest).bind fun _ ↦ .pure _
    split
    · exact (grows_paramsAgree _ _ _ _ _).bind hothers
    · exact (Keeps.pure false).bind hothers

theorem grows_byReturnType (home : ModuleId) (ref : MethodRef) (c : GenericContext) :
    (candidates : List MethodId) → Keeps R (byReturnType home ref c candidates)
  | [] => .pure _
  | id :: rest => by
    unfold byReturnType
    refine (grows_ask _).bind fun m ↦ (grows_resolveInEither _ _ _ _).bind fun t ↦ ?_
    split
    · exact .pure _
    · exact grows_byReturnType home ref c rest

theorem grows_findOn (home : ModuleId) (ref : MethodRef) (c : GenericContext) (t : TypeId) :
    Keeps R (findOn home ref c t) := by
  unfold findOn
  refine (grows_methodsOf t).bind fun candidates ↦ (grows_fitting _ _ _ _).bind fun found ↦ ?_
  split
  · exact .pure _
  · exact .pure _
  · exact (grows_byReturnType _ _ _ _).bind fun _ ↦ .pure _

theorem grows_findReferenced (fuel : Nat) (home : ModuleId) (ref : MethodRef)
    (c : GenericContext) (t : TypeId) : Keeps R (findReferenced fuel home ref c t) := by
  refine grows_walk (fun t ↦ (grows_findOn home ref c t).bind fun found ↦ ?_) fuel t
  split <;> exact .pure _

theorem grows_adaptorCounterpart (fuel : Nat) (declaring : TypeId) (c : GenericContext) :
    Keeps R (adaptorCounterpart fuel declaring c) := by
  unfold adaptorCounterpart
  split
  · exact .pure _
  · refine (grows_firstHostBase _ _).bind fun hostBase ↦ ?_
    split
    · exact .pure _
    · refine Keeps.get.bind fun r ↦ ?_
      split
      · exact .pure _
      · split
        · exact (Building.ofHostType _).bind fun _ ↦ .pure _
        · exact .pure _

/-- The type of a reference is resolved, and then its methods are looked through. -/
theorem grows_resolveMethodRef (fuel : Nat) (home : ModuleId) (token : Token) (ref : MethodRef)
    (c : GenericContext) : Keeps R (resolveMethodRef fuel home token ref c) := by
  unfold resolveMethodRef
  refine (grows_resolveSignature _ _ _).bind fun resolved ↦ ?_
  cases resolved with
  | unbound name => exact .throw _
  | fixed declaring | dependent declaring =>
    refine (grows_ask _).bind fun name ↦ ?_
    split
    · exact .pure _
    · refine (grows_findReferenced _ _ _ _ _).bind fun found ↦ ?_
      cases found with
      | some id => exact .pure _
      | none =>
        refine (grows_adaptorCounterpart _ _ _).bind fun counterpart ↦ ?_
        cases counterpart with
        | none => exact .throw _
        | some t =>
          refine (grows_findReferenced _ _ _ _ _).bind fun found ↦ ?_
          cases found
          · exact .throw _
          · exact .pure _

/-- A token leads to a row of its module, and a row for an instantiation to another token. -/
theorem grows_findMethodToken (home : ModuleId) (c : GenericContext) : (fuel : Nat) →
    (token : Token) → Keeps R (findMethodToken home c fuel token)
  | 0, _ => .throw _
  | fuel + 1, token => by
    unfold findMethodToken
    refine (grows_lift _).bind fun m ↦ ?_
    split
    · refine (grows_lift _).bind fun row ↦ (grows_definedType _ _).bind fun owner ↦ ?_
      refine (grows_ask _).bind fun _ ↦ (grows_methodsOf _).bind fun methods ↦ ?_
      split
      · exact .pure _
      · exact .throw _
    · refine (grows_lift _).bind fun ref ↦ ?_
      split
      · exact grows_resolveMethodRef _ _ _ _ _
      · exact .throw _
    · refine (grows_lift _).bind fun spec ↦ (grows_findMethodToken home c fuel _).bind
        fun found ↦ ?_
      split
      · exact .pure _
      · exact (grows_resolveArguments _ _ _).bind fun _ ↦
          (grows_instantiateMethod _ _).bind fun _ ↦ .pure _
    · exact .throw _

/-- The answer for a token is noted if it cannot depend on the context. -/
theorem grows_resolveMethod (fuel : Nat) (home : ModuleId) (token : Token) (c : GenericContext) :
    Keeps R (resolveMethod fuel home token c) := by
  unfold resolveMethod
  refine (grows_ask _).bind fun known ↦ ?_
  split
  · exact .pure _
  · refine (grows_findMethodToken _ _ _ _).bind fun found ↦ ?_
    dsimp only
    split
    · refine Keeps.seqRight (.modify fun r ↦ ?_) ?_
      · exact Noting.of_eq rfl rfl rfl rfl rfl rfl rfl rfl rfl rfl rfl rfl rfl
      · split
        · refine Keeps.seqRight (.modify fun r ↦ ?_) (.pure _)
          exact Noting.of_eq rfl rfl rfl rfl rfl rfl rfl rfl rfl rfl rfl rfl rfl
        · exact .pure _
    · split
      · refine Keeps.seqRight (.modify fun r ↦ ?_) (.pure _)
        exact Noting.of_eq rfl rfl rfl rfl rfl rfl rfl rfl rfl rfl rfl rfl rfl
      · exact .pure _

theorem grows_fieldOwner (home : ModuleId) (token : Token) (c : GenericContext) :
    Keeps R (fieldOwner home token c) := by
  unfold fieldOwner
  refine (grows_lift _).bind fun m ↦ ?_
  split
  · exact (grows_lift _).bind fun _ ↦ (grows_definedType _ _).bind fun _ ↦
      (grows_ask _).bind fun _ ↦ .pure _
  · refine (grows_lift _).bind fun ref ↦ ?_
    split
    · exact .throw _
    · refine (grows_resolveSignature _ _ _).bind fun resolved ↦ ?_
      split
      · exact .pure _
      · exact .throw _
  · exact .throw _

theorem grows_resolveString (home : ModuleId) (token : Token) :
    Keeps R (resolveString home token) := Noting.resolveString home token

end Asking

theorem grows_resolveField [Learning R] (fuel : Nat) (home : ModuleId) (token : Token)
    (c : GenericContext) :
    Keeps R (resolveField fuel home token c) := by
  unfold resolveField
  refine (grows_ask _).bind fun known ↦ ?_
  split
  · exact .pure _
  · refine (grows_fieldOwner _ _ _).bind fun owner ↦ (grows_findField _ _ _ _).bind fun field ↦ ?_
    split
    · refine Keeps.seqRight (.modify fun r ↦ ?_) (.pure field)
      exact Noting.of_eq rfl rfl rfl rfl rfl rfl rfl rfl rfl rfl rfl rfl rfl
    · exact .pure _

end Registry

end ManagedMachine
