import ManagedMachine.Proofs.BoundParameters
import ManagedMachine.Proofs.TokenAnswers

/-!
# Signatures spell out names

In a registry where full names are plain and unique, a signature resolves to the type whose name it
spells out: `Registry.rendering` is the text of the signature with the names of the arguments in
place of the parameters that the context binds. What carries the induction is that resolving leaves
the registry as it was in this respect (`Registry.Clean`), so the parts of a signature, which are
resolved one after the other, are all found in a registry where a name says which type is meant.

A wrapper is built around a type. Where an array or a reference is wrapped around a parameter that
nothing binds there is no type to wrap, and the wrapper is lost; `Registry.Writable` leaves these
signatures out.

`Registry.Gives` is the statement for one computation: if it succeeds in a clean registry, it leaves
a clean one and the type has the given text as its name. Each way of making a type has its lemma
(`gives_makeArray`, `gives_makeByRef`, `gives_makeInstance`), and a signature is an induction over
its form.
-/

set_option autoImplicit false
set_option relaxedAutoImplicit false

namespace ManagedMachine

namespace Registry

open ManagedMachine.TypeName (IsPlain nested)

variable {r r' r₀ : Registry} {d : Descriptor} {t e : TypeId} {name : String}
  {scope : Option String} {home : ModuleId} {c : GenericContext} {s : Signature}

/-! ### Plain and unique names -/

/-- Full names are plain and unique, those of the types in use and those of the host types that may
still come into use. None of the latter reads as the stand-in for a parameter. -/
structure PlainlyNamed (r : Registry) : Prop where
  legible : r.Legible
  unique : r.NoNamesakes
  hosts : ∀ m ∈ r.host, ∀ type ∈ m.types, IsPlain type.fullName.toList ∧
    '/' ∉ type.fullName.toList ∧ type.fullName.toList.head? ≠ some '!'

/-- A name says which type is meant, now and after other types have come into use. -/
structure Clean (r : Registry) : Prop extends r.PlainlyNamed where
  orderly : r.Orderly
  listed : r.Listed

theorem Clean.lucid (h : r.Clean) : r.Lucid := ⟨h.orderly, h.listed, h.legible, h.unique.inUse⟩

theorem type_eq_of_push (htypes : r'.types = r.types.push d) :
    r'.type ⟨r.types.size⟩ = d :=
  type_eq_of_getElem? (htypes ▸ Array.getElem?_push_size)

theorem has_push_cases (htypes : r'.types = r.types.push d) (ht : r'.Has t) :
    r.Has t ∨ t = ⟨r.types.size⟩ := by
  rw [Has, htypes, Array.size_push] at ht
  rcases Nat.lt_succ_iff_lt_or_eq.mp ht with hlt | heq
  · exact .inl hlt
  · exact .inr (congrArg TypeId.mk heq)

/-- One type more keeps names plain and unique if its name is new and plain, and no host type has
it, unless it is that host type. -/
theorem Clean.push (h : r.Clean) (hl : r.Later r') (htypes : r'.types = r.types.push d)
    (hd : d.Legible) (hnew : r.names[d.name]? = none)
    (hhost : ∀ m ∈ r.host, ∀ type ∈ m.types, d.name = type.fullName → d.shape = .native type)
    (ho' : r'.Orderly) (hl' : r'.Listed) : r'.Clean := by
  have hfresh (t : TypeId) (ht : r.Has t) : r'.typeName t ≠ d.name := by
    rw [hl.typeName_eq ht]
    intro hname
    rw [← hname, h.lucid.names_typeName ht] at hnew
    cases hnew
  have hlast : r'.typeName ⟨r.types.size⟩ = d.name :=
    congrArg Descriptor.name (type_eq_of_push htypes)
  refine { legible := ?_, unique := ⟨?_, ?_, ?_⟩, hosts := ?_, orderly := ho', listed := hl' }
  · intro i d' hd'
    rw [htypes] at hd'
    rcases getElem?_push_cases hd' with hold | rfl
    · exact h.legible i d' hold
    · exact hd
  · intro t u ht hu hname
    rcases has_push_cases htypes ht with ht | rfl <;> rcases has_push_cases htypes hu with hu | rfl
    · rw [hl.typeName_eq ht, hl.typeName_eq hu] at hname
      exact h.unique.inUse t u ht hu hname
    · exact absurd (hname.trans hlast) (hfresh t ht)
    · exact absurd (hname.symm.trans hlast) (hfresh u hu)
    · rfl
  · intro m hm type htype t ht hname
    rw [hl.host] at hm
    rcases has_push_cases htypes ht with ht | rfl
    · rw [hl.typeName_eq ht] at hname
      rw [hl.type_eq ht]
      exact h.unique.hosts m hm type htype t ht hname
    · rw [type_eq_of_push htypes]
      exact hhost m hm type htype (hlast.symm.trans hname)
  · rw [hl.host]
    exact h.unique.host
  · rw [hl.host]
    exact h.hosts

/-! ### Types of a name -/

/-- The computation gives a type of the name. -/
def Gives (r : Registry) (x : RegistryM TypeId) (name : String) : Prop :=
  ∃ t r', x r = .ok t r' ∧ r.Later r' ∧ r'.Clean ∧ r'.Has t ∧ r'.typeName t = name

/-- A type that is built from others, or stands in for a parameter, has no plain name of a host
type. -/
theorem fullName_ne_of_built (h : r.Clean) (hd : d.Legible)
    (hbuilt : d.definition ≠ none ∨ d.element? ≠ none ∨ d.name.toList.head? = some '!') :
    ∀ m ∈ r.host, ∀ type ∈ m.types, d.name = type.fullName → d.shape = .native type := by
  intro m hm type htype hname
  obtain ⟨hplain, -, hhead⟩ := h.hosts m hm type htype
  obtain ⟨n, hwell, hn, -, hfits⟩ := hd
  rw [hwell.canonical_inj (.simple hplain) (by rw [canonical_simple, ← hn, hname])] at hfits
  rcases hbuilt with hdefinition | helement | hbang
  · exact absurd hfits.1 hdefinition
  · exact absurd hfits.2 helement
  · exact absurd (hname ▸ hbang) hhead

/-- A type that is made under a name has the name, also if there was one before. -/
theorem gives_intern (h : r.Clean) (hd : d.Legible)
    (hbuilt : d.definition ≠ none ∨ d.element? ≠ none ∨ d.name.toList.head? = some '!')
    (ho' : (endState (intern d) r).Orderly) : r.Gives (intern d) d.name := by
  cases hknown : r.names[d.name]? with
  | some t =>
    have hcanonical : Canonical d.name := by
      obtain ⟨n, hwell, hname, hslash, -⟩ := hd
      exact hname ▸ canonical_of_wellFormed hwell (hname ▸ hslash)
    exact ⟨t, r, intern_of_known hknown, .refl r, h, h.orderly.present _ _ hknown,
      h.orderly.spelled h.legible _ _ hknown hcanonical⟩
  | none =>
    have hok := intern_of_new hknown
    have hl : r.Later _ := endState_ok hok ▸ (spells_intern d r).toLater
    rw [endState_ok hok] at ho'
    have hl' := endState_ok hok ▸ listed_intern (d := d) h.orderly h.listed
    have hclean := h.push hl rfl hd hknown (fullName_ne_of_built h hd hbuilt) ho' hl'
    exact ⟨_, _, hok, hl, hclean, by simp [Has], congrArg Descriptor.name (type_eq_of_push rfl)⟩

/-- Arrays are called after their elements, with the rank in brackets. -/
theorem gives_makeArray (h : r.Clean) (he : r.Has e) (rank : UInt8) :
    r.Gives (makeArray e rank) (r.typeName e ++ arraySuffix rank) := by
  obtain ⟨n, hwell, hname, hslash, -⟩ := exists_name h.legible he
  have hrank : (if rank = 0 then 1 else rank : UInt8) ≠ 0 := by
    split
    · decide
    · assumption
  have hcanonical : (TypeName.array n (if rank = 0 then 1 else rank)).canonical =
      r.typeName e ++ arraySuffix rank := by
    rw [TypeName.canonical, hname, arraySuffix_one]
  have hnoslash : '/' ∉ (r.typeName e ++ arraySuffix rank).toList := by
    rw [String.toList_append, toList_arraySuffix, hname]
    simpa using hslash
  have ho' := orderly_makeArray h.orderly e rank
  rw [endState, makeArray_eq] at ho'
  rw [Gives, makeArray_eq]
  exact gives_intern h ⟨_, .array hwell hrank, hcanonical.symm, hnoslash, rfl, rfl⟩
    (.inr (.inl (Option.some_ne_none _))) ho'

/-- References are called after what they refer to. -/
theorem gives_makeByRef (h : r.Clean) (he : r.Has e) :
    r.Gives (makeByRef e) (r.typeName e ++ "&") := by
  obtain ⟨n, hwell, hname, hslash, -⟩ := exists_name h.legible he
  have hcanonical : (TypeName.byRef n).canonical = r.typeName e ++ "&" := by
    rw [TypeName.canonical, hname]
  have hnoslash : '/' ∉ (r.typeName e ++ "&").toList := by
    rw [String.toList_append, hname]
    simpa using hslash
  have ho' := orderly_makeByRef h.orderly e
  rw [endState, makeByRef_eq] at ho'
  rw [Gives, makeByRef_eq]
  exact gives_intern h ⟨_, .byRef hwell, hcanonical.symm, hnoslash, rfl, rfl⟩
    (.inr (.inl (Option.some_ne_none _))) ho'

theorem gives_makeParameter (h : r.Clean) (hplain : IsPlain ("!" ++ name).toList)
    (hslash : '/' ∉ ("!" ++ name).toList) : r.Gives (makeParameter name) ("!" ++ name) :=
  gives_intern h ⟨_, .simple hplain, (canonical_simple _ none).symm, hslash, rfl, rfl⟩
    (.inr (.inr (by simp))) (orderly_makeParameter h.orderly name)

/-- Instantiations are called after the open type, with the names of the arguments. -/
theorem gives_makeInstance (h : r.Clean) (ht : r.Has t) (hopen : (r.type t).definition = none)
    {args : List TypeId} (hargs : ∀ a ∈ args, r.Has a) (hne : args ≠ [])
    (harity : (r.type t).generics.length = args.length) :
    r.Gives (makeInstance t args)
      (r.typeName t ++ "<" ++ String.intercalate "," (args.map r.typeName) ++ ">") := by
  have hself : r.openOf t = t := by rw [openOf, hopen]; rfl
  have hgenerics : (r.type t).generics ≠ [] := by
    rw [← List.length_pos_iff_ne_nil, harity]
    exact List.length_pos_iff_ne_nil.mpr hne
  have hplain : IsPlain (r.typeName t).toList := isPlain_of_legible
    (h.legible _ _ (getElem?_of_has ht)) hopen (element?_of_generics hgenerics)
  obtain ⟨n, -, hname, hslash, -⟩ := exists_name h.legible ht
  obtain ⟨ns, hns, hnames⟩ := exists_names h.legible hargs
  have hnsne : ns ≠ [] := by
    rintro rfl
    exact hne (List.map_eq_nil_iff.mp hnames.symm)
  have hcanonical : (TypeName.generic (.simple (r.typeName t) none) ns).canonical =
      (r.instanceOf t args).name := by
    rw [TypeName.canonical, TypeName.canonicals_eq_map, canonical_simple, hnames]
    rfl
  have hnoslash : '/' ∉ (r.instanceOf t args).name.toList := by
    rw [← hcanonical]
    refine slash_notMem_generic.mpr ⟨?_, fun n hn ↦ (hns n hn).2⟩
    rwa [canonical_simple, hname]
  have hmake : makeInstance t args r = intern (r.instanceOf t args) r := by
    rw [makeInstance_of_arity (hself.symm ▸ harity), hself]
  have ho' := orderly_makeInstance h.orderly t args
  rw [endState, hmake] at ho'
  rw [Gives, hmake]
  exact gives_intern h ⟨_, .generic hplain hnsne fun n hn ↦ (hns n hn).1, hcanonical.symm, hnoslash,
    rfl⟩ (.inl (Option.some_ne_none _)) ho'

/-! ### Types by reference -/

/-- Host types of one name are the same one. -/
theorem NoNamesakes.host_inj (h : r.NoNamesakes) {m m' : HostModule} {type type' : HostType}
    (hm : m ∈ r.host) (htype : type ∈ m.types) (hm' : m' ∈ r.host) (htype' : type' ∈ m'.types)
    (hname : type.fullName = type'.fullName) : type = type' := by
  have hnodup := h.host
  rw [← List.map_flatMap] at hnodup
  exact List.inj_on_of_nodup_map hnodup
    (List.mem_flatMap.mpr ⟨m, Array.mem_toList_iff.mpr hm, htype⟩)
    (List.mem_flatMap.mpr ⟨m', Array.mem_toList_iff.mpr hm', htype'⟩) hname

/-- What is known under a plain name has that name. -/
theorem typeName_of_known (h : r.Clean) (hplain : IsPlain name.toList) (hslash : '/' ∉ name.toList)
    (ht : (r.inScope? name scope <|> r.names[name]?) = some t) :
    r.Has t ∧ r.typeName t = name := by
  have hreads := reads_of_known h.orderly h.listed hplain ht
  refine ⟨hreads.has, (hreads.name h.legible).trans ?_⟩
  rw [nested_simple, TypeName.nested_of_no_slash hslash]

/-- A host type comes into use. -/
theorem gives_ofHostType (h : r.Clean) {m : HostModule} {type : HostType} (hm : m ∈ r.host)
    (htype : type ∈ m.types) (hnew : r.names[type.fullName]? = none) :
    ∃ t r', ofHostType type r = .ok t r' ∧ r.Later r' ∧ r'.Clean ∧ r'.Has t ∧
      r'.type t = type.descriptor := by
  obtain ⟨hplain, hslash, -⟩ := h.hosts m hm type htype
  have hunscoped : r.scoped_[type.scopedName]? = none := by
    by_contra hsome
    obtain ⟨u, hu⟩ := Option.ne_none_iff_exists'.mp hsome
    have hname := (h.orderly.named_of_scoped (comma_notMem_of_isPlain hplain) hu)
    rw [← hname.2.1 (.inl h.legible), h.lucid.names_typeName hname.1] at hnew
    cases hnew
  obtain ⟨r', hok, backed, hr'⟩ := ofHostType_of_new hunscoped
  have hl : r.Later r' := endState_ok hok ▸ (spells_ofHostType type r).toLater
  have htypes : r'.types = r.types.push type.descriptor := by rw [hr']; rfl
  have ho' := endState_ok hok ▸ orderly_ofHostType h.orderly type
  have hl' := endState_ok hok ▸ listed_ofHostType h.orderly h.listed type
  have hclean := h.push hl htypes
    ⟨_, .simple hplain, (canonical_simple _ none).symm, hslash, rfl, rfl⟩ hnew
    (fun m' hm' type' htype' hname ↦ congrArg Shape.native
      (h.unique.host_inj hm htype hm' htype' hname)) ho' hl'
  exact ⟨_, r', hok, hl, hclean, by simp [Has, htypes], type_eq_of_push htypes⟩

/-! ### What signatures spell out -/

mutual

/-- The text of a signature where parameters that the context binds are replaced by the names of
their arguments, and definitions and references are the names of what they mean. -/
def rendering (r : Registry) (home : ModuleId) (c : GenericContext) : Signature → String
  | .definition token => ((r.definitions[Reference.mk home token]?).map r.typeName).getD ""
  | .named name _ => name
  | .parameter name => ((c.find? r name).map r.typeName).getD ("!" ++ name)
  | .byRef inner => rendering r home c inner ++ "&"
  | .array element rank => rendering r home c element ++ arraySuffix rank
  | .instantiation head args =>
    rendering r home c head ++ "<" ++ String.intercalate "," (renderings r home c args) ++ ">"
  | .pointer inner => rendering r home c inner ++ "*"
  | .functionPointer => "fnptr"

/-- The names that a list of signatures spells out. -/
def renderings (r : Registry) (home : ModuleId) (c : GenericContext) : List Signature → List String
  | [] => []
  | s :: rest => rendering r home c s :: renderings r home c rest

end

theorem length_renderings (r : Registry) (home : ModuleId) (c : GenericContext)
    (args : List Signature) : (r.renderings home c args).length = args.length := by
  induction args with
  | nil => rw [renderings]; rfl
  | cons s rest ih => rw [renderings, List.length_cons, List.length_cons, ih]

/-- The signature names a type by itself, and the descriptor is that of the type, or the one that it
is given when it comes into use. -/
inductive Refers (r : Registry) (home : ModuleId) : Signature → Descriptor → Prop
  | definition {token : Token} {t : TypeId}
    (ht : r.definitions[Reference.mk home token]? = some t) :
    Refers r home (.definition token) (r.type t)
  | inUse {name : String} {scope : Option String} {t : TypeId} (hplain : IsPlain name.toList)
    (hslash : '/' ∉ name.toList) (ht : (r.inScope? name scope <|> r.names[name]?) = some t) :
    Refers r home (.named name scope) (r.type t)
  | host {name : String} {scope : Option String} {type : HostType}
    (hnone : (r.inScope? name scope <|> r.names[name]?) = none)
    (hfind : HostLibrary.find? r.host.toList name scope = some type) :
    Refers r home (.named name scope) type.descriptor

/-- The signatures of types by name: definitions, plain references, parameters, instantiations of
types that are not instantiated yet with as many arguments as they take, and arrays of and
references to types. A parameter that nothing binds is no type. -/
inductive Writable (r : Registry) (home : ModuleId) (c : GenericContext) : Signature → Prop
  | type {s : Signature} {d : Descriptor} (hrefers : r.Refers home s d) : Writable r home c s
  | bound {name : String} {t : TypeId} (hfind : c.find? r name = some t) :
    Writable r home c (.parameter name)
  | unbound {name : String} (hfind : c.find? r name = none) (hplain : IsPlain ("!" ++ name).toList)
    (hslash : '/' ∉ ("!" ++ name).toList) : Writable r home c (.parameter name)
  | byRef {inner : Signature} (hinner : Writable r home c inner)
    (hroot : ∀ name, inner.root? = some name → c.find? r name ≠ none) :
    Writable r home c (.byRef inner)
  | array {element : Signature} {rank : UInt8} (helement : Writable r home c element)
    (hroot : ∀ name, element.root? = some name → c.find? r name ≠ none) :
    Writable r home c (.array element rank)
  | instantiation {head : Signature} {d : Descriptor} {args : List Signature}
    (hhead : r.Refers home head d) (hopen : d.definition = none) (hne : args ≠ [])
    (harity : d.generics.length = args.length) (hargs : ∀ s ∈ args, Writable r home c s) :
    Writable r home c (.instantiation head args)

/-- What a signature was resolved to: the type whose name it spells out, or the parameter that it
is. -/
def Shows (r₀ : Registry) (home : ModuleId) (c : GenericContext) (s : Signature) (r : Registry) :
    Resolution → Prop
  | .fixed t | .dependent t => r.Has t ∧ r.typeName t = r₀.rendering home c s
  | .unbound name => s = .parameter name ∧ c.find? r₀ name = none ∧
      IsPlain ("!" ++ name).toList ∧ '/' ∉ ("!" ++ name).toList

theorem generics_of_native {type : HostType} (h : d.shape = .native type) :
    d.generics = type.descriptor.generics := by
  simp only [Descriptor.generics, Descriptor.native?, HostType.descriptor, h]

/-- A signature that names a type finds it also after other types have come into use. -/
theorem Refers.resolve (h : r₀.Refers home s d) (h₀ : r₀.Clean) (hl : r₀.Later r) (hr : r.Clean) :
    ∃ t r', resolveSignature home c s r = .ok (.fixed t) r' ∧ r.Later r' ∧ r'.Clean ∧ r'.Has t ∧
      r'.typeName t = r₀.rendering home c s ∧ (r'.type t).generics = d.generics ∧
      (d.definition = none → (r'.type t).definition = none) := by
  cases h with
  | @definition token t ht =>
    have hhas := h₀.orderly.present _ _ (h₀.orderly.defined _ _ ht)
    have hdefined : definedType home token r = .ok t r := by
      rw [definedType, ask_bind, hl.definitions, ht]
      rfl
    refine ⟨t, r, ?_, .refl r, hr, hl.has hhas, ?_, ?_, ?_⟩
    · rw [resolveSignature, bind_of_ok hdefined]
      rfl
    · rw [hl.typeName_eq hhas, rendering, ht]
      rfl
    · rw [hl.type_eq hhas]
    · rw [hl.type_eq hhas]
      exact id
  | @inUse name scope t hplain hslash ht =>
    obtain ⟨hhas, hname⟩ := typeName_of_known h₀ hplain hslash ht
    obtain ⟨u, hu⟩ : ∃ u, (r.inScope? name scope <|> r.names[name]?) = some u := by
      cases hscope : r.inScope? name scope with
      | some u => exact ⟨u, rfl⟩
      | none =>
        refine ⟨t, hl.names _ _ ?_⟩
        rcases (Option.orElse_eq_some _ _ _).mp ht with hold | ⟨-, hold⟩
        · cases hscope.symm.trans (hl.inScope? hold)
        · exact hold
    -- what is known under the name now is still the type that was
    obtain ⟨hhas', hname'⟩ := typeName_of_known hr hplain hslash hu
    obtain rfl := hr.unique.inUse u t hhas' (hl.has hhas)
      (hname'.trans ((hl.typeName_eq hhas).trans hname).symm)
    refine ⟨u, r, ?_, .refl r, hr, hhas', hname', ?_, ?_⟩
    · rw [resolveSignature, bind_of_ok (resolveIn_of_some (lookup?_of_known hu))]
      rfl
    · rw [hl.type_eq hhas]
    · rw [hl.type_eq hhas]
      exact id
  | @host name scope type hnone hfind =>
    obtain ⟨m, hm, htype⟩ := mem_of_find? hfind
    rw [Array.mem_toList_iff, ← hl.host] at hm
    obtain rfl := fullName_of_find? hfind
    obtain ⟨hplain, hslash, -⟩ := hr.hosts m hm type htype
    cases hknown : r.inScope? type.fullName scope <|> r.names[type.fullName]? with
    | some u =>
      obtain ⟨hhas, hname⟩ := typeName_of_known hr hplain hslash hknown
      have hdefinition := definition_of_isPlain (hr.legible _ _ (getElem?_of_has hhas))
        (by rw [← typeName, hname]; exact hplain)
      refine ⟨u, r, ?_, .refl r, hr, hhas, hname, generics_of_native
        (hr.unique.hosts m hm type htype u hhas hname), fun _ ↦ hdefinition⟩
      rw [resolveSignature, bind_of_ok (resolveIn_of_some (lookup?_of_known hknown))]
      rfl
    | none =>
      have hnew : r.names[type.fullName]? = none := ((Option.orElse_eq_none _ _).mp hknown).2
      obtain ⟨t, r', hok, hl', hr', hhas, hdescriptor⟩ := gives_ofHostType hr hm htype hnew
      refine ⟨t, r', ?_, hl', hr', hhas, ?_, by rw [hdescriptor], by rw [hdescriptor]; exact id⟩
      · rw [resolveSignature, bind_of_ok (resolveIn_of_some
          (lookup?_of_host hknown (hl.host ▸ hfind) hok))]
        rfl
      · rw [typeName, hdescriptor]
        rfl

theorem shows_of_type? {found : Resolution} (h : found.type? = some t) (ht : r.Has t)
    (hname : r.typeName t = r₀.rendering home c s) : r₀.Shows home c s r found := by
  cases found with
  | fixed u | dependent u =>
    cases h
    exact ⟨ht, hname⟩
  | unbound name => cases h

/-- A type around what was resolved is what the signature around it spells out. -/
theorem Gives.shows {x : RegistryM TypeId} {wrap : TypeId → Resolution}
    (h : r.Gives x (r₀.rendering home c s)) (hwrap : ∀ t, (wrap t).type? = some t) :
    ∃ found r', (x >>= fun t ↦ pure (wrap t)) r = .ok found r' ∧ r.Later r' ∧ r'.Clean ∧
      r₀.Shows home c s r' found := by
  obtain ⟨t, r', hx, hl, hclean, ht, hname⟩ := h
  exact ⟨wrap t, r', (bind_of_ok hx).trans rfl, hl, hclean, shows_of_type? (hwrap t) ht hname⟩

/-- A signature spells out what it is resolved to, whatever has been resolved before. -/
def Resolves (r₀ : Registry) (home : ModuleId) (c : GenericContext) (s : Signature) : Prop :=
  ∀ r, r₀.Later r → r.Clean → ∃ found r', resolveSignature home c s r = .ok found r' ∧ r.Later r' ∧
    r'.Clean ∧ r₀.Shows home c s r' found

/-- Arguments are resolved one after the other, with a stand-in for a parameter. -/
theorem resolveArguments_of_resolves {args : List Signature}
    (h : ∀ s ∈ args, r₀.Resolves home c s) (hl : r₀.Later r) (hr : r.Clean) :
    ∃ ts fixed_ r', resolveArguments home c args r = .ok (ts, fixed_) r' ∧ r.Later r' ∧ r'.Clean ∧
      (∀ t ∈ ts, r'.Has t) ∧ ts.map r'.typeName = r₀.renderings home c args := by
  induction args generalizing r with
  | nil =>
    refine ⟨[], true, r, ?_, .refl r, hr, List.forall_mem_nil _, ?_⟩
    · rw [resolveArguments]
      rfl
    · rw [renderings]
      rfl
  | cons s rest ih =>
    rw [List.forall_mem_cons] at h
    obtain ⟨found, r₁, hfound, hl₁, hr₁, hshows⟩ := h.1 r hl hr
    obtain ⟨t, fixed_, r₂, hl₂, hr₂, ht, hname, hstep⟩ : ∃ t fixed_ r₂, r₁.Later r₂ ∧ r₂.Clean ∧
        r₂.Has t ∧ r₂.typeName t = r₀.rendering home c s ∧
        ∀ ts restFixed r₃, resolveArguments home c rest r₂ = .ok (ts, restFixed) r₃ →
          resolveArguments home c (s :: rest) r = .ok (t :: ts, fixed_ && restFixed) r₃ := by
      cases found with
      | fixed t =>
        refine ⟨t, true, r₁, .refl r₁, hr₁, hshows.1, hshows.2, fun ts restFixed r₃ hrest ↦ ?_⟩
        rw [resolveArguments, bind_of_ok hfound]
        exact (bind_of_ok hrest).trans rfl
      | dependent t =>
        refine ⟨t, false, r₁, .refl r₁, hr₁, hshows.1, hshows.2, fun ts restFixed r₃ hrest ↦ ?_⟩
        rw [resolveArguments, bind_of_ok hfound]
        exact (bind_of_ok hrest).trans rfl
      | unbound name =>
        obtain ⟨rfl, hfree, hplain, hslash⟩ := hshows
        obtain ⟨t, r₂, hx, hl₂, hr₂, ht, hname⟩ := gives_makeParameter hr₁ hplain hslash
        refine ⟨t, false, r₂, hl₂, hr₂, ht, hname.trans ?_, fun ts restFixed r₃ hrest ↦ ?_⟩
        · rw [rendering, hfree]
          rfl
        · rw [resolveArguments, bind_of_ok hfound]
          exact (bind_of_ok hx).trans ((bind_of_ok hrest).trans rfl)
    obtain ⟨ts, restFixed, r₃, hrest, hl₃, hr₃, hts, hnames⟩ :=
      ih h.2 ((hl.trans hl₁).trans hl₂) hr₂
    refine ⟨t :: ts, fixed_ && restFixed, r₃, hstep _ _ _ hrest, (hl₁.trans hl₂).trans hl₃, hr₃,
      List.forall_mem_cons.mpr ⟨hl₃.has ht, hts⟩, ?_⟩
    rw [List.map_cons, hnames, hl₃.typeName_eq ht, hname, renderings]

/-- What is wrapped around a type is wrapped around what the signature of the type is resolved
to. -/
theorem Resolves.wrapped {inner : Signature} (wrap : TypeId → RegistryM TypeId)
    (h : r₀.Resolves home c inner) (hroot : ∀ name, inner.root? = some name →
      c.find? r₀ name ≠ none)
    {closed : Bool} (hs : resolveSignature home c s =
      resolveSignature home c inner >>= wrapAround wrap closed)
    (hwrap : ∀ (r : Registry) t, r.Clean → r.Has t → r.typeName t = r₀.rendering home c inner →
      r.Gives (wrap t) (r₀.rendering home c s)) : r₀.Resolves home c s := by
  intro r hl hr
  obtain ⟨found, r₁, hfound, hl₁, hr₁, hshows⟩ := h r hl hr
  rw [hs, bind_of_ok hfound]
  cases found with
  | fixed t =>
    obtain ⟨found, r₂, hx, hl₂, hrest⟩ :=
      (hwrap r₁ t hr₁ hshows.1 hshows.2).shows fun t ↦ Resolution.type?_make t closed
    exact ⟨found, r₂, hx, hl₁.trans hl₂, hrest⟩
  | dependent t =>
    obtain ⟨found, r₂, hx, hl₂, hrest⟩ := (hwrap r₁ t hr₁ hshows.1 hshows.2).shows fun t ↦
      show (Resolution.dependent t).type? = some t from rfl
    exact ⟨found, r₂, hx, hl₁.trans hl₂, hrest⟩
  | unbound name =>
    obtain ⟨rfl, hfree, -⟩ := hshows
    exact absurd hfree (hroot name rfl)

/-- By induction on the signature. Its parts are resolved in registries later than the first one, so
what is said of it is always said of the first one. -/
theorem Writable.resolves (h : r₀.Writable home c s) (h₀ : r₀.Clean) (hbare : r₀.Bare)
    (hc : r₀.HasContext c) : r₀.Resolves home c s := by
  induction h with
  | type hrefers =>
    intro r hl hr
    obtain ⟨t, r', hok, hl', hr', ht, hname, -⟩ := hrefers.resolve h₀ hl hr
    exact ⟨_, r', hok, hl', hr', ht, hname⟩
  | @bound name t hfind =>
    intro r hl hr
    have ht := h₀.orderly.has_of_find? h₀.legible hbare hc hfind
    refine ⟨.dependent t, r, ?_, .refl r, hr, hl.has ht, ?_⟩
    · rw [resolveSignature, ask_bind, hl.find?_eq hc, hfind]
      rfl
    · rw [hl.typeName_eq ht, rendering, hfind]
      rfl
  | @unbound name hfind hplain hslash =>
    intro r hl hr
    refine ⟨.unbound name, r, ?_, .refl r, hr, rfl, hfind, hplain, hslash⟩
    exact resolveSignature_unbound (by rw [hl.find?_eq hc, hfind]) rfl
  | byRef _ hroot ih =>
    refine ih.wrapped makeByRef hroot (resolveSignature_byRef home c _) fun r t hr ht hname ↦ ?_
    rw [rendering, ← hname]
    exact gives_makeByRef hr ht
  | @array element rank _ hroot ih =>
    refine ih.wrapped (makeArray · rank) hroot (resolveSignature_array home c element rank)
      fun r t hr ht hname ↦ ?_
    rw [rendering, ← hname]
    exact gives_makeArray hr ht rank
  | @instantiation head d args hhead hopen hne harity hargs ih =>
    intro r hl hr
    obtain ⟨g, r₁, hok, hl₁, hr₁, hg, hgname, hgenerics, hnone⟩ := hhead.resolve h₀ hl hr
    obtain ⟨ts, fixed_, r₂, hts, hl₂, hr₂, hthere, hnames⟩ :=
      resolveArguments_of_resolves ih (hl.trans hl₁) hr₁
    have hlength : ts.length = args.length := by
      rw [← List.length_map (f := r₂.typeName), hnames, length_renderings]
    have hgives := gives_makeInstance hr₂ (hl₂.has hg) (by rw [hl₂.type_eq hg]; exact hnone hopen)
      hthere
      (by rw [← List.length_pos_iff_ne_nil, hlength]; exact List.length_pos_iff_ne_nil.mpr hne)
      (by rw [hl₂.type_eq hg, hgenerics, harity, hlength])
    rw [hl₂.typeName_eq hg, hgname, hnames, ← rendering] at hgives
    obtain ⟨found, r₃, hx, hl₃, hrest⟩ := hgives.shows fun t ↦
      Resolution.type?_make t (fixed_ && !(Signature.instantiation head args).isOpen)
    refine ⟨found, r₃, ?_, (hl₁.trans hl₂).trans hl₃, hrest⟩
    rw [resolveSignature, bind_of_ok hok]
    exact (bind_of_ok hts).trans hx

/-! ### A module with crates -/

end Registry

/-- A module with a generic type `Crate` and a type `Apple`. -/
def Module.crates : Module :=
  .ofTypes "Crates" #[⟨"", "Crate", .none, none, [], ["T"], #[], #[]⟩,
    ⟨"", "Apple", .none, none, [], [], #[], #[]⟩]

namespace Registry

open ManagedMachine.TypeName (IsPlain)

variable {r : Registry} {home : ModuleId} {c : GenericContext} {s : Signature}

/-- The registry that loading the module leaves, up to the meaning of names. -/
def ofCrates (names : Std.HashMap String TypeId) : Registry :=
  { empty with
    types := #[⟨"Crate", .interpreted ⟨⟨0⟩, .crates⟩ (Module.typeToken 0), [], none⟩,
      ⟨"Apple", .interpreted ⟨⟨0⟩, .crates⟩ (Module.typeToken 1), [], none⟩]
    names
    modules := #[.crates]
    definitions := (({} : Std.HashMap Reference TypeId).insert ⟨⟨0⟩, Module.typeToken 0⟩ ⟨0⟩).insert
      ⟨⟨0⟩, Module.typeToken 1⟩ ⟨1⟩ }

def crateNames : Std.HashMap String TypeId :=
  (({} : Std.HashMap String TypeId).insertIfNew "Crate" ⟨0⟩).insertIfNew "Apple" ⟨1⟩

theorem loadModule_crates : loadModule .crates empty = .ok ⟨0⟩ (ofCrates crateNames) := by
  have hcrate : definitionName ⟨"", "Crate", .none, none, [], ["T"], #[], #[]⟩ = "Crate" := by cbv
  have happle : definitionName ⟨"", "Apple", .none, none, [], [], #[], #[]⟩ = "Apple" := by cbv
  simp [loadModule, addDefinitions, Module.crates, Module.ofTypes, Module.empty, hcrate, happle,
    empty, addType, addName, ofCrates, crateNames, bind, EStateM.bind, get, getThe,
    MonadStateOf.get, EStateM.get, set, EStateM.set, modify, modifyGet, MonadStateOf.modifyGet,
    EStateM.modifyGet, pure, EStateM.pure]

/-- The names of the core library are plain, and no two are the same. -/
theorem plain_coreLibrary : (∀ m ∈ empty.host, ∀ type ∈ m.types, IsPlain type.fullName.toList ∧
      '/' ∉ type.fullName.toList ∧ type.fullName.toList.head? ≠ some '!') ∧
    (empty.host.toList.flatMap fun m ↦ m.types.map HostType.fullName).Nodup := by
  have hnames : ∀ name ∈ CoreLibrary.library.types.map HostType.fullName,
      IsPlain name.toList ∧ '/' ∉ name.toList ∧ name.toList.head? ≠ some '!' := by decide +kernel
  constructor
  · intro m hm type htype
    obtain rfl := Array.mem_singleton.mp hm
    exact hnames _ (List.mem_map_of_mem htype)
  · change (CoreLibrary.library.types.map HostType.fullName ++ []).Nodup
    decide +kernel

theorem plainlyNamed_empty : empty.PlainlyNamed where
  legible _ _ h := nomatch h
  unique := ⟨fun _ _ ht ↦ absurd ht (Nat.not_lt_zero _),
    fun _ _ _ _ _ ht ↦ absurd ht (Nat.not_lt_zero _), plain_coreLibrary.2⟩
  hosts := plain_coreLibrary.1

/-- Names of the sample are plain, and no two types share one. -/
theorem plainlyNamed_ofCrates (names : Std.HashMap String TypeId) :
    (ofCrates names).PlainlyNamed := by
  have htype (t : TypeId) (ht : (ofCrates names).Has t) :
      t = ⟨0⟩ ∧ (ofCrates names).typeName t = "Crate" ∨
        t = ⟨1⟩ ∧ (ofCrates names).typeName t = "Apple" := by
    obtain ⟨_ | _ | i⟩ := t
    · exact .inl ⟨rfl, rfl⟩
    · exact .inr ⟨rfl, rfl⟩
    · exact absurd ht (by simp [Has, ofCrates])
  have hcore : ∀ name ∈ CoreLibrary.library.types.map HostType.fullName,
      name ≠ "Crate" ∧ name ≠ "Apple" := by decide
  refine ⟨?_, ⟨?_, ?_, plain_coreLibrary.2⟩, plain_coreLibrary.1⟩
  · intro i d hd
    rcases i with _ | _ | i
    · cases hd
      exact ⟨.simple "Crate" none, .simple (by decide +kernel), (canonical_simple _ none).symm,
        show '/' ∉ "Crate".toList by decide, rfl, rfl⟩
    · cases hd
      exact ⟨.simple "Apple" none, .simple (by decide +kernel), (canonical_simple _ none).symm,
        show '/' ∉ "Apple".toList by decide, rfl, rfl⟩
    · exact absurd hd (by simp [ofCrates])
  · intro t u ht hu hname
    rcases htype t ht with ⟨rfl, htt⟩ | ⟨rfl, htt⟩ <;>
      rcases htype u hu with ⟨rfl, huu⟩ | ⟨rfl, huu⟩
    · rfl
    · exact absurd (htt.symm.trans (hname.trans huu)) (by decide)
    · exact absurd (htt.symm.trans (hname.trans huu)) (by decide)
    · rfl
  · intro m hm type hmem t ht hname
    obtain rfl := Array.mem_singleton.mp hm
    have hother := hcore _ (List.mem_map_of_mem hmem)
    rw [← hname] at hother
    rcases htype t ht with ⟨-, htt⟩ | ⟨-, htt⟩ <;> simp [htt] at hother

/-! ### Resolution is substitution -/

/-- A signature resolves to the one type whose name it spells out: the text of the signature with
the names of the arguments in place of the parameters that the context binds, and stand-ins for the
others. -/
theorem resolveType_spells_out (h : r.Reached) (hnames : r.PlainlyNamed) (hc : r.HasContext c)
    (hwritable : r.Writable home c s) :
    ∃ t r', resolveType home c s r = .ok t r' ∧ r'.Has t ∧ r'.typeName t = r.rendering home c s ∧
      ∀ u, r'.Has u → r'.typeName u = r.rendering home c s → u = t := by
  have hclean : r.Clean := ⟨hnames, h.orderly, h.listed⟩
  obtain ⟨found, r₁, hfound, hl₁, hr₁, hshows⟩ :=
    hwritable.resolves hclean h.bare hc r (.refl r) hclean
  obtain ⟨t, r₂, hok, hr₂, ht, hname⟩ : ∃ t r₂, resolveType home c s r = .ok t r₂ ∧ r₂.Clean ∧
      r₂.Has t ∧ r₂.typeName t = r.rendering home c s := by
    rw [resolveType, bind_of_ok hfound]
    cases found with
    | fixed t | dependent t => exact ⟨t, r₁, rfl, hr₁, hshows⟩
    | unbound name =>
      obtain ⟨rfl, hfree, hplain, hslash⟩ := hshows
      obtain ⟨t, r₂, hx, -, hr₂, ht, hname⟩ := gives_makeParameter hr₁ hplain hslash
      refine ⟨t, r₂, hx, hr₂, ht, hname.trans ?_⟩
      rw [rendering, hfree]
      rfl
  exact ⟨t, r₂, hok, ht, hname, fun u hu huname ↦
    hr₂.unique.inUse u t hu ht (huname.trans hname.symm)⟩

/-- Where `T` stands for apples. -/
def ofApples : GenericContext := ⟨none, [⟨"T", ⟨1⟩⟩]⟩

/-- A reference to an instantiation with an array, in a context that binds the parameter. -/
theorem resolveType_spells_out_crates : (ofCrates crateNames).Reached ∧
    (ofCrates crateNames).PlainlyNamed ∧ (ofCrates crateNames).HasContext ofApples ∧
    ∃ t r', resolveType ⟨0⟩ ofApples (.byRef (.instantiation (.definition (Module.typeToken 0))
        [.array (.parameter "T") 1])) (ofCrates crateNames) = .ok t r' ∧
      r'.typeName t = "Crate<Apple[]>&" := by
  have hreached : (ofCrates crateNames).Reached := by
    rw [← endState_ok loadModule_crates]
    exact Reached.empty.step (.loadModule _)
  have hdefined (names) :
      (ofCrates names).definitions[Reference.mk ⟨0⟩ (Module.typeToken 0)]? = some ⟨0⟩ := by cbv
  have hbound (names) : ofApples.find? (ofCrates names) "T" = some ⟨1⟩ := by
    simp [ofApples, GenericContext.find?, Binding.find?]
  have hcontext : (ofCrates crateNames).HasContext ofApples := by
    refine ⟨fun t ht ↦ ?_, fun b hb ↦ ?_⟩
    · cases ht
    · obtain rfl := List.mem_singleton.mp hb
      exact show 1 < 2 by decide
  have hwritable : (ofCrates crateNames).Writable ⟨0⟩ ofApples (.byRef (.instantiation
      (.definition (Module.typeToken 0)) [.array (.parameter "T") 1])) := by
    have hopen (names) : ((ofCrates names).type ⟨0⟩).generics = ["T"] := by cbv
    refine .byRef (.instantiation (.definition (hdefined _)) rfl (List.cons_ne_nil _ _)
      (congrArg List.length (hopen _)) fun s hs ↦ ?_) fun name hname ↦ ?_
    · obtain rfl := List.mem_singleton.mp hs
      refine .array (.bound (hbound _)) fun name hname ↦ ?_
      cases hname
      simp [hbound]
    · cases hname
  obtain ⟨t, r', hok, -, hname, -⟩ :=
    resolveType_spells_out hreached (plainlyNamed_ofCrates _) hcontext hwritable
  refine ⟨hreached, plainlyNamed_ofCrates _, hcontext, t, r', hok, hname.trans ?_⟩
  have hcrate : (ofCrates crateNames).typeName ⟨0⟩ = "Crate" := rfl
  have happle : (ofCrates crateNames).typeName ⟨1⟩ = "Apple" := rfl
  simp only [rendering, renderings, hdefined, hbound, Option.map_some, Option.getD_some, hcrate,
    happle]
  decide

/-- The array is lost where nothing binds the parameter that it would be of. -/
theorem wrapper_lost : empty.Reached ∧ empty.PlainlyNamed ∧
    empty.Writable ⟨0⟩ .empty (.parameter "T") ∧
    empty.rendering ⟨0⟩ .empty (.array (.parameter "T") 1) = "!T[]" ∧
    ∃ t r', resolveType ⟨0⟩ .empty (.array (.parameter "T") 1) empty = .ok t r' ∧
      r'.typeName t = "!T" := by
  have hfree : GenericContext.empty.find? empty "T" = none := rfl
  have hnew : empty.names["!" ++ "T"]? = none := Std.HashMap.getElem?_empty
  have hlost : resolveType ⟨0⟩ .empty (.array (.parameter "T") 1) empty = makeParameter "T" empty :=
    resolveType_of_unbound hfree rfl
  have hmade : makeParameter "T" empty = _ := intern_of_new hnew
  refine ⟨.empty, plainlyNamed_empty, .unbound hfree (by decide +kernel) (by decide), ?_,
    ⟨_, _, hlost.trans hmade, rfl⟩⟩
  simp only [rendering, hfree]
  decide

end Registry

end ManagedMachine
