import ManagedMachine.Proofs.CoreTypes
import ManagedMachine.Proofs.ReadNames
import ManagedMachine.Proofs.TypeIdentity

/-!
# What names resolve to

Once a name was resolved it is known as it is spelled, and it keeps its meaning whatever happens
later. This rests on lengths: what comes into being on the way to a type has a shorter name than the
one that is resolved, so it cannot take that name. Another spelling of the name finds the same type
if every type goes by a name of its own that reads as what it names.

The statement of the induction (`Registry.Reads`) has two parts, what the name means afterwards and
what names have come into use: each of them is shorter than the text, or it has the length of the
text and belongs to the type that was found.
-/

set_option autoImplicit false
set_option relaxedAutoImplicit false

namespace ManagedMachine

namespace Registry

open ManagedMachine.TypeName (nested text)

variable {r r' : Registry} {d : Descriptor} {t e : TypeId} {i : Nat} {name : String}
  {n : TypeName} {scope : Option String}

/-! ### Names of all types -/

/-- No host type has a comma in its name, instantiations apart, and these come after the types that
they instantiate. -/
structure Regular (r : Registry) : Prop where
  commas : ∀ (i : Nat) d, r.types[i]? = some d → d.isNative = true → d.definition = none →
    ',' ∉ d.name.toList
  earlier : ∀ (i : Nat) d g, r.types[i]? = some d → d.definition = some g → g.index < i

theorem Regular.of_extends (h : r'.Regular) (hr : r.Extends r') : r.Regular :=
  ⟨fun i d hd ↦ h.commas i d (hr.types i d hd), fun i d g hd ↦ h.earlier i d g (hr.types i d hd)⟩

/-- Types are known under their names, and every name that is known reads as the name of what it
means, or is at least as long. -/
structure Listed (r : Registry) : Prop where
  known : ∀ (i : Nat) d, r.types[i]? = some d → ∃ u, r.names[d.name]? = some u
  short : r.Regular → ∀ (s : String) t, r.names[s]? = some t →
    (r.typeName t).toList.length ≤ s.toList.length
  read : r.Legible → ∀ (s : String) t, r.names[s]? = some t →
    ∃ n : TypeName, TypeName.parse? s = some n ∧ r.typeName t = nested n.canonical

theorem listed_empty : empty.Listed where
  known _ _ h := nomatch h
  short _ _ _ h := nomatch Std.HashMap.getElem?_empty.symm.trans h
  read _ _ _ h := nomatch Std.HashMap.getElem?_empty.symm.trans h

/-- The name of a legible type reads as that name. -/
theorem Descriptor.Legible.read (h : d.Legible) :
    ∃ n : TypeName, TypeName.parse? d.name = some n ∧ d.name = nested n.canonical := by
  obtain ⟨n, hwell, hname, hslash, -⟩ := h
  refine ⟨n, hname ▸ hwell.parse?_canonical, ?_⟩
  rw [← hname, TypeName.nested_of_no_slash hslash]

/-- A type may be added with its name, or without it if that is taken. -/
theorem Listed.push {names scoped_ : Std.HashMap String TypeId}
    {backed : Std.HashMap HostKind TypeId} {definitions : Std.HashMap Reference TypeId}
    (ho : r.Orderly) (h : r.Listed)
    (hkept : ∀ (s : String) u, r.names[s]? = some u → names[s]? = some u)
    (hnew : ∀ (s : String) u, names[s]? = some u →
      r.names[s]? = some u ∨ s = d.name ∧ u = ⟨r.types.size⟩)
    (hknown : ∃ u, names[d.name]? = some u) :
    Listed { r with types := r.types.push d, names, scoped_, backed, definitions } := by
  have hextends :
      r.Extends { r with types := r.types.push d, names, scoped_, backed, definitions } :=
    ⟨fun _ _ hd ↦ getElem?_push_of_some hd, fun _ _ hm ↦ hm, hkept, fun _ _ hl ↦ hl⟩
  have hlast : (r.types.push d)[r.types.size]? = some d := Array.getElem?_push_size
  have hname :
      Registry.typeName { r with types := r.types.push d, names, scoped_, backed, definitions }
      ⟨r.types.size⟩ = d.name := typeName_of_getElem? hlast
  constructor
  case known =>
    intro i d' hd'
    rcases getElem?_push_cases hd' with hold | rfl
    · obtain ⟨u, hu⟩ := h.known i d' hold
      exact ⟨u, hkept _ _ hu⟩
    · exact hknown
  case short =>
    intro hregular s u hu
    rcases hnew s u hu with hold | ⟨rfl, rfl⟩
    · rw [hextends.typeName_eq (ho.present _ _ hold)]
      exact h.short (hregular.of_extends hextends) s u hold
    · exact (congrArg (·.toList.length) hname).le
  case read =>
    intro hlegible s u hu
    rcases hnew s u hu with hold | ⟨rfl, rfl⟩
    · rw [hextends.typeName_eq (ho.present _ _ hold)]
      exact h.read (hlegible.of_extends hextends) s u hold
    · rw [hname]
      exact Descriptor.Legible.read (hlegible _ _ hlast)

/-- Facts about types list no names. -/
theorem Listed.files (h : r.Listed) (hf : r.Files r') : r'.Listed := by
  have htype (t : TypeId) : r'.typeName t = r.typeName t := by
    rw [typeName, typeName, Registry.type, Registry.type, hf.types]
  have hextends : r.Extends r' := hf.extends
  constructor
  case known =>
    intro i d hd
    rw [hf.types] at hd
    rw [hf.names]
    exact h.known i d hd
  case short =>
    intro hregular s u hu
    rw [hf.names] at hu
    rw [htype]
    exact h.short (hregular.of_extends hextends) s u hu
  case read =>
    intro hlegible s u hu
    rw [hf.names] at hu
    rw [htype]
    exact h.read (hlegible.of_extends hextends) s u hu

/-- A name may be told of a type that it reads as. -/
theorem Listed.addName (h : r.Listed)
    (hshort : r.Regular → (r.typeName t).toList.length ≤ name.toList.length)
    (hread : r.Legible → ∃ n : TypeName, TypeName.parse? name = some n ∧
      r.typeName t = nested n.canonical) :
    Listed { r with names := r.names.insertIfNew name t } where
  known i d hd := by
    obtain ⟨u, hu⟩ := h.known i d hd
    exact ⟨u, getElem?_insertIfNew_of_some hu⟩
  short hregular s u hu := by
    rcases names_insertIfNew_cases hu with hold | ⟨rfl, rfl⟩
    · exact h.short ⟨hregular.commas, hregular.earlier⟩ s u hold
    · exact hshort ⟨hregular.commas, hregular.earlier⟩
  read hlegible s u hu := by
    rcases names_insertIfNew_cases hu with hold | ⟨rfl, rfl⟩
    · exact h.read hlegible s u hold
    · exact hread hlegible

theorem names_of_intern_cases (h : intern d r = .ok t r') {s : String} {u : TypeId}
    (hu : r'.names[s]? = some u) : r.names[s]? = some u ∨ s = d.name ∧ u = t := by
  cases hknown : r.names[d.name]? with
  | some u =>
    rw [intern_of_known hknown] at h
    cases h
    exact .inl hu
  | none =>
    rw [intern, ask_bind, hknown] at h
    cases h
    exact names_insertIfNew_cases hu

theorem listed_intern (ho : r.Orderly) (h : r.Listed) : (endState (intern d) r).Listed := by
  cases hknown : r.names[d.name]? with
  | some t =>
    rw [endState_ok (intern_of_known hknown)]
    exact h
  | none =>
    rw [endState_ok (intern_of_new hknown)]
    exact h.push ho (fun _ _ hu ↦ getElem?_insertIfNew_of_some hu)
      (fun _ _ hu ↦ names_insertIfNew_cases hu) ⟨_, getElem?_insertIfNew_of_none hknown⟩

theorem exists_insertIfNew {names : Std.HashMap String TypeId} (s : String) (t : TypeId) :
    ∃ u, (names.insertIfNew s t)[s]? = some u := by
  rw [← Option.isSome_iff_exists, ← Std.HashMap.mem_iff_isSome_getElem?]
  exact Std.HashMap.mem_insertIfNew_self

theorem listed_ofHostType (ho : r.Orderly) (h : r.Listed) (type : HostType) :
    (endState (ofHostType type) r).Listed := by
  cases hknown : r.scoped_[type.scopedName]? with
  | some t =>
    rw [endState_ok (ofHostType_of_known hknown)]
    exact h
  | none =>
    obtain ⟨r', hok, backed, rfl⟩ := ofHostType_of_new hknown
    rw [endState_ok hok]
    exact h.push ho (d := type.descriptor) (fun _ _ hu ↦ getElem?_insertIfNew_of_some hu)
      (fun _ _ hu ↦ names_insertIfNew_cases hu) (exists_insertIfNew _ _)

theorem listed_makeInstance (ho : r.Orderly) (h : r.Listed) (t : TypeId) (args : List TypeId) :
    (endState (makeInstance t args) r).Listed := by
  by_cases harity : (r.type (r.openOf t)).generics.length = args.length
  · rw [endState, makeInstance_of_arity harity]
    exact listed_intern ho h
  · obtain ⟨e, he⟩ := makeInstance_of_mismatch harity
    rw [endState_error he]
    exact h

/-- The registry has grown in good order, and its names still read as what they mean. -/
structure Lists (r r' : Registry) : Prop where
  upholds : r.Upholds r'
  listed : r.Orderly → r.Listed → r'.Listed

theorem lists_of {α : Type} {x : RegistryM α} (hx : Keeps Upholds x)
    (h : ∀ r : Registry, r.Orderly → r.Listed → (endState x r).Listed) : Keeps Lists x :=
  fun r ↦ ⟨hx r, h r⟩

instance : Building Lists where
  refl r := ⟨refl_of Upholds r, fun _ h ↦ h⟩
  trans _ _ _ h h' := ⟨trans_of Upholds h.upholds h'.upholds,
    fun ho hlisted ↦ h'.listed (h.upholds.2 ho) (h.listed ho hlisted)⟩
  makeArray e rank := lists_of (Building.makeArray e rank) fun r ho h ↦ by
    rw [endState, makeArray_eq]
    exact listed_intern ho h
  makeByRef e := lists_of (Building.makeByRef e) fun r ho h ↦ by
    rw [endState, makeByRef_eq]
    exact listed_intern ho h
  makeParameter s := lists_of (Building.makeParameter s) fun _ ho h ↦ listed_intern ho h
  makeInstance t args := lists_of (Building.makeInstance t args) fun _ ho h ↦
    listed_makeInstance ho h t args
  ofHostType type := lists_of (Building.ofHostType type) fun _ ho h ↦ listed_ofHostType ho h type

/-! ### What a name is resolved to -/

/-- The type reads as the name, and its own name is no longer. -/
structure Found (r : Registry) (n : TypeName) (t : TypeId) : Prop where
  has : r.Has t
  name : r.Legible → r.typeName t = nested n.canonical
  short : r.Regular → (r.typeName t).toList.length ≤ (text n).length

theorem Found.of_extends (h : r.Found n t) (hr : r.Extends r') : r'.Found n t where
  has := hr.has h.has
  name hlegible := (hr.typeName_eq h.has).trans (h.name (hlegible.of_extends hr))
  short hregular := by
    rw [hr.typeName_eq h.has]
    exact h.short (hregular.of_extends hr)

/-- What the resolution of a name in one registry leaves in another: names that are new are shorter
than the one that was resolved, or as long and that of the type that was found. -/
structure Reads (r r' : Registry) (n : TypeName) (t : TypeId) : Prop extends r'.Found n t where
  gained : r'.Regular → ∀ (s : String) u, r'.names[s]? = some u → r.names[s]? = some u ∨
    s.toList.length < (text n).length ∨ s.toList.length = (text n).length ∧ u = t

theorem Reads.le (h : r.Reads r' n t) (hregular : r'.Regular) {s : String} {u : TypeId}
    (hu : r'.names[s]? = some u) :
    r.names[s]? = some u ∨ s.toList.length ≤ (text n).length := by
  rcases h.gained hregular s u hu with hold | hlt | ⟨heq, -⟩
  · exact .inl hold
  · exact .inr hlt.le
  · exact .inr heq.le

/-- A descriptor is interned under a name that reads as `n`. -/
theorem reads_of_intern {r₁ : Registry} (ho : r'.Orderly) (h : r'.Listed)
    (hx : intern d r₁ = .ok t r') (hn : r'.Legible → d.name = nested n.canonical)
    (hreadable : n.Readable) (hshort : r'.Regular → d.name.toList.length ≤ (text n).length)
    (hgained : r'.Regular → ∀ (s : String) u, r₁.names[s]? = some u → r.names[s]? = some u ∨
      s.toList.length < (text n).length) : r.Reads r' n t := by
  have hnamed := names_of_intern hx
  refine ⟨⟨ho.present _ _ hnamed, fun hlegible ↦ ?_, fun hregular ↦ ?_⟩, fun hregular s u hu ↦ ?_⟩
  · obtain ⟨m, hm, hmname⟩ := h.read hlegible _ _ hnamed
    obtain ⟨u, hu, hcanonical⟩ := hreadable.nested
    rw [hn hlegible, ← hcanonical, hu.parse?_canonical] at hm
    cases hm
    rw [hmname, hcanonical, TypeName.nested_nested]
  · exact (h.short hregular _ _ hnamed).trans (hshort hregular)
  · rcases names_of_intern_cases hx hu with hold | ⟨rfl, rfl⟩
    · exact (hgained hregular s u hold).imp id .inl
    · rcases Nat.lt_or_eq_of_le (hshort hregular) with hlt | heq
      · exact .inr (.inl hlt)
      · exact .inr (.inr ⟨heq, rfl⟩)

/-- A host type in use that goes by a name and a module has that name. -/
theorem Orderly.named_of_scoped (ho : r.Orderly) {scope : String} (hcomma : ',' ∉ name.toList)
    (ht : r.scoped_[name ++ ", " ++ scope]? = some t) :
    r.Has t ∧ (r.Legible ∨ r.Regular → r.typeName t = name) ∧
      (r.Legible → '/' ∉ name.toList) := by
  obtain ⟨d, type, hd, hnone, hshape, hname, hscoped⟩ := ho.hosts _ _ ht
  have hnamed (hrule : r.Legible ∨ r.Regular) : d.name = name := by
    have hplain : ',' ∉ type.fullName.toList := by
      rcases hrule with hlegible | hregular
      · have hplain := isPlain_of_legible (hlegible _ _ hd) hnone
          (by simp [Descriptor.element?, hshape])
        exact hname ▸ comma_notMem_of_isPlain hplain
      · exact hname ▸ hregular.commas _ _ hd
          (by simp [Descriptor.isNative, Descriptor.native?, hshape])
          hnone
    rw [hname]
    exact (eq_of_append_comma hcomma hplain hscoped).symm
  refine ⟨(Array.getElem?_eq_some_iff.mp hd).1, fun hrule ↦ ?_, fun hlegible ↦ ?_⟩
  · rw [typeName_of_getElem? hd, hnamed hrule]
  · obtain ⟨n, -, -, hslash, -⟩ := hlegible _ _ hd
    rwa [hnamed (.inl hlegible)] at hslash

theorem nested_simple (name : String) (scope : Option String) :
    nested (TypeName.simple name scope).canonical = nested name := by
  rw [TypeName.canonical]

/-- What is found as it is known already. -/
theorem reads_of_known (ho : r.Orderly) (h : r.Listed) (hplain : TypeName.IsPlain name.toList)
    (ht : (r.inScope? name scope <|> r.names[name]?) = some t) :
    r.Reads r (.simple name scope) t := by
  have hcomma := comma_notMem_of_isPlain hplain
  rw [Option.orElse_eq_some] at ht
  rcases ht with hscope | ⟨-, hknown⟩
  · obtain ⟨s, rfl, hs⟩ := Option.bind_eq_some_iff.mp hscope
    obtain ⟨hhas, hname, hslash⟩ := ho.named_of_scoped hcomma hs
    refine ⟨⟨hhas, fun hlegible ↦ ?_, fun hregular ↦ ?_⟩, fun _ _ _ hu ↦ .inl hu⟩
    · rw [hname (.inl hlegible), nested_simple, TypeName.nested_of_no_slash (hslash hlegible)]
    · rw [hname (.inr hregular), TypeName.text_simple]
  · refine ⟨⟨ho.present _ _ hknown, fun hlegible ↦ ?_, fun hregular ↦ ?_⟩, fun _ _ _ hu ↦ .inl hu⟩
    · obtain ⟨m, hm, hmname⟩ := h.read hlegible _ _ hknown
      have hsimple := (TypeName.WellFormed.simple hplain).parse?_canonical
      rw [canonical_simple, hm] at hsimple
      cases hsimple
      rw [hmname, nested_simple, nested_simple]
    · rw [TypeName.text_simple]
      exact h.short hregular _ _ hknown

/-- A host type that is looked up by its full name. -/
theorem reads_of_ofHostType (ho : r.Orderly) {type : HostType} (hcomma : ',' ∉ name.toList)
    (hname : type.fullName = name) (hx : ofHostType type r = .ok t r') :
    r.Reads r' (.simple name scope) t := by
  subst hname
  cases hknown : r.scoped_[type.scopedName]? with
  | some u =>
    rw [ofHostType_of_known hknown] at hx
    cases hx
    obtain ⟨hhas, hname, hslash⟩ := ho.named_of_scoped hcomma hknown
    refine ⟨⟨hhas, fun hlegible ↦ ?_, fun hregular ↦ ?_⟩, fun _ _ _ hu ↦ .inl hu⟩
    · rw [hname (.inl hlegible), nested_simple, TypeName.nested_of_no_slash (hslash hlegible)]
    · rw [hname (.inr hregular), TypeName.text_simple]
  | none =>
    obtain ⟨r₁, hok, backed, hr⟩ := ofHostType_of_new hknown
    rw [hok] at hx
    cases hx
    have hlast : r'.types[r.types.size]? = some type.descriptor := by
      rw [hr]
      exact Array.getElem?_push_size
    have hname : r'.typeName ⟨r.types.size⟩ = type.fullName :=
      typeName_of_getElem? (d := type.descriptor) hlast
    refine ⟨⟨(Array.getElem?_eq_some_iff.mp hlast).1, fun hlegible ↦ ?_, fun _ ↦ ?_⟩,
      fun _ s u hu ↦ ?_⟩
    · obtain ⟨n, -, -, hslash, -⟩ := hlegible _ _ hlast
      have hsame : nested type.fullName = type.fullName := TypeName.nested_of_no_slash hslash
      rw [nested_simple, hsame, hname]
    · rw [TypeName.text_simple, hname]
    · rw [hr] at hu
      rw [TypeName.text_simple]
      rcases names_insertIfNew_cases hu with hold | ⟨rfl, rfl⟩
      · exact .inl hold
      · exact .inr (.inr ⟨rfl, rfl⟩)

/-- Looking up a name finds it known, or a host type that comes into use, or nothing. -/
theorem lookup?_cases {found : Option TypeId} (hx : lookup? name scope r = .ok found r') :
    (∃ t, found = some t ∧ r' = r ∧ (r.inScope? name scope <|> r.names[name]?) = some t) ∨
    (∃ t type, found = some t ∧ type.fullName = name ∧ ofHostType type r = .ok t r') ∨
    found = none ∧ r' = r := by
  cases hknown : r.inScope? name scope <|> r.names[name]? with
  | some u =>
    rw [lookup?_of_known hknown] at hx
    cases hx
    exact .inl ⟨u, rfl, rfl, rfl⟩
  | none =>
    cases hfind : HostLibrary.find? r.host.toList name scope with
    | none =>
      rw [lookup?_of_none hknown hfind] at hx
      cases hx
      exact .inr (.inr ⟨rfl, rfl⟩)
    | some type =>
      rw [lookup?, get_bind_apply, hknown, hfind] at hx
      obtain ⟨t, r₁, hmade, hrest⟩ := exists_of_bind hx
      cases hrest
      exact .inr (.inl ⟨t, type, rfl, fullName_of_find? hfind, hmade⟩)

theorem reads_of_lookup? (ho : r.Orderly) (h : r.Listed) (hplain : TypeName.IsPlain name.toList)
    (hx : lookup? name scope r = .ok (some t) r') : r.Reads r' (.simple name scope) t := by
  rcases lookup?_cases hx with ⟨u, hu, rfl, hknown⟩ | ⟨u, type, hu, hname, hmade⟩ | ⟨hu, -⟩
  · cases hu
    exact reads_of_known ho h hplain hknown
  · cases hu
    exact reads_of_ofHostType ho (comma_notMem_of_isPlain hplain) hname hmade
  · cases hu

/-- A simple name brings at most its own type into use. -/
theorem reads_of_resolveIn (ho : r.Orderly) (h : r.Listed) (hplain : TypeName.IsPlain name.toList)
    (hx : resolveIn name scope r = .ok t r') : r.Reads r' (.simple name scope) t := by
  obtain ⟨found, r₁, hlook, hrest⟩ := exists_of_bind hx
  cases found with
  | some u =>
    cases hrest
    exact reads_of_lookup? ho h hplain hlook
  | none =>
    obtain rfl : r₁ = r := by
      rcases lookup?_cases hlook with ⟨u, hu, -⟩ | ⟨u, type, hu, -⟩ | ⟨-, hr⟩
      · cases hu
      · cases hu
      · exact hr
    -- only a name with a slash is looked up again
    cases hslash : name.any (· == '/') with
    | false =>
      simp only [hslash] at hrest
      cases hrest
    | true =>
      simp only [hslash, if_true] at hrest
      obtain ⟨second, r₂, hlook₂, hrest₂⟩ := exists_of_bind hrest
      cases second with
      | none => cases hrest₂
      | some u =>
        cases hrest₂
        have hreads : r₁.Reads r' (.simple (nested name) scope) t :=
          reads_of_lookup? ho h hplain.nested hlook₂
        refine ⟨⟨hreads.has, fun hlegible ↦ ?_, fun hregular ↦ ?_⟩, fun hregular ↦ ?_⟩
        · rw [hreads.name hlegible, nested_simple, nested_simple, TypeName.nested_nested]
        · simpa [TypeName.text_simple] using hreads.short hregular
        · simpa [TypeName.text_simple] using hreads.gained hregular

/-- The open type of an instantiation has a shorter name. -/
theorem Orderly.short_openOf (ho : r.Orderly) (hregular : r.Regular) (ht : r.Has t) :
    (r.typeName (r.openOf t)).toList.length ≤ (r.typeName t).toList.length := by
  cases hdefinition : (r.type t).definition with
  | none => rw [openOf, hdefinition]; rfl
  | some g =>
    have hd := getElem?_of_has ht
    have hname := (ho.types _ _ hd).instance_ g hdefinition
    have hbefore : r.nameBefore t.index g = r.typeName g :=
      if_pos (hregular.earlier _ _ g hd hdefinition)
    have hopen : r.openOf t = g := by rw [openOf, hdefinition]; rfl
    rw [hopen, typeName_of_getElem? hd, hname, hbefore]
    simp only [String.toList_append, List.length_append]
    omega

theorem length_instanceOf {g : TypeId} {ts : List TypeId} {ns : List TypeName}
    (hts : List.Forall₂ (fun n t ↦ (r.typeName t).toList.length ≤ (text n).length) ns ts)
    {head : TypeName} (hhead : (r.typeName g).toList.length ≤ (text head).length) :
    (r.instanceOf g ts).name.toList.length ≤ (text (.generic head ns)).length := by
  have hparts : List.Forall₂ (fun p q ↦ p.length ≤ q.length)
      ((ts.map r.typeName).map String.toList) (ns.map text) := by
    rw [List.map_map, List.forall₂_map_left_iff, List.forall₂_map_right_iff]
    exact hts.flip
  have hargs := TypeName.length_intercalate_le hparts
  rw [TypeName.text_generic, instanceOf]
  simp only [String.toList_append, String.toList_intercalate, List.length_append, List.length_cons,
    List.length_nil]
  have hopen : "<".toList.length = 1 := rfl
  have hclose : ">".toList.length = 1 := rfl
  have hcomma : ",".toList = [','] := rfl
  rw [hopen, hclose, hcomma]
  omega

/-- An array reads as the name of its elements with the brackets after it. -/
theorem Reads.makeArray {r₁ : Registry} {element : TypeName} {rank : UInt8}
    (hreads : r.Reads r₁ element e) (ho : r₁.Orderly) (h : r₁.Listed)
    (hn : (TypeName.array element rank).Readable) (hx : makeArray e rank r₁ = .ok t r') :
    r.Reads r' (.array element rank) t := by
  have hlast := Keeps.ok (R := Lists) (Building.makeArray e rank) hx
  have hextends := hlast.upholds.1
  rw [makeArray_eq] at hx
  refine reads_of_intern (hlast.upholds.2 ho) (hlast.listed ho h) hx (fun hlegible ↦ ?_) hn
    (fun hregular ↦ ?_) fun hregular s u hu ↦ ?_
  · rw [arrayOf, hreads.name (hlegible.of_extends hextends), TypeName.nested_array]
  · have hshort := hreads.short (hregular.of_extends hextends)
    rw [arrayOf, TypeName.text_array, String.toList_append, toList_arraySuffix]
    simp only [List.length_append]
    omega
  · refine (hreads.le (hregular.of_extends hextends) hu).imp id fun hle ↦ ?_
    rw [TypeName.text_array]
    simp only [List.length_append, List.length_cons]
    omega

/-- A reference to a type that was read has the longer name. -/
theorem Reads.makeByRef {r₁ : Registry} {inner : TypeName} (hreads : r.Reads r₁ inner e)
    (ho : r₁.Orderly) (h : r₁.Listed) (hn : (TypeName.byRef inner).Readable)
    (hx : makeByRef e r₁ = .ok t r') : r.Reads r' (.byRef inner) t := by
  have hlast := Keeps.ok (R := Lists) (Building.makeByRef e) hx
  have hextends := hlast.upholds.1
  rw [makeByRef_eq] at hx
  refine reads_of_intern (hlast.upholds.2 ho) (hlast.listed ho h) hx (fun hlegible ↦ ?_) hn
    (fun hregular ↦ ?_) fun hregular s u hu ↦ ?_
  · rw [byRefOf, hreads.name (hlegible.of_extends hextends), TypeName.nested_byRef]
  · have hshort := hreads.short (hregular.of_extends hextends)
    rw [byRefOf, TypeName.text_byRef, String.toList_append]
    simpa using hshort
  · refine (hreads.le (hregular.of_extends hextends) hu).imp id fun hle ↦ ?_
    rw [TypeName.text_byRef]
    simpa [Nat.lt_succ_iff] using hle

/-- An instantiation reads as the name of the open type with those of its arguments. The names that
the arguments have brought in are shorter. -/
theorem Reads.makeInstance {r₁ r₂ : Registry} {g : TypeId} {ts : List TypeId}
    {args : List TypeName} {scope : Option String}
    (hreads : r.Reads r₁ (.simple name scope) g) (hr : r₁.Extends r₂)
    (hargs : List.Forall₂ r₂.Found args ts)
    (hgained : r₂.Regular → ∀ (s : String) u, r₂.names[s]? = some u → r₁.names[s]? = some u ∨
      ∃ n ∈ args, s.toList.length ≤ (text n).length)
    (ho : r₂.Orderly) (h : r₂.Listed) (hplain : TypeName.IsPlain name.toList)
    (hn : (TypeName.generic (.simple name scope) args).Readable)
    (hx : makeInstance g ts r₂ = .ok t r') :
    r.Reads r' (.generic (.simple name scope) args) t := by
  have hlast := Keeps.ok (R := Lists) (Building.makeInstance g ts) hx
  have hextends := hlast.upholds.1
  have hhead := hreads.toFound.of_extends hr
  refine reads_of_intern (hlast.upholds.2 ho) (hlast.listed ho h) (makeInstance_ok hx).2
    (fun hlegible ↦ ?_) hn (fun hregular ↦ ?_) fun hregular s u hu ↦ ?_
  · have hlegible₂ := hlegible.of_extends hextends
    have hname := hhead.name hlegible₂
    have hopen : r₂.openOf g = g := by
      refine openOf_of_isPlain hlegible₂ hhead.has ?_
      rw [hname, nested_simple]
      exact hplain.nested
    have hnames : ts.map r₂.typeName = args.map fun n ↦ nested n.canonical :=
      List.forall₂_eq_eq_eq ▸ List.forall₂_map_left_iff.mpr
        (List.forall₂_map_right_iff.mpr (hargs.flip.imp fun _ _ ha ↦ ha.name hlegible₂))
    rw [instanceOf, hopen, hname, hnames, TypeName.nested_generic]
  · have hregular₂ := hregular.of_extends hextends
    exact length_instanceOf (hargs.imp fun _ _ ha ↦ ha.short hregular₂)
      ((ho.short_openOf hregular₂ hhead.has).trans (hhead.short hregular₂))
  · have hregular₂ := hregular.of_extends hextends
    have hsmaller := TypeName.length_lt_generic (.simple name scope) args
    rcases hgained hregular₂ s u hu with hold | ⟨m, hm, hle⟩
    · exact (hreads.le (hregular₂.of_extends hr) hold).imp id (·.trans_lt hsmaller.1)
    · exact .inr (hle.trans_lt (hsmaller.2 m hm))

mutual

/-- By recursion on the name. -/
theorem reads_of_resolveParsed : (n : TypeName) → {r r' : Registry} → {t : TypeId} → n.Readable →
    r.Orderly → r.Listed → resolveParsed n r = .ok t r' → r.Reads r' n t
  | .simple name scope, r, r', t, hn, ho, h, hx => by
    rw [resolveParsed] at hx
    cases hn with
    | simple _ hplain => exact reads_of_resolveIn ho h hplain hx
  | .array element rank, r, r', t, hn, ho, h, hx => by
    rw [resolveParsed] at hx
    obtain ⟨e, r₁, he, hmake⟩ := exists_of_bind hx
    have hstep := Keeps.ok (R := Lists) (grows_resolveParsed element) he
    cases hn with
    | array helement hrank =>
      exact (reads_of_resolveParsed element helement ho h he).makeArray (hstep.upholds.2 ho)
        (hstep.listed ho h) (.array helement hrank) hmake
  | .byRef inner, r, r', t, hn, ho, h, hx => by
    rw [resolveParsed] at hx
    obtain ⟨e, r₁, he, hmake⟩ := exists_of_bind hx
    have hstep := Keeps.ok (R := Lists) (grows_resolveParsed inner) he
    cases hn with
    | byRef hinner =>
      exact (reads_of_resolveParsed inner hinner ho h he).makeByRef (hstep.upholds.2 ho)
        (hstep.listed ho h) (.byRef hinner) hmake
  | .generic head args, r, r', t, hn, ho, h, hx => by
    rw [resolveParsed] at hx
    obtain ⟨g, r₁, hg, hrest⟩ := exists_of_bind hx
    obtain ⟨ts, r₂, hts, hmake⟩ := exists_of_bind hrest
    have hstep := Keeps.ok (R := Lists) (grows_resolveParsed head) hg
    have hstep₂ := Keeps.ok (R := Lists) (grows_resolveAllParsed args) hts
    have ho₁ := hstep.upholds.2 ho
    have h₁ := hstep.listed ho h
    cases hn with
    | @generic name scope _ hplain hne hwells =>
      have hsimple : TypeName.Readable (.simple name scope) := .simple scope hplain
      have hreads := reads_of_resolveParsed _ hsimple ho h hg
      obtain ⟨hargs, hgained⟩ := reads_of_resolveAllParsed args hwells ho₁ h₁ hts
      exact hreads.makeInstance hstep₂.upholds.1 hargs hgained (hstep₂.upholds.2 ho₁)
        (hstep₂.listed ho₁ h₁) hplain (.generic scope hplain hne hwells) hmake

/-- Arguments are read in turn, and what one of them has brought is there for the next. -/
theorem reads_of_resolveAllParsed : (ns : List TypeName) → {r r' : Registry} →
    {ts : List TypeId} → (∀ n ∈ ns, n.WellFormed) → r.Orderly → r.Listed →
    resolveAllParsed ns r = .ok ts r' → List.Forall₂ r'.Found ns ts ∧
      (r'.Regular → ∀ (s : String) u, r'.names[s]? = some u → r.names[s]? = some u ∨
        ∃ n ∈ ns, s.toList.length ≤ (text n).length)
  | [], r, r', ts, _, ho, h, hx => by
    rw [resolveAllParsed] at hx
    cases hx
    exact ⟨.nil, fun _ _ _ hu ↦ .inl hu⟩
  | n :: ns, r, r', ts, hns, ho, h, hx => by
    rw [resolveAllParsed] at hx
    obtain ⟨t, r₁, ht, hrest⟩ := exists_of_bind hx
    obtain ⟨us, r₂, hts, hlast⟩ := exists_of_bind hrest
    cases hlast
    have hstep := Keeps.ok (R := Lists) (grows_resolveParsed n) ht
    have hstep₂ := Keeps.ok (R := Lists) (grows_resolveAllParsed ns) hts
    have hreads := reads_of_resolveParsed n (hns n List.mem_cons_self).readable ho h ht
    obtain ⟨hrest, hgained⟩ := reads_of_resolveAllParsed ns
      (fun m hm ↦ hns m (List.mem_cons_of_mem n hm)) (hstep.upholds.2 ho) (hstep.listed ho h) hts
    refine ⟨.cons (hreads.toFound.of_extends hstep₂.upholds.1) hrest, fun hregular s u hu ↦ ?_⟩
    rcases hgained hregular s u hu with hold | ⟨m, hm, hle⟩
    · refine (hreads.le (hregular.of_extends hstep₂.upholds.1) hold).imp id fun hle ↦ ?_
      exact ⟨n, List.mem_cons_self, hle⟩
    · exact .inr ⟨m, List.mem_cons_of_mem n hm, hle⟩

end

/-! ### Every operation keeps it -/

/-- The spelling under which a type is remembered reads as the name of the type. -/
theorem listed_resolve (ho : r.Orderly) (h : r.Listed) (name : String) :
    (endState (resolve name) r).Listed := by
  cases hknown : r.names[name]? with
  | some t =>
    rw [endState_ok (resolve_of_known hknown)]
    exact h
  | none =>
    cases hparse : TypeName.parse? name with
    | none =>
      rw [endState_error (resolve_of_unreadable hknown hparse)]
      exact h
    | some n =>
      have hstep := grows_resolveParsed (R := Lists) n r
      have hresolve := resolve_of_parse hknown hparse
      cases hx : resolveParsed n r with
      | error e r₁ =>
        rw [endState_error hx] at hstep
        rw [endState_error (hresolve.trans (bind_of_error hx))]
        exact hstep.listed ho h
      | ok t r₁ =>
        rw [endState_ok hx] at hstep
        rw [endState_ok (hresolve.trans ((bind_of_ok hx).trans rfl))]
        have hfound := reads_of_resolveParsed n (TypeName.readable_of_parse? hparse) ho h hx
        exact (hstep.listed ho h).addName
          (fun hregular ↦ (hfound.short hregular).trans (TypeName.length_text_le_of_parse? hparse))
          fun hlegible ↦ ⟨n, hparse, hfound.name hlegible⟩

instance : Growth Lists where
  resolve name := lists_of (grows_resolve name) fun _ ho h ↦ listed_resolve ho h name
  resolveString home token := lists_of (Growth.resolveString home token) fun r _ h ↦
    h.files (files_resolveString home token r)
  notes hf := ⟨Growth.notes hf, fun _ h ↦ h.files hf.toFiles⟩

theorem listed_addDefinitions (home : Home) : (defs : List (Nat × TypeDef)) → {r : Registry} →
    r.Orderly → r.Listed → (endState (addDefinitions home defs) r).Listed
  | [], _, _, h => h
  | (position, d) :: rest, r, ho, h => by
    by_cases htaken : definitionName d ∈ r.names
    · rw [endState_error (addDefinitions_of_taken rest htaken)]
      have hknown : ∃ u, r.names[definitionName d]? = some u := by
        rwa [← Option.isSome_iff_exists, ← Std.HashMap.mem_iff_isSome_getElem?]
      exact h.push ho (fun _ _ hu ↦ hu) (fun _ _ hu ↦ .inl hu) hknown
    · have hdefined : (r.define home position d).Listed :=
        h.push ho (d := definedAs home position d) (fun _ _ hu ↦ getElem?_insertIfNew_of_some hu)
          (fun _ _ hu ↦ names_insertIfNew_cases hu) (exists_insertIfNew _ _)
      have horderly := orderly_addDefinitions home [(position, d)] ho
      rw [endState, addDefinitions_of_free [] htaken] at horderly
      rw [endState, addDefinitions_of_free rest htaken]
      exact listed_addDefinitions home rest horderly hdefined

/-- A module lists the names of the types that it adds, also where the load fails. -/
theorem listed_loadModule (ho : r.Orderly) (h : r.Listed) (m : Module) :
    (endState (loadModule m) r).Listed := by
  cases hloaded : r.loaded? m with
  | some id =>
    rw [endState_ok (loadModule_of_loaded hloaded)]
    exact h
  | none =>
    by_cases htaken : ∃ name ∈ definitionNames m, name ∈ r.names
    · obtain ⟨e, he⟩ := loadModule_of_taken hloaded htaken
      rw [endState_error he]
      exact h
    · have hfiles : r.Files { r with modules := r.modules.push m } :=
        ⟨rfl, rfl, rfl, rfl, fun _ _ hm ↦ hm, fun _ _ hl ↦ hl⟩
      rw [endState, loadModule_of_free hloaded fun name hname hmem ↦ htaken ⟨name, hname, hmem⟩]
      generalize List.map _ m.types.toList.zipIdx = defs
      have hadded := listed_addDefinitions ⟨⟨r.modules.size⟩, m⟩ defs (ho.files hfiles)
        (h.files hfiles)
      cases hx : addDefinitions ⟨⟨r.modules.size⟩, m⟩ defs
        { r with modules := r.modules.push m } with
      | error e r₁ =>
        rw [endState_error hx] at hadded
        rw [bind_of_error hx]
        exact hadded
      | ok _ r₁ =>
        rw [endState_ok hx] at hadded
        rw [bind_of_ok hx]
        change (endState (finishLoad m ⟨r.modules.size⟩) r₁).Listed
        unfold finishLoad
        split
        · exact hadded.files ⟨rfl, rfl, rfl, rfl, fun _ _ hm ↦ hm, fun _ _ hl ↦ hl⟩
        · exact hadded

theorem lists_operation {α : Type} {x : RegistryM α} (hx : Operation x) : Keeps Lists x := by
  have hfiles {r : Registry} {modules : Array HostModule} {adaptors : AdaptorTable} :
      r.Files { r with host := modules, adaptors := adaptors } :=
    ⟨rfl, rfl, rfl, rfl, fun _ _ hm ↦ hm, fun _ _ hl ↦ hl⟩
  refine hx.keeps (fun m ↦ ?_) (fun m ↦ ?_) fun f ↦ ?_
  · exact lists_of (upholds_operation (.loadModule m)) fun _ ho h ↦ listed_loadModule ho h m
  · exact lists_of (upholds_operation (.addHostModule m)) fun _ _ h ↦ h.files hfiles
  · exact lists_of (upholds_operation (.registerAdaptor f)) fun _ _ h ↦ h.files hfiles

theorem Reached.listed (h : r.Reached) : r.Listed := by
  induction h with
  | empty => exact listed_empty
  | step h hx ih => exact (lists_operation hx _).listed h.orderly ih

theorem Since.lists (h : r.Since r') : r.Lists r' := by
  induction h with
  | refl => exact refl_of Lists r
  | step _ hx ih => exact trans_of Lists ih (lists_operation hx _)

/-! ### The same text again -/

/-- Once a name was resolved it is known as it is spelled. -/
theorem names_of_resolve (ho : r.Orderly) (h : r.Listed) (hx : resolve name r = .ok t r')
    (hregular : r'.Regular) : r'.names[name]? = some t := by
  cases hknown : r.names[name]? with
  | some u =>
    rw [resolve_of_known hknown] at hx
    cases hx
    exact hknown
  | none =>
    cases hparse : TypeName.parse? name with
    | none =>
      rw [resolve_of_unreadable hknown hparse] at hx
      cases hx
    | some n =>
      rw [resolve_of_parse hknown hparse] at hx
      obtain ⟨u, r₁, hn, hrest⟩ := exists_of_bind hx
      cases hrest
      have hreads := reads_of_resolveParsed n (TypeName.readable_of_parse? hparse) ho h hn
      have hlength := TypeName.length_text_le_of_parse? hparse
      change (r₁.names.insertIfNew name t)[name]? = some t
      cases hnew : r₁.names[name]? with
      | none => exact getElem?_insertIfNew_of_none hnew
      | some u =>
        have hsame := hreads.gained ⟨hregular.commas, hregular.earlier⟩ name u hnew
        rw [hknown] at hsame
        rcases hsame with hold | hlt | ⟨-, rfl⟩
        · cases hold
        · exact absurd hlt (Nat.not_lt.mpr hlength)
        · exact getElem?_insertIfNew_of_some hnew

end Registry

end ManagedMachine
