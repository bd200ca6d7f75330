import ManagedMachine.Proofs.ModuleLoading
import ManagedMachine.Proofs.SettledTypes
import ManagedMachine.Proofs.TypeNames

/-!
# Names in order

The names of a registry mean types that are there, a type that is built from others is found under
the name that spells it out, and so is one of a loaded module. `Orderly` says this and is what every
operation on a registry upholds. It speaks of the name of a type as it was when something was built
from the type, so that it needs no condition on what is built.

A parsed name means a type of that spelling (`Registry.Means`), and by recursion on the name it
means what it was resolved to (`means_of_resolveParsed`). A registry changes by steps that add one
type each, and by loads, which add the types of a module even if they fail (`orderly_loadModule`).
-/

set_option autoImplicit false
set_option relaxedAutoImplicit false

namespace ManagedMachine

/-! ### Names that read as what they name -/

/-- A name of the shape of a type: of one that stands for itself, an instantiation, an array or a
reference. -/
def TypeName.Fits (d : Descriptor) : TypeName → Prop
  | .simple .. => d.definition = none ∧ d.element? = none
  | .generic .. => d.definition.isSome = true
  | .array .. => d.definition = none ∧ d.isArray = true
  | .byRef _ => d.definition = none ∧ d.isByRef = true

/-- The name of the type is the canonical text of a name of its shape, without slashes. -/
def Descriptor.Legible (d : Descriptor) : Prop :=
  ∃ n : TypeName, n.WellFormed ∧ d.name = n.canonical ∧ '/' ∉ d.name.toList ∧ n.Fits d

/-- The type is made from others, or stands for a parameter. -/
def Descriptor.IsInterned (d : Descriptor) : Prop :=
  d.definition.isSome = true ∨ d.element?.isSome = true ∨ d.isParameter = true

namespace Registry

variable {r r' : Registry} {d : Descriptor} {t e : TypeId} {i : Nat} {name : String}

/-- The name of every type can be read, and says what the type is made of. -/
def Legible (r : Registry) : Prop := ∀ (i : Nat) d, r.types[i]? = some d → d.Legible

/-- There are no slashes in the text, and if it is the text of a type name, then the canonical
one. -/
def Canonical (s : String) : Prop :=
  '/' ∉ s.toList ∧ ∀ n, TypeName.parse? s = some n → n.WellFormed ∧ n.canonical = s

theorem canonical_of_wellFormed {n : TypeName} (h : n.WellFormed)
    (hslash : '/' ∉ n.canonical.toList) : Canonical n.canonical := by
  refine ⟨hslash, fun m hm ↦ ?_⟩
  cases h.parse?_canonical.symm.trans hm
  exact ⟨h, rfl⟩

theorem type_eq_of_getElem? (h : r.types[t.index]? = some d) : r.type t = d := by
  rw [Registry.type, Array.getD_eq_getD_getElem?, h]
  rfl

theorem typeName_of_getElem? (h : r.types[t.index]? = some d) : r.typeName t = d.name :=
  congrArg Descriptor.name (type_eq_of_getElem? h)

theorem getElem?_of_has (h : r.Has t) : r.types[t.index]? = some (r.type t) := by
  rw [Registry.type, Array.getD_eq_getD_getElem?, Array.getElem?_eq_getElem h]
  rfl

theorem typeName_of_not_has (h : ¬r.Has t) : r.typeName t = "" := by
  rw [typeName, Registry.type, Array.getD_eq_getD_getElem?,
    Array.getElem?_eq_none (Nat.le_of_not_lt h)]
  rfl

theorem Legible.of_extends (h : r'.Legible) (hr : r.Extends r') : r.Legible :=
  fun i d hd ↦ h i d (hr.types i d hd)

/-! ### Names as they were -/

/-- The name that a type had when the type at a position was added. -/
def nameBefore (r : Registry) (i : Nat) (t : TypeId) : String :=
  if t.index < i then r.typeName t else ""

/-- The name of a type that is built from others is built from their names. -/
structure Named (r : Registry) (i : Nat) (d : Descriptor) : Prop where
  instance_ : ∀ g, d.definition = some g → d.name = r.nameBefore i g ++ "<" ++
    String.intercalate "," (d.args.map fun b ↦ r.nameBefore i b.type) ++ ">"
  bindings : ∀ g, d.definition = some g → g.index < i →
    d.args.map Binding.name = (r.type g).generics
  array : d.definition = none → ∀ element rank, d.shape = .array element rank →
    d.name = r.nameBefore i element ++ arraySuffix rank ∧ rank ≠ 0
  byRef : d.definition = none → ∀ element, d.shape = .byRef element →
    d.name = r.nameBefore i element ++ "&"

theorem nameBefore_size (r : Registry) (t : TypeId) :
    r.nameBefore r.types.size t = r.typeName t := by
  unfold nameBefore
  split
  · rfl
  · next h => exact (typeName_of_not_has h).symm

theorem Extends.nameBefore_eq (h : r.Extends r') (hi : i ≤ r.types.size) (t : TypeId) :
    r'.nameBefore i t = r.nameBefore i t := by
  unfold nameBefore
  split
  · next ht => exact h.typeName_eq (Nat.lt_of_lt_of_le ht hi)
  · rfl

theorem Named.of_extends (hd : r.Named i d) (h : r.Extends r') (hi : i ≤ r.types.size) :
    r'.Named i d where
  instance_ g hg := by
    simp only [h.nameBefore_eq hi]
    exact hd.instance_ g hg
  bindings g hg hlt := by
    rw [h.type_eq (Nat.lt_of_lt_of_le hlt hi)]
    exact hd.bindings g hg hlt
  array hnone element rank hshape := by
    rw [h.nameBefore_eq hi]
    exact hd.array hnone element rank hshape
  byRef hnone element hshape := by
    rw [h.nameBefore_eq hi]
    exact hd.byRef hnone element hshape

theorem Named.of_types (hd : r.Named i d) (h : r'.types = r.types) : r'.Named i d := by
  have hbefore (t : TypeId) : r'.nameBefore i t = r.nameBefore i t := by
    simp only [nameBefore, typeName, Registry.type, h]
  refine ⟨fun g hg ↦ ?_, fun g hg hlt ↦ ?_, fun hnone e rank hshape ↦ ?_, fun hnone e hshape ↦ ?_⟩
  · simp only [hbefore]
    exact hd.instance_ g hg
  · rw [Registry.type, h]
    exact hd.bindings g hg hlt
  · rw [hbefore]
    exact hd.array hnone e rank hshape
  · rw [hbefore]
    exact hd.byRef hnone e hshape

/-! ### What every operation upholds -/

/-- The names of the registry mean types that are there, and types are found under the names that
they should have. -/
structure Orderly (r : Registry) : Prop where
  /-- Names are built as they should be. -/
  types : ∀ (i : Nat) d, r.types[i]? = some d → r.Named i d
  /-- Types that are built from others and types of modules are found under their names. -/
  interned : ∀ (i : Nat) d, r.types[i]? = some d → d.IsInterned → r.names[d.name]? = some ⟨i⟩
  defined : ∀ (ref : Reference) t, r.definitions[ref]? = some t → r.names[r.typeName t]? = some t
  /-- What names mean is there, and a name that is spelled as the registry spells them means a type
  of that name. -/
  present : ∀ (name : String) t, r.names[name]? = some t → r.Has t
  spelled : r.Legible → ∀ (name : String) t, r.names[name]? = some t → Canonical name →
    r.typeName t = name
  /-- A host type in use is found under the name with its module. -/
  hosts : ∀ (name : String) t, r.scoped_[name]? = some t → ∃ (d : Descriptor) (type : HostType),
    r.types[t.index]? = some d ∧ d.definition = none ∧ d.shape = .native type ∧
      d.name = type.fullName ∧ name = type.scopedName

theorem orderly_empty : empty.Orderly where
  types _ _ h := nomatch h
  interned _ _ h := nomatch h
  defined _ _ h := nomatch Std.HashMap.getElem?_empty.symm.trans h
  present _ _ h := nomatch Std.HashMap.getElem?_empty.symm.trans h
  spelled _ _ _ h := nomatch Std.HashMap.getElem?_empty.symm.trans h
  hosts _ _ h := nomatch Std.HashMap.getElem?_empty.symm.trans h

/-- What is found out about types does not matter. -/
theorem Orderly.files (h : r.Orderly) (hf : r.Files r') : r'.Orderly := by
  have htype (t : TypeId) : r'.type t = r.type t := by rw [Registry.type, Registry.type, hf.types]
  have hextends : r.Extends r' := hf.extends
  constructor
  case types =>
    intro i d hd
    rw [hf.types] at hd
    exact (h.types i d hd).of_types hf.types
  case interned =>
    intro i d hd
    rw [hf.types] at hd
    rw [hf.names]
    exact h.interned i d hd
  case defined =>
    intro ref t ht
    rw [hf.definitions] at ht
    rw [hf.names, typeName, htype]
    exact h.defined ref t ht
  case present =>
    intro name t ht
    rw [hf.names] at ht
    exact hextends.has (h.present name t ht)
  case spelled =>
    intro hlegible name t ht hname
    rw [hf.names] at ht
    rw [typeName, htype]
    exact h.spelled (hlegible.of_extends hextends) name t ht hname
  case hosts =>
    intro name t ht
    rw [hf.scoped_] at ht
    rw [hf.types]
    exact h.hosts name t ht

/-! ### Elementary additions -/

theorem named_of_plain (hd : ¬d.IsInterned) : r.Named i d := by
  simp only [Descriptor.IsInterned, not_or, Option.not_isSome_iff_eq_none] at hd
  obtain ⟨hnone, helement, -⟩ := hd
  refine ⟨fun g hg ↦ ?_, fun g hg ↦ ?_, fun _ e rank hshape ↦ ?_, fun _ e hshape ↦ ?_⟩
  · cases hnone.symm.trans hg
  · cases hnone.symm.trans hg
  · simp [Descriptor.element?, hshape] at helement
  · simp [Descriptor.element?, hshape] at helement

/-- A type may be added with or without its name; one that is built from others needs it. -/
theorem Orderly.push {names : Std.HashMap String TypeId} (h : r.Orderly)
    (hnamed : r.Named r.types.size d)
    (hkept : ∀ (s : String) u, r.names[s]? = some u → names[s]? = some u)
    (hnew : ∀ (s : String) u, names[s]? = some u →
      r.names[s]? = some u ∨ s = d.name ∧ u = ⟨r.types.size⟩)
    (hinterned : d.IsInterned → names[d.name]? = some ⟨r.types.size⟩) :
    Orderly { r with types := r.types.push d, names } := by
  have hextends : r.Extends { r with types := r.types.push d, names } :=
    ⟨fun _ _ hd ↦ getElem?_push_of_some hd, fun _ _ hm ↦ hm, hkept, fun _ _ hl ↦ hl⟩
  have hthere : Registry.Has { r with types := r.types.push d, names } ⟨r.types.size⟩ := by
    simp [Has]
  have hname : Registry.typeName { r with types := r.types.push d, names } ⟨r.types.size⟩ =
      d.name := by
    simp [typeName, Registry.type]
  constructor
  case types =>
    intro i d' hd'
    rw [Array.getElem?_push] at hd'
    split at hd'
    · next hi =>
      cases hd'
      exact hi ▸ hnamed.of_extends hextends (Nat.le_refl _)
    · exact (h.types i d' hd').of_extends hextends
        (Nat.le_of_lt (Array.getElem?_eq_some_iff.mp hd').1)
  case interned =>
    intro i d' hd' hbuilt
    rw [Array.getElem?_push] at hd'
    split at hd'
    · next hi =>
      cases hd'
      exact hi ▸ hinterned hbuilt
    · exact hkept _ _ (h.interned i d' hd' hbuilt)
  case defined =>
    intro ref t ht
    have hfound := h.defined ref t ht
    rw [hextends.typeName_eq (h.present _ _ hfound)]
    exact hkept _ _ hfound
  case present =>
    intro s u hu
    rcases hnew s u hu with hold | ⟨-, rfl⟩
    · exact hextends.has (h.present s u hold)
    · exact hthere
  case spelled =>
    intro hlegible s u hu hs
    rcases hnew s u hu with hold | ⟨rfl, rfl⟩
    · rw [hextends.typeName_eq (h.present s u hold)]
      exact h.spelled (hlegible.of_extends hextends) s u hold hs
    · exact hname
  case hosts =>
    intro s u hu
    obtain ⟨d', type, hd', hrest⟩ := h.hosts s u hu
    exact ⟨d', type, hextends.types _ _ hd', hrest⟩

/-- A name may mean any type that is there, if it is not spelled as that type's name should be. -/
theorem Orderly.addName (h : r.Orderly) (name : String) (ht : r.Has t)
    (hspelled : r.Legible → Canonical name → r.typeName t = name) :
    Orderly { r with names := r.names.insertIfNew name t } := by
  have hkept {s : String} {u : TypeId} (hu : r.names[s]? = some u) :
      (r.names.insertIfNew name t)[s]? = some u := getElem?_insertIfNew_of_some hu
  constructor
  case types => exact fun i d hd ↦ (h.types i d hd).of_types rfl
  case interned => exact fun i d hd hinterned ↦ hkept (h.interned i d hd hinterned)
  case defined => exact fun ref u hu ↦ hkept (h.defined ref u hu)
  case present =>
    intro s u hu
    rcases getElem?_insertIfNew_cases hu with hold | rfl
    · exact h.present s u hold
    · exact ht
  case spelled =>
    intro hlegible s u hu hs
    rw [Std.HashMap.getElem?_insertIfNew] at hu
    split at hu
    · next hnew =>
      obtain rfl := eq_of_beq hnew.1
      cases hu
      exact hspelled hlegible hs
    · exact h.spelled hlegible s u hu hs
  case hosts => exact h.hosts

theorem Orderly.addHost (h : r.Orderly) (type : HostType) (hd : r.types[t.index]? = some d)
    (hnone : d.definition = none) (hshape : d.shape = .native type)
    (hname : d.name = type.fullName) :
    Orderly { r with scoped_ := r.scoped_.insert type.scopedName t } where
  types i d hd := (h.types i d hd).of_types rfl
  interned := h.interned
  defined := h.defined
  present := h.present
  spelled := h.spelled
  hosts name u hu := by
    rcases getElem?_insert_cases hu with hold | ⟨rfl, rfl⟩
    · exact h.hosts name u hold
    · exact ⟨d, type, hd, hnone, hshape, hname, rfl⟩

theorem Orderly.addDefinition (h : r.Orderly) (ref : Reference)
    (ht : r.names[r.typeName t]? = some t) :
    Orderly { r with definitions := r.definitions.insert ref t } where
  types i d hd := (h.types i d hd).of_types rfl
  interned := h.interned
  defined ref' u hu := by
    rcases getElem?_insert_cases hu with hold | ⟨rfl, rfl⟩
    · exact h.defined ref' u hold
    · exact ht
  present := h.present
  spelled := h.spelled
  hosts := h.hosts

theorem orderly_intern (h : r.Orderly) (hnamed : r.Named r.types.size d) :
    (endState (intern d) r).Orderly := by
  cases hknown : r.names[d.name]? with
  | some t =>
    rw [endState_ok (intern_of_known hknown)]
    exact h
  | none =>
    have hok : intern d r = .ok ⟨r.types.size⟩ { r with
        types := r.types.push d
        names := r.names.insertIfNew d.name ⟨r.types.size⟩ } := by
      rw [intern, ask_bind, hknown]
      rfl
    rw [endState_ok hok]
    refine h.push hnamed (fun _ _ hu ↦ getElem?_insertIfNew_of_some hu) (fun s u hu ↦ ?_)
      fun _ ↦ getElem?_insertIfNew_of_none hknown
    rw [Std.HashMap.getElem?_insertIfNew] at hu
    split at hu
    · next hs => exact .inr ⟨(eq_of_beq hs.1).symm, (Option.some.inj hu).symm⟩
    · exact .inl hu

/-- The descriptor of an array type. -/
def arrayOf (r : Registry) (e : TypeId) (rank : UInt8) : Descriptor :=
  ⟨r.typeName e ++ arraySuffix rank, .array e (if rank = 0 then 1 else rank), [], none⟩

/-- The descriptor of a type of references. -/
def byRefOf (r : Registry) (e : TypeId) : Descriptor := ⟨r.typeName e ++ "&", .byRef e, [], none⟩

theorem makeArray_eq (r : Registry) (e : TypeId) (rank : UInt8) :
    makeArray e rank r = intern (r.arrayOf e rank) r := rfl

theorem makeByRef_eq (r : Registry) (e : TypeId) : makeByRef e r = intern (r.byRefOf e) r := rfl

theorem orderly_makeArray (h : r.Orderly) (e : TypeId) (rank : UInt8) :
    (endState (makeArray e rank) r).Orderly := by
  rw [endState, makeArray_eq]
  refine orderly_intern h ⟨by rintro _ ⟨⟩, by rintro _ ⟨⟩, fun _ e' rank' hshape ↦ ?_,
    by rintro _ _ ⟨⟩⟩
  cases hshape
  rw [nameBefore_size]
  split
  · next hzero =>
    subst hzero
    exact ⟨rfl, by decide⟩
  · next hrank => exact ⟨rfl, hrank⟩

theorem orderly_makeByRef (h : r.Orderly) (e : TypeId) : (endState (makeByRef e) r).Orderly := by
  rw [endState, makeByRef_eq]
  refine orderly_intern h ⟨by rintro _ ⟨⟩, by rintro _ ⟨⟩, by rintro _ _ _ ⟨⟩, fun _ e' hshape ↦ ?_⟩
  cases hshape
  rw [nameBefore_size]
  rfl

theorem orderly_makeParameter (h : r.Orderly) (name : String) :
    (endState (makeParameter name) r).Orderly :=
  orderly_intern h ⟨nofun, nofun, fun _ _ _ hshape ↦ (nomatch hshape),
    fun _ _ hshape ↦ (nomatch hshape)⟩

/-- The open type that is instantiated. -/
def openOf (r : Registry) (t : TypeId) : TypeId := (r.type t).definition.getD t

/-- The descriptor of an instantiation. -/
def instanceOf (r : Registry) (g : TypeId) (args : List TypeId) : Descriptor where
  name := r.typeName g ++ "<" ++ String.intercalate "," (args.map r.typeName) ++ ">"
  shape := (r.type g).shape
  args := ((r.type g).generics.zip args).map fun (name, type) ↦ Binding.mk name type
  definition := some g

theorem makeInstance_of_arity {args : List TypeId}
    (h : (r.type (r.openOf t)).generics.length = args.length) :
    makeInstance t args r = intern (r.instanceOf (r.openOf t) args) r := by
  rw [makeInstance, get_bind_apply]
  exact congrFun (if_neg (not_not.mpr h)) r

theorem makeInstance_of_mismatch {args : List TypeId}
    (h : (r.type (r.openOf t)).generics.length ≠ args.length) :
    ∃ e, makeInstance t args r = .error e r := by
  exact ⟨_, by rw [makeInstance, get_bind_apply]; exact congrFun (if_pos h) r⟩

theorem map_type_instanceOf {g : TypeId} {args : List TypeId}
    (h : (r.type g).generics.length = args.length) :
    (r.instanceOf g args).args.map Binding.type = args := by
  rw [instanceOf, List.map_map]
  exact List.map_snd_zip (Nat.le_of_eq h.symm)

theorem map_name_instanceOf {g : TypeId} {args : List TypeId}
    (h : (r.type g).generics.length = args.length) :
    (r.instanceOf g args).args.map Binding.name = (r.type g).generics := by
  rw [instanceOf, List.map_map]
  exact List.map_fst_zip (Nat.le_of_eq h)

theorem orderly_makeInstance (h : r.Orderly) (t : TypeId) (args : List TypeId) :
    (endState (makeInstance t args) r).Orderly := by
  by_cases harity : (r.type (r.openOf t)).generics.length = args.length
  · have hend : endState (makeInstance t args) r =
        endState (intern (r.instanceOf (r.openOf t) args)) r := by
      rw [endState, endState, makeInstance_of_arity harity]
    rw [hend]
    refine orderly_intern h ⟨fun g hg ↦ ?_, fun g hg _ ↦ ?_, by rintro ⟨⟩, by rintro ⟨⟩⟩
    · cases hg
      have hnames : (r.instanceOf (r.openOf t) args).args.map
          (fun b ↦ r.nameBefore r.types.size b.type) = args.map r.typeName := by
        conv_rhs => rw [← map_type_instanceOf harity, List.map_map]
        exact List.map_congr_left fun b _ ↦ nameBefore_size r b.type
      rw [hnames, nameBefore_size]
      rfl
    · cases hg
      exact map_name_instanceOf harity
  · obtain ⟨e, he⟩ := makeInstance_of_mismatch harity
    rw [endState_error he]
    exact h

theorem orderly_ofHostType (h : r.Orderly) (type : HostType) :
    (endState (ofHostType type) r).Orderly := by
  cases hknown : r.scoped_[type.scopedName]? with
  | some t =>
    rw [endState_ok (ofHostType_of_known hknown)]
    exact h
  | none =>
    obtain ⟨r', hok, backed, rfl⟩ := ofHostType_of_new hknown
    rw [endState_ok hok]
    have hplain : ¬Descriptor.IsInterned ⟨type.fullName, .native type, [], none⟩ := by
      simp [Descriptor.IsInterned, Descriptor.element?, Descriptor.isParameter]
    have hpushed := h.push (named_of_plain hplain) (fun _ _ hu ↦ hu) (fun _ _ hu ↦ .inl hu)
      fun hinterned ↦ absurd hinterned hplain
    have hthere : (r.types.push ⟨type.fullName, .native type, [], none⟩)[r.types.size]? = _ :=
      Array.getElem?_push_size
    have hhost := hpushed.addHost (t := ⟨r.types.size⟩) type hthere rfl rfl rfl
    refine Orderly.files (hhost.addName (t := ⟨r.types.size⟩) type.fullName ?_ ?_)
      ⟨rfl, rfl, rfl, rfl, fun _ _ hm ↦ hm, fun _ _ hl ↦ hl⟩
    · simp [Has]
    · intro _ _
      exact typeName_of_getElem? (d := ⟨type.fullName, .native type, [], none⟩) hthere

/-! ### Every operation upholds it -/

/-- The registry has grown and is orderly if it was. -/
def Upholds (r r' : Registry) : Prop := r.Extends r' ∧ (r.Orderly → r'.Orderly)

theorem upholds_of {α : Type} {x : RegistryM α} (hx : Grows x)
    (h : ∀ r, r.Orderly → (endState x r).Orderly) : Keeps Upholds x :=
  fun r ↦ ⟨hx r, h r⟩

instance : Building Upholds where
  refl r := ⟨.refl r, id⟩
  trans _ _ _ h h' := ⟨h.1.trans h'.1, h'.2 ∘ h.2⟩
  makeArray e rank := upholds_of (Building.makeArray e rank) fun _ h ↦ orderly_makeArray h e rank
  makeByRef e := upholds_of (Building.makeByRef e) fun _ h ↦ orderly_makeByRef h e
  makeParameter s := upholds_of (Building.makeParameter s) fun _ h ↦ orderly_makeParameter h s
  makeInstance t args := upholds_of (Building.makeInstance t args) fun _ h ↦
    orderly_makeInstance h t args
  ofHostType type := upholds_of (Building.ofHostType type) fun _ h ↦ orderly_ofHostType h type

/-! ### What names resolve to -/

/-- The descriptor is the one of its name afterwards. -/
theorem names_of_intern (h : intern d r = .ok t r') : r'.names[d.name]? = some t := by
  cases hknown : r.names[d.name]? with
  | some u =>
    rw [intern_of_known hknown] at h
    cases h
    exact hknown
  | none =>
    rw [intern, ask_bind, hknown] at h
    cases h
    exact getElem?_insertIfNew_of_none hknown

/-- A type that comes from a name: it is there, and if the name is spelled as the registry spells
names, the type has that name. -/
def Means (r : Registry) (n : TypeName) (t : TypeId) : Prop :=
  r.Has t ∧ (r.Legible → n.WellFormed → '/' ∉ n.canonical.toList → r.typeName t = n.canonical)

theorem Means.of_extends {n : TypeName} (h : r.Means n t) (hr : r.Extends r') : r'.Means n t :=
  ⟨hr.has h.1, fun hlegible hwell hslash ↦
    (hr.typeName_eq h.1).trans (h.2 (hlegible.of_extends hr) hwell hslash)⟩

theorem means_of_intern {n : TypeName} (h : r'.Orderly) (hx : intern d r = .ok t r')
    (hname : r'.Legible → n.WellFormed → '/' ∉ n.canonical.toList → d.name = n.canonical) :
    r'.Means n t := by
  have hnamed := names_of_intern hx
  refine ⟨h.present _ _ hnamed, fun hlegible hwell hslash ↦ ?_⟩
  have hd := hname hlegible hwell hslash
  rw [hd] at hnamed
  exact h.spelled hlegible _ _ hnamed (canonical_of_wellFormed hwell hslash)

theorem canonical_simple (s : String) (scope : Option String) :
    (TypeName.simple s scope).canonical = s := by
  rw [TypeName.canonical]

theorem comma_notMem_of_isPlain {cs : List Char} (h : TypeName.IsPlain cs) : ',' ∉ cs :=
  fun hmem ↦ absurd (h.unmarked _ hmem) (by decide)

/-- A type that is not built from others has a plain name. -/
theorem isPlain_of_legible (h : d.Legible) (hnone : d.definition = none)
    (helement : d.element? = none) : TypeName.IsPlain d.name.toList := by
  obtain ⟨n, hwell, hname, -, hfits⟩ := h
  cases hwell with
  | simple hs => rwa [hname, canonical_simple]
  | generic _ _ _ =>
    rw [TypeName.Fits, hnone] at hfits
    cases hfits
  | array _ _ | byRef _ =>
    simp only [TypeName.Fits, Descriptor.isArray, Descriptor.isByRef] at hfits
    cases hshape : d.shape <;> simp [hshape, Descriptor.element?] at helement hfits

/-- A full name ends where its module is named. -/
theorem eq_of_append_comma {a b m m' : String} (ha : ',' ∉ a.toList) (hb : ',' ∉ b.toList)
    (h : a ++ ", " ++ m = b ++ ", " ++ m') : a = b := by
  have hcut {cs rest : List Char} (hcs : ',' ∉ cs) :
      (cs ++ ',' :: rest).takeWhile (· ≠ ',') = cs := by
    rw [List.takeWhile_append_of_pos fun c hc ↦ ?_]
    · simp
    · have hne : c ≠ ',' := fun heq ↦ hcs (heq ▸ hc)
      simpa using hne
  have hlists := congrArg String.toList h
  have htext (a m : String) : (a ++ ", " ++ m).toList = a.toList ++ ',' :: (' ' :: m.toList) := by
    simp
  rw [htext, htext] at hlists
  have := congrArg (List.takeWhile (· ≠ ',')) hlists
  rw [hcut ha, hcut hb] at this
  exact String.toList_inj.mp this

theorem eq_of_scopedName {type type' : HostType} (h : ',' ∉ type.fullName.toList)
    (h' : ',' ∉ type'.fullName.toList) (heq : type.scopedName = type'.scopedName) :
    type.fullName = type'.fullName :=
  eq_of_append_comma h h' heq

theorem has_of_inScope? (h : r.Orderly) {scope : Option String}
    (ht : r.inScope? name scope = some t) : r.Has t := by
  obtain ⟨s, -, hs⟩ := Option.bind_eq_some_iff.mp ht
  obtain ⟨d, type, hd, -⟩ := h.hosts _ _ hs
  exact (Array.getElem?_eq_some_iff.mp hd).1

/-- A host type in use has its full name, if that is a name without marks. -/
theorem means_of_ofHostType (h : r.Orderly) {type : HostType}
    (hx : ofHostType type r = .ok t r') : r'.Means (.simple type.fullName none) t := by
  cases hknown : r.scoped_[type.scopedName]? with
  | some u =>
    rw [ofHostType_of_known hknown] at hx
    cases hx
    obtain ⟨d, type', hd, hnone, hshape, hname, hscoped⟩ := h.hosts _ _ hknown
    refine ⟨(Array.getElem?_eq_some_iff.mp hd).1, fun hlegible hwell _ ↦ ?_⟩
    have hplain :=
      isPlain_of_legible (hlegible _ _ hd) hnone (by simp [Descriptor.element?, hshape])
    rw [hname] at hplain
    cases hwell with
    | simple hs =>
      rw [canonical_simple, typeName_of_getElem? hd, hname]
      exact eq_of_scopedName (comma_notMem_of_isPlain hplain) (comma_notMem_of_isPlain hs)
        hscoped.symm
  | none =>
    obtain ⟨r₁, hok, backed, rfl⟩ := ofHostType_of_new hknown
    rw [hok] at hx
    cases hx
    refine ⟨by simp [Has], fun _ _ _ ↦ ?_⟩
    rw [canonical_simple]
    exact typeName_of_getElem? (d := ⟨type.fullName, .native type, [], none⟩)
      Array.getElem?_push_size

/-- A simple name means the type that is found under it. -/
theorem means_of_lookup? (h : r.Orderly) {scope : Option String}
    (hx : lookup? name scope r = .ok (some t) r') : r'.Means (.simple name scope) t := by
  cases hknown : r.inScope? name scope <|> r.names[name]? with
  | some u =>
    rw [lookup?_of_known hknown] at hx
    cases hx
    cases hscope : r.inScope? name scope with
    | some u =>
      rw [hscope] at hknown
      cases hknown
      refine ⟨has_of_inScope? h hscope, fun _ hwell _ ↦ ?_⟩
      cases hwell
      cases hscope
    | none =>
      rw [hscope] at hknown
      refine ⟨h.present _ _ hknown, fun hlegible hwell hslash ↦ ?_⟩
      have hcanonical := canonical_of_wellFormed hwell hslash
      rw [canonical_simple] at hcanonical ⊢
      exact h.spelled hlegible _ _ hknown hcanonical
  | none =>
    cases hfind : HostLibrary.find? r.host.toList name scope with
    | none =>
      rw [lookup?_of_none hknown hfind] at hx
      cases hx
    | some type =>
      obtain ⟨u, r₁, hmade⟩ : ∃ u r₁, ofHostType type r = .ok u r₁ := by
        cases hscoped : r.scoped_[type.scopedName]? with
        | some u => exact ⟨u, r, ofHostType_of_known hscoped⟩
        | none =>
          obtain ⟨r₁, hok, -⟩ := ofHostType_of_new hscoped
          exact ⟨_, r₁, hok⟩
      rw [lookup?_of_host hknown hfind hmade] at hx
      cases hx
      obtain ⟨hhas, hname⟩ := means_of_ofHostType h hmade
      obtain rfl := fullName_of_find? hfind
      refine ⟨hhas, fun hlegible hwell hslash ↦ ?_⟩
      cases hwell with
      | simple hs => exact hname hlegible (.simple hs) hslash

/-- The same where a type of the host may come into use for it. -/
theorem means_of_resolveIn (h : r.Orderly) {scope : Option String}
    (hx : resolveIn name scope r = .ok t r') : r'.Means (.simple name scope) t := by
  obtain ⟨found, r₁, hlook, hrest⟩ := exists_of_bind hx
  cases found with
  | some u =>
    cases hrest
    exact means_of_lookup? h hlook
  | none =>
    have h₁ := (Keeps.ok (R := Upholds) (grows_lookup? name scope) hlook).2 h
    -- only a name with a slash is looked up again
    cases hslash : name.any (· == '/') with
    | false =>
      simp only [hslash] at hrest
      cases hrest
    | true =>
      simp only [hslash, if_true] at hrest
      obtain ⟨nested, r₂, hlook₂, hrest₂⟩ := exists_of_bind hrest
      cases nested with
      | none => cases hrest₂
      | some u =>
        cases hrest₂
        refine ⟨(means_of_lookup? h₁ hlook₂).1, fun _ _ hno ↦ absurd ?_ hno⟩
        rw [String.any, String.contains_bool_eq] at hslash
        rw [canonical_simple]
        simpa using hslash

/-- Only a name without marks is that of a type that is not built from others. -/
theorem definition_of_isPlain (h : d.Legible) (hplain : TypeName.IsPlain d.name.toList) :
    d.definition = none := by
  obtain ⟨n, hwell, hname, -, hfits⟩ := h
  rw [hwell.canonical_inj (.simple hplain) (by rw [canonical_simple, hname])] at hfits
  exact hfits.1

theorem openOf_of_isPlain (h : r.Legible) (ht : r.Has t)
    (hplain : TypeName.IsPlain (r.typeName t).toList) : r.openOf t = t := by
  rw [openOf, definition_of_isPlain (h _ _ (getElem?_of_has ht)) hplain]
  rfl

theorem mem_intercalate {c : Char} (hc : c ≠ ',') {ps : List (List Char)} :
    c ∈ List.intercalate [','] ps ↔ ∃ p ∈ ps, c ∈ p := by
  induction ps with
  | nil => simp
  | cons q ps ih =>
    cases ps with
    | nil => simp
    | cons q' ps =>
      rw [List.intercalate_cons_cons, List.mem_append, List.mem_append, ih, List.mem_singleton]
      simp [hc]

/-- The characters of an instantiation are those of its parts, marks apart. -/
theorem slash_notMem_generic {head : TypeName} {args : List TypeName} :
    '/' ∉ (TypeName.generic head args).canonical.toList ↔
      '/' ∉ head.canonical.toList ∧ ∀ n ∈ args, '/' ∉ n.canonical.toList := by
  have htext := TypeName.text_generic head args
  unfold TypeName.text at htext
  rw [htext]
  simp only [List.mem_append, List.mem_cons, mem_intercalate (show '/' ≠ ',' by decide),
    List.mem_map, not_or, not_exists, not_and]
  constructor
  · rintro ⟨⟨hhead, -, hargs⟩, -⟩
    exact ⟨hhead, fun n hn ↦ hargs _ ⟨n, hn, rfl⟩⟩
  · rintro ⟨hhead, hargs⟩
    exact ⟨⟨hhead, by decide, fun cs ⟨n, hn, hcs⟩ ↦ hcs ▸ hargs n hn⟩, by decide, List.not_mem_nil⟩

theorem map_typeName_of_means {ns : List TypeName} {ts : List TypeId}
    (h : List.Forall₂ r.Means ns ts) (hlegible : r.Legible)
    (hns : ∀ n ∈ ns, n.WellFormed ∧ '/' ∉ n.canonical.toList) :
    ts.map r.typeName = ns.map TypeName.canonical := by
  induction h with
  | nil => rfl
  | cons hmeans _ ih =>
    obtain ⟨hwell, hslash⟩ := hns _ List.mem_cons_self
    rw [List.map_cons, List.map_cons, hmeans.2 hlegible hwell hslash,
      ih fun n hn ↦ hns n (List.mem_cons_of_mem _ hn)]

theorem makeInstance_ok {args : List TypeId} (h : makeInstance t args r = .ok e r') :
    (r.type (r.openOf t)).generics.length = args.length ∧
      intern (r.instanceOf (r.openOf t) args) r = .ok e r' := by
  by_cases harity : (r.type (r.openOf t)).generics.length = args.length
  · exact ⟨harity, makeInstance_of_arity harity ▸ h⟩
  · obtain ⟨error, herror⟩ := makeInstance_of_mismatch harity
    cases herror.symm.trans h

mutual

/-- By recursion on the name, from its parts outwards. -/
theorem means_of_resolveParsed : (n : TypeName) → {r r' : Registry} → {t : TypeId} → r.Orderly →
    resolveParsed n r = .ok t r' → r'.Means n t
  | .simple name scope, r, r', t, h, hx => by
    rw [resolveParsed] at hx
    exact means_of_resolveIn h hx
  | .array element rank, r, r', t, h, hx => by
    rw [resolveParsed] at hx
    obtain ⟨e, r₁, he, hmake⟩ := exists_of_bind hx
    have helement := means_of_resolveParsed element h he
    have h₁ := (Keeps.ok (R := Upholds) (grows_resolveParsed element) he).2 h
    have hstep := Keeps.ok (R := Upholds) (Building.makeArray e rank) hmake
    rw [makeArray_eq] at hmake
    refine means_of_intern (hstep.2 h₁) hmake fun hlegible hwell hslash ↦ ?_
    cases hwell with
    | array hwell _ =>
      rw [TypeName.canonical, String.toList_append, List.mem_append, not_or] at hslash
      rw [arrayOf, helement.2 (hlegible.of_extends hstep.1) hwell hslash.1, TypeName.canonical]
  | .byRef inner, r, r', t, h, hx => by
    rw [resolveParsed] at hx
    obtain ⟨e, r₁, he, hmake⟩ := exists_of_bind hx
    have helement := means_of_resolveParsed inner h he
    have h₁ := (Keeps.ok (R := Upholds) (grows_resolveParsed inner) he).2 h
    have hstep := Keeps.ok (R := Upholds) (Building.makeByRef e) hmake
    rw [makeByRef_eq] at hmake
    refine means_of_intern (hstep.2 h₁) hmake fun hlegible hwell hslash ↦ ?_
    cases hwell with
    | byRef hwell =>
      rw [TypeName.canonical, String.toList_append, List.mem_append, not_or] at hslash
      rw [byRefOf, helement.2 (hlegible.of_extends hstep.1) hwell hslash.1, TypeName.canonical]
  | .generic head args, r, r', t, h, hx => by
    rw [resolveParsed] at hx
    obtain ⟨g, r₁, hg, hrest⟩ := exists_of_bind hx
    obtain ⟨ts, r₂, hts, hmake⟩ := exists_of_bind hrest
    have h₁ := (Keeps.ok (R := Upholds) (grows_resolveParsed head) hg).2 h
    have hstep := Keeps.ok (R := Upholds) (grows_resolveAllParsed args) hts
    have hlast := Keeps.ok (R := Upholds) (Building.makeInstance g ts) hmake
    have hhead := (means_of_resolveParsed head h hg).of_extends hstep.1
    have hargs := means_of_resolveAllParsed args h₁ hts
    obtain ⟨-, hintern⟩ := makeInstance_ok hmake
    refine means_of_intern (hlast.2 (hstep.2 h₁)) hintern fun hlegible hwell hslash ↦ ?_
    have hlegible₂ := hlegible.of_extends hlast.1
    obtain ⟨hslashHead, hslashArgs⟩ := slash_notMem_generic.mp hslash
    cases hwell with
    | generic hplain _ hwells =>
      have hname := hhead.2 hlegible₂ (.simple hplain) hslashHead
      have hopen : r₂.openOf g = g := by
        refine openOf_of_isPlain hlegible₂ hhead.1 ?_
        rwa [hname, canonical_simple]
      rw [instanceOf, hopen, hname,
        map_typeName_of_means hargs hlegible₂ fun n hn ↦ ⟨hwells n hn, hslashArgs n hn⟩]
      simp only [TypeName.canonical, TypeName.canonicals_eq_map]

theorem means_of_resolveAllParsed : (ns : List TypeName) → {r r' : Registry} →
    {ts : List TypeId} → r.Orderly → resolveAllParsed ns r = .ok ts r' →
    List.Forall₂ r'.Means ns ts
  | [], r, r', ts, h, hx => by
    rw [resolveAllParsed] at hx
    cases hx
    exact .nil
  | n :: ns, r, r', ts, h, hx => by
    rw [resolveAllParsed] at hx
    obtain ⟨t, r₁, ht, hrest⟩ := exists_of_bind hx
    obtain ⟨us, r₂, hts, hlast⟩ := exists_of_bind hrest
    cases hlast
    have hstep := Keeps.ok (R := Upholds) (grows_resolveParsed n) ht
    have hstep₂ := Keeps.ok (R := Upholds) (grows_resolveAllParsed ns) hts
    exact .cons ((means_of_resolveParsed n h ht).of_extends hstep₂.1)
      (means_of_resolveAllParsed ns (hstep.2 h) hts)

end

theorem resolve_of_known (h : r.names[name]? = some t) : resolve name r = .ok t r := by
  rw [resolve, ask_bind, h]
  rfl

theorem resolve_of_unreadable (h : r.names[name]? = none) (hparse : TypeName.parse? name = none) :
    resolve name r = .error (.typeNotFound name) r := by
  rw [resolve, ask_bind, h]
  dsimp only
  rw [hparse]
  rfl

theorem resolve_of_parse {n : TypeName} (h : r.names[name]? = none)
    (hparse : TypeName.parse? name = some n) :
    resolve name r = (do
      let t ← resolveParsed n
      addName name t
      return t) r := by
  rw [resolve, ask_bind, h]
  dsimp only
  rw [hparse]

/-- The spelling under which a type is remembered is that of its name, or one that the registry does
not use. -/
theorem orderly_resolve (h : r.Orderly) (name : String) : (endState (resolve name) r).Orderly := by
  cases hknown : r.names[name]? with
  | some t =>
    rw [endState_ok (resolve_of_known hknown)]
    exact h
  | none =>
    cases hparse : TypeName.parse? name with
    | none =>
      rw [endState_error (resolve_of_unreadable hknown hparse)]
      exact h
    | some n =>
      have hstep := grows_resolveParsed (R := Upholds) n r
      have hresolve := resolve_of_parse hknown hparse
      cases hx : resolveParsed n r with
      | error e r₁ =>
        rw [endState_error hx] at hstep
        rw [endState_error (hresolve.trans (bind_of_error hx))]
        exact hstep.2 h
      | ok t r₁ =>
        rw [endState_ok hx] at hstep
        rw [endState_ok (hresolve.trans ((bind_of_ok hx).trans rfl))]
        obtain ⟨hthere, hname⟩ := means_of_resolveParsed n h hx
        refine (hstep.2 h).addName name hthere fun hlegible hcanonical ↦ ?_
        obtain ⟨hwell, hsame⟩ := hcanonical.2 n hparse
        rw [hname hlegible hwell (hsame ▸ hcanonical.1), hsame]

instance : Growth Upholds where
  resolve name := upholds_of (grows_resolve name) fun _ h ↦ orderly_resolve h name
  resolveString home token := (files_resolveString home token).mono fun _ _ hf ↦
    ⟨hf.extends, fun h ↦ h.files hf⟩
  notes hf := ⟨hf.toFiles.extends, fun h ↦ h.files hf.toFiles⟩

/-! ### Modules -/

/-- Definitions come in under their own names, which are no names of arrays, references or
instantiations. -/
theorem orderly_addDefinitions (home : Home) : (defs : List (Nat × TypeDef)) → {r : Registry} →
    r.Orderly → (endState (addDefinitions home defs) r).Orderly
  | [], _, h => h
  | (position, d) :: rest, r, h => by
    have hplain : ¬(definedAs home position d).IsInterned := by
      simp [definedAs, Descriptor.IsInterned, Descriptor.element?, Descriptor.isParameter]
    have hpushed := h.push (named_of_plain hplain) (fun _ _ hu ↦ hu) (fun _ _ hu ↦ .inl hu)
      fun hinterned ↦ absurd hinterned hplain
    by_cases htaken : definitionName d ∈ r.names
    · rw [endState_error (addDefinitions_of_taken rest htaken)]
      exact hpushed
    · have hnone : r.names[definitionName d]? = none := by
        rwa [Std.HashMap.mem_iff_isSome_getElem?, Option.not_isSome_iff_eq_none] at htaken
      have hthere : (r.types.push (definedAs home position d))[r.types.size]? = _ :=
        Array.getElem?_push_size
      have hname {names : Std.HashMap String TypeId} :
          typeName { r with types := r.types.push (definedAs home position d), names }
            ⟨r.types.size⟩ = definitionName d :=
        typeName_of_getElem? (d := definedAs home position d) hthere
      have hnamed := hpushed.addName (t := ⟨r.types.size⟩) (definitionName d)
        (by simp [Has]) fun _ _ ↦ hname
      have hdefined := hnamed.addDefinition (t := ⟨r.types.size⟩)
        ⟨home.id, Module.typeToken position⟩
          (by rw [hname]; exact getElem?_insertIfNew_of_none hnone)
      rw [endState, addDefinitions_of_free rest htaken]
      exact orderly_addDefinitions home rest hdefined

theorem orderly_finishLoad (h : r.Orderly) (m : Module) (id : ModuleId) :
    (endState (finishLoad m id) r).Orderly := by
  unfold finishLoad
  split
  · exact h.files ⟨rfl, rfl, rfl, rfl, fun _ _ hm ↦ hm, fun _ _ hl ↦ hl⟩
  · exact h

/-- A load that fails has added some of them. -/
theorem orderly_loadModule (h : r.Orderly) (m : Module) : (endState (loadModule m) r).Orderly := by
  cases hloaded : r.loaded? m with
  | some id =>
    rw [endState_ok (loadModule_of_loaded hloaded)]
    exact h
  | none =>
    by_cases htaken : ∃ name ∈ definitionNames m, name ∈ r.names
    · obtain ⟨e, he⟩ := loadModule_of_taken hloaded htaken
      rw [endState_error he]
      exact h
    · have hpushed : Orderly { r with modules := r.modules.push m } :=
        h.files ⟨rfl, rfl, rfl, rfl, fun _ _ hm ↦ hm, fun _ _ hl ↦ hl⟩
      rw [endState, loadModule_of_free hloaded fun name hname hmem ↦ htaken ⟨name, hname, hmem⟩]
      generalize List.map _ m.types.toList.zipIdx = defs
      have hadded := orderly_addDefinitions ⟨⟨r.modules.size⟩, m⟩ defs hpushed
      cases hx : addDefinitions ⟨⟨r.modules.size⟩, m⟩ defs
        { r with modules := r.modules.push m } with
      | error e r₁ =>
        rw [endState_error hx] at hadded
        rw [bind_of_error hx]
        exact hadded
      | ok _ r₁ =>
        rw [endState_ok hx] at hadded
        rw [bind_of_ok hx]
        exact orderly_finishLoad hadded m _

/-! ### Histories -/

/-- What is done to a registry from outside, by a session or by running code. -/
inductive Operation : {α : Type} → RegistryM α → Prop
  | loadModule (m : Module) : Operation (loadModule m)
  | addHostModule (m : HostModule) : Operation (addHostModule m)
  | registerAdaptor (f : AdaptorTable → AdaptorTable) :
      Operation (modify fun r ↦ { r with adaptors := f r.adaptors } : RegistryM Unit)
  | ofHostType (type : HostType) : Operation (ofHostType type)
  | typeOfData (kind : HostKind) : Operation (typeOfData kind)
  | resolve (name : String) : Operation (resolve name)
  | resolveIn (name : String) (scope : Option String) : Operation (resolveIn name scope)
  | makeArray (e : TypeId) (rank : UInt8) : Operation (makeArray e rank)
  | makeByRef (e : TypeId) : Operation (makeByRef e)
  | makeParameter (name : String) : Operation (makeParameter name)
  | makeInstance (t : TypeId) (args : List TypeId) : Operation (makeInstance t args)
  | resolveSignature (home : ModuleId) (c : GenericContext) (s : Signature) :
      Operation (resolveSignature home c s)
  | resolveType (home : ModuleId) (c : GenericContext) (s : Signature) :
      Operation (resolveType home c s)
  | resolveTypeToken (home : ModuleId) (token : Token) (c : GenericContext) :
      Operation (resolveTypeToken home token c)
  | resolveMethod (fuel : Nat) (home : ModuleId) (token : Token) (c : GenericContext) :
      Operation (resolveMethod fuel home token c)
  | resolveField (fuel : Nat) (home : ModuleId) (token : Token) (c : GenericContext) :
      Operation (resolveField fuel home token c)
  | resolveString (home : ModuleId) (token : Token) : Operation (resolveString home token)
  | baseType (t : TypeId) : Operation (baseType t)
  | interfaces (t : TypeId) : Operation (interfaces t)
  | isAssignable (fuel : Nat) (source target : TypeId) :
      Operation (isAssignable fuel source target)
  | firstHostBase (fuel : Nat) (t : TypeId) : Operation (firstHostBase fuel t)
  | layout (fuel : Nat) (t : TypeId) : Operation (layout fuel t)
  | findField (fuel : Nat) (t : TypeId) (name : String) (isStatic : Option Bool) :
      Operation (findField fuel t name isStatic)
  | methodsOf (t : TypeId) : Operation (methodsOf t)
  | findMethod (fuel : Nat) (t : TypeId) (name : String) (count : Nat) :
      Operation (findMethod fuel t name count)
  | findOverride (fuel : Nat) (receiver : TypeId) (id : MethodId) :
      Operation (findOverride fuel receiver id)
  | instantiateMethod (id : MethodId) (args : List TypeId) : Operation (instantiateMethod id args)
  | localsOf (id : MethodId) : Operation (localsOf id)

/-- The registry after some operations, whether they succeeded or failed. -/
inductive Reached : Registry → Prop
  | empty : Reached empty
  | step {r : Registry} {α : Type} {x : RegistryM α} (h : Reached r) (hx : Operation x) :
      Reached (endState x r)

/-- What is kept by everything that is resolved, and by what is brought in from outside, is kept by
every operation. -/
theorem Operation.keeps {R : Registry → Registry → Prop} [Learning R] {α : Type} {x : RegistryM α}
    (hx : Operation x) (hload : ∀ m, Keeps R (Registry.loadModule m))
    (hhost : ∀ m, Keeps R (Registry.addHostModule m))
    (hadaptor : ∀ f : AdaptorTable → AdaptorTable,
      Keeps R (modify fun r ↦ { r with adaptors := f r.adaptors } : RegistryM Unit)) :
    Keeps R x := by
  cases hx with
  | loadModule m => exact hload m
  | addHostModule m => exact hhost m
  | registerAdaptor f => exact hadaptor f
  | ofHostType type => exact Building.ofHostType type
  | typeOfData kind => exact grows_typeOfData kind
  | resolve name => exact grows_resolve name
  | resolveIn name scope => exact grows_resolveIn name scope
  | makeArray e rank => exact Building.makeArray e rank
  | makeByRef e => exact Building.makeByRef e
  | makeParameter name => exact Building.makeParameter name
  | makeInstance t args => exact Building.makeInstance t args
  | resolveSignature home c s => exact grows_resolveSignature home c s
  | resolveType home c s => exact grows_resolveType home c s
  | resolveTypeToken home token c => exact grows_resolveTypeToken home token c
  | resolveMethod fuel home token c => exact grows_resolveMethod fuel home token c
  | resolveField fuel home token c => exact grows_resolveField fuel home token c
  | resolveString home token => exact grows_resolveString home token
  | baseType t => exact grows_baseType t
  | interfaces t => exact grows_interfaces t
  | isAssignable fuel source target => exact grows_isAssignable fuel source target
  | firstHostBase fuel t => exact grows_firstHostBase fuel t
  | layout fuel t => exact grows_layout fuel t
  | findField fuel t name isStatic => exact grows_findField fuel t name isStatic
  | methodsOf t => exact grows_methodsOf t
  | findMethod fuel t name count => exact grows_findMethod fuel t name count
  | findOverride fuel receiver id => exact grows_findOverride fuel receiver id
  | instantiateMethod id args => exact grows_instantiateMethod id args
  | localsOf id => exact grows_localsOf id

theorem upholds_operation {α : Type} {x : RegistryM α} (hx : Operation x) : Keeps Upholds x := by
  refine hx.keeps (fun m ↦ ?_) (fun m ↦ ?_) fun f ↦ ?_
  · exact upholds_of (grows_loadModule m fun _ ↦ .of_eq rfl rfl rfl rfl) fun _ h ↦
      orderly_loadModule h m
  · exact .modify fun _ ↦ ⟨.of_eq rfl rfl rfl rfl, fun h ↦
      h.files ⟨rfl, rfl, rfl, rfl, fun _ _ hm ↦ hm, fun _ _ hl ↦ hl⟩⟩
  · exact .modify fun _ ↦ ⟨.of_eq rfl rfl rfl rfl, fun h ↦
      h.files ⟨rfl, rfl, rfl, rfl, fun _ _ hm ↦ hm, fun _ _ hl ↦ hl⟩⟩

theorem orderly_operation {α : Type} {x : RegistryM α} (hx : Operation x) (h : r.Orderly) :
    (endState x r).Orderly :=
  (upholds_operation hx r).2 h

theorem Reached.orderly (h : r.Reached) : r.Orderly := by
  induction h with
  | empty => exact orderly_empty
  | step _ hx ih => exact orderly_operation hx ih

end Registry

end ManagedMachine
