import ManagedMachine.Proofs.OrderlyNames

/-!
# Types of the core library

The types of the core library come into use like all others, when their names are first looked up.
Once that has happened they stay: nothing that is loaded or resolved later takes a name of the core
library over. A type that another module has brought in under such a name before is found in its
place, however, so the registry only promises a type of the name that was asked for.

What a step of the registry has to do for this is put in one relation (`Registry.Restocks`): host
types stay in use, and a registry that is stocked stays so. The relation composes, so only the
functions that enter a name are looked at (`restocks_intern`, `restocks_ofHostType`,
`restocks_loadModule`), and all others go through these.
-/

set_option autoImplicit false
set_option relaxedAutoImplicit false

namespace ManagedMachine

/-- The descriptor of a host type in use. -/
def HostType.descriptor (type : HostType) : Descriptor := ⟨type.fullName, .native type, [], none⟩

theorem HostType.descriptor_inj {type type' : HostType} (h : type.descriptor = type'.descriptor) :
    type = type' :=
  Shape.native.inj (congrArg Descriptor.shape h)

namespace CoreLibrary

/-- The core library's own type of a name. -/
def find? (name : String) : Option HostType := library.find? name

variable {name : String} {type : HostType}

theorem mem_types_of_find? (h : find? name = some type) :
    type ∈ library.types ∧ type.fullName = name := by
  have hmem := List.mem_of_find?_eq_some h
  have hname := List.find?_some h
  exact ⟨List.mem_reverse.mp hmem, eq_of_beq hname⟩

theorem scopedName_of_find? (h : find? name = some type) :
    type.scopedName = name ++ ", " ++ moduleName := by
  obtain ⟨hmem, rfl⟩ := mem_types_of_find? h
  obtain ⟨t, -, rfl⟩ := List.mem_map.mp hmem
  rfl

theorem isPlain_fullNames : ∀ type ∈ library.types,
    TypeName.IsPlain type.fullName.toList ∧ '/' ∉ type.fullName.toList := by
  have hall : library.types.all (fun type ↦ decide
      (TypeName.IsPlain type.fullName.toList ∧ '/' ∉ type.fullName.toList)) = true := by cbv
  exact fun type htype ↦ of_decide_eq_true (List.all_eq_true.mp hall type htype)

theorem isPlain_of_find? (h : find? name = some type) :
    TypeName.IsPlain name.toList ∧ '/' ∉ name.toList := by
  obtain ⟨hmem, rfl⟩ := mem_types_of_find? h
  exact isPlain_fullNames type hmem

/-- The host type that goes by a name of the core library in its scope has that name, whichever
library it is from. -/
theorem fullName_of_scopedName (h : find? name = some type) {other : HostType}
    (heq : other.scopedName = type.scopedName) : other.fullName = name := by
  have hcount (type : HostType) : type.scopedName.toList.count ',' =
      type.fullName.toList.count ',' + 1 + type.moduleName.toList.count ',' := by
    simp [HostType.scopedName, Nat.add_assoc, Nat.add_comm 1]
  have hname := Registry.comma_notMem_of_isPlain (isPlain_of_find? h).1
  have hother : ',' ∉ other.fullName.toList := by
    have hmodule : moduleName.toList.count ',' = 0 := by decide
    have hone := hcount other
    rw [heq, scopedName_of_find? h] at hone
    have htotal : (name ++ ", " ++ moduleName).toList.count ',' = 1 := by
      simp [List.count_eq_zero.mpr hname, hmodule]
    rw [htotal] at hone
    exact List.count_eq_zero.mp (by omega)
  obtain ⟨-, rfl⟩ := mem_types_of_find? h
  exact Registry.eq_of_scopedName hother hname heq

end CoreLibrary

namespace Registry

variable {r r' : Registry} {d : Descriptor} {t : TypeId} {name : String} {type : HostType}

/-! ### What is found under a name of the core library -/

/-- The core library comes first among the host modules, a host type is in use once at most, and
what is known under a name of the core library is a type of that name. -/
structure Stocked (r : Registry) : Prop where
  library : r.host[0]? = some CoreLibrary.library
  filed : ∀ (i : Nat) (type : HostType), r.types[i]? = some type.descriptor →
    r.scoped_[type.scopedName]? = some ⟨i⟩
  named : ∀ name type t, CoreLibrary.find? name = some type → r.names[name]? = some t →
    ∃ d, r.types[t.index]? = some d ∧ d.name = name

theorem stocked_empty : empty.Stocked where
  library := rfl
  filed _ _ h := nomatch h
  named _ _ _ _ h := nomatch Std.HashMap.getElem?_empty.symm.trans h

/-- A type may be added with or without its name; a host type comes into use with it. -/
theorem Stocked.push {names scoped_ : Std.HashMap String TypeId}
    {backed : Std.HashMap HostKind TypeId} {definitions : Std.HashMap Reference TypeId}
    (h : r.Stocked)
    (hnames : ∀ (s : String) u, names[s]? = some u →
      r.names[s]? = some u ∨ s = d.name ∧ u = ⟨r.types.size⟩)
    (hkept : ∀ (s : String) u, r.scoped_[s]? = some u → scoped_[s]? = some u)
    (hfiled : ∀ type : HostType, d = type.descriptor →
      scoped_[type.scopedName]? = some ⟨r.types.size⟩) :
    Stocked { r with types := r.types.push d, names, scoped_, backed, definitions } where
  library := h.library
  filed i type hi := by
    rw [Array.getElem?_push] at hi
    split at hi
    · next hlast =>
      cases hi
      exact hlast ▸ hfiled type rfl
    · exact hkept _ _ (h.filed i type hi)
  named name type t hcore ht := by
    rcases hnames name t ht with hold | ⟨rfl, rfl⟩
    · obtain ⟨d', hd', hname⟩ := h.named name type t hcore hold
      exact ⟨d', getElem?_push_of_some hd', hname⟩
    · exact ⟨d, Array.getElem?_push_size, rfl⟩

/-- A name of the core library may be told of a type that has it. -/
theorem Stocked.addName (h : r.Stocked)
    (hnamed : ∀ type, CoreLibrary.find? name = some type →
      ∃ d, r.types[t.index]? = some d ∧ d.name = name) :
    Stocked { r with names := r.names.insertIfNew name t } where
  library := h.library
  filed := h.filed
  named s type u hcore hu := by
    rw [Std.HashMap.getElem?_insertIfNew] at hu
    split at hu
    · next hs =>
      obtain rfl := eq_of_beq hs.1
      cases hu
      exact hnamed type hcore
    · exact h.named s type u hcore hu

/-- Being stocked is about types and names, so it does not matter what else is found out and filed.
-/
theorem Stocked.files (h : r.Stocked) (hf : r.Files r') (hhost : r'.host = r.host) :
    r'.Stocked := by
  constructor
  case library =>
    rw [hhost]
    exact h.library
  case filed =>
    intro i type hi
    rw [hf.types] at hi
    rw [hf.scoped_]
    exact h.filed i type hi
  case named =>
    intro name type t hcore ht
    rw [hf.names] at ht
    rw [hf.types]
    exact h.named name type t hcore ht

/-- A name is entered only if it is free, so what is found afterwards was there or was entered. -/
theorem names_insertIfNew_cases {s : String} {u : TypeId}
    (h : (r.names.insertIfNew name t)[s]? = some u) : r.names[s]? = some u ∨ s = name ∧ u = t := by
  rw [Std.HashMap.getElem?_insertIfNew] at h
  split at h
  · next hs => exact .inr ⟨(eq_of_beq hs.1).symm, (Option.some.inj h).symm⟩
  · exact .inl h

/-- Host types stay in use, and names of the core library keep what they mean. -/
structure Restocks (r r' : Registry) : Prop where
  hosts : ∀ (name : String) t, r.scoped_[name]? = some t → r'.scoped_[name]? = some t
  stocked : r.Stocked → r'.Stocked

theorem Restocks.refl (r : Registry) : r.Restocks r := ⟨fun _ _ h ↦ h, id⟩

theorem Restocks.trans {r'' : Registry} (h : r.Restocks r') (h' : r'.Restocks r'') :
    r.Restocks r'' :=
  ⟨fun name t ht ↦ h'.hosts name t (h.hosts name t ht), h'.stocked ∘ h.stocked⟩

theorem Files.restocks (hf : r.Files r') (hhost : r'.host = r.host) : r.Restocks r' :=
  ⟨fun _ _ ht ↦ hf.scoped_ ▸ ht, fun h ↦ h.files hf hhost⟩

/-- A type that is not one of the host comes in under a name that was free. -/
theorem restocks_intern (hd : ∀ type : HostType, d ≠ type.descriptor) :
    r.Restocks (endState (intern d) r) := by
  cases hknown : r.names[d.name]? with
  | some t =>
    rw [endState_ok (intern_of_known hknown)]
    exact .refl r
  | none =>
    have hok : intern d r = .ok ⟨r.types.size⟩ { r with
        types := r.types.push d
        names := r.names.insertIfNew d.name ⟨r.types.size⟩ } := by
      rw [intern, ask_bind, hknown]
      rfl
    rw [endState_ok hok]
    exact ⟨fun _ _ hu ↦ hu, fun h ↦ h.push (fun _ _ hu ↦ names_insertIfNew_cases hu)
      (fun _ _ hu ↦ hu) fun type htype ↦ absurd htype (hd type)⟩

theorem restocks_makeInstance (t : TypeId) (args : List TypeId) :
    r.Restocks (endState (makeInstance t args) r) := by
  by_cases harity : (r.type (r.openOf t)).generics.length = args.length
  · rw [endState, makeInstance_of_arity harity]
    refine restocks_intern fun type htype ↦ ?_
    cases congrArg Descriptor.definition htype
  · obtain ⟨e, he⟩ := makeInstance_of_mismatch harity
    rw [endState_error he]
    exact .refl r

/-- A type of the host comes in together with its scoped name, so it is filed from the start. -/
theorem restocks_ofHostType (type : HostType) : r.Restocks (endState (ofHostType type) r) := by
  cases hknown : r.scoped_[type.scopedName]? with
  | some t =>
    rw [endState_ok (ofHostType_of_known hknown)]
    exact .refl r
  | none =>
    obtain ⟨r', hok, backed, rfl⟩ := ofHostType_of_new hknown
    rw [endState_ok hok]
    have hkept (s : String) (u : TypeId) (hu : r.scoped_[s]? = some u) :
        (r.scoped_.insert type.scopedName ⟨r.types.size⟩)[s]? = some u :=
      getElem?_insert_of_some hknown hu
    refine ⟨hkept, fun h ↦ h.push (d := type.descriptor) (fun _ _ hu ↦ names_insertIfNew_cases hu)
      hkept fun type' htype ↦ ?_⟩
    rw [← HostType.descriptor_inj htype]
    exact Std.HashMap.getElem?_insert_self

/-! ### Every operation keeps it -/

/-- The registry has grown in good order, and what is known under the names of the core library is
still known. -/
structure Provides (r r' : Registry) : Prop where
  upholds : r.Upholds r'
  restocks : r.Orderly → r.Restocks r'

theorem provides_of {α : Type} {x : RegistryM α} (hx : Keeps Upholds x)
    (h : ∀ r : Registry, r.Restocks (endState x r)) : Keeps Provides x :=
  fun r ↦ ⟨hx r, fun _ ↦ h r⟩

instance : Building Provides where
  refl r := ⟨refl_of Upholds r, fun _ ↦ .refl r⟩
  trans _ _ _ h h' := ⟨trans_of Upholds h.upholds h'.upholds,
    fun ho ↦ (h.restocks ho).trans (h'.restocks (h.upholds.2 ho))⟩
  makeArray e rank := provides_of (Building.makeArray e rank) fun r ↦ by
    rw [endState, makeArray_eq]
    exact restocks_intern fun _ h ↦ nomatch congrArg Descriptor.shape h
  makeByRef e := provides_of (Building.makeByRef e) fun r ↦ by
    rw [endState, makeByRef_eq]
    exact restocks_intern fun _ h ↦ nomatch congrArg Descriptor.shape h
  makeParameter s := provides_of (Building.makeParameter s) fun _ ↦
    restocks_intern fun _ h ↦ nomatch congrArg Descriptor.shape h
  makeInstance t args := provides_of (Building.makeInstance t args) fun _ ↦
    restocks_makeInstance t args
  ofHostType type := provides_of (Building.ofHostType type) fun _ ↦ restocks_ofHostType type

/-- No other module comes before the core library. -/
theorem Stocked.find? (h : r.Stocked) (hcore : CoreLibrary.find? name = some type)
    {scope : Option String} (hscope : ∀ s, scope = some s → s = CoreLibrary.moduleName) :
    HostLibrary.find? r.host.toList name scope = some type := by
  obtain ⟨rest, hrest⟩ : ∃ rest, r.host.toList = CoreLibrary.library :: rest := by
    have hfirst := h.library
    rw [← Array.getElem?_toList] at hfirst
    cases hhost : r.host.toList with
    | nil => exact nomatch hhost ▸ hfirst
    | cons m rest =>
      rw [hhost, List.getElem?_cons_zero, Option.some.injEq] at hfirst
      exact ⟨rest, hfirst ▸ rfl⟩
  have hfirst (modules : List HostModule) :
      (CoreLibrary.library :: modules).findSome? (·.find? name) = some type := by
    have hfound : CoreLibrary.library.find? name = some type := hcore
    rw [List.findSome?_cons, hfound]
  have hnamed : (CoreLibrary.library.name == CoreLibrary.moduleName) = true := beq_self_eq_true _
  cases scope with
  | none =>
    rw [hrest]
    exact hfirst rest
  | some s =>
    obtain rfl := hscope s rfl
    rw [hrest]
    unfold HostLibrary.find?
    dsimp only
    rw [List.filter_cons, if_pos hnamed, List.cons_append]
    exact hfirst _

/-- A host type of the core library comes into use under its name. -/
theorem Orderly.ofHostType_core (h : r.Orderly) (hcore : CoreLibrary.find? name = some type) :
    ∃ t r', ofHostType type r = .ok t r' ∧ ∃ d, r'.types[t.index]? = some d ∧ d.name = name := by
  cases hknown : r.scoped_[type.scopedName]? with
  | some t =>
    obtain ⟨d, other, hd, -, -, hname, hscoped⟩ := h.hosts _ _ hknown
    exact ⟨t, r, ofHostType_of_known hknown, d, hd,
      hname.trans (CoreLibrary.fullName_of_scopedName hcore hscoped.symm)⟩
  | none =>
    obtain ⟨r', hok, backed, rfl⟩ := ofHostType_of_new hknown
    exact ⟨_, _, hok, type.descriptor, Array.getElem?_push_size,
      (CoreLibrary.mem_types_of_find? hcore).2⟩

theorem resolveIn_of_some {scope : Option String} (h : lookup? name scope r = .ok (some t) r') :
    resolveIn name scope r = .ok t r' :=
  bind_of_ok h

/-- The spelling under which a type is remembered is no name of the core library, or that of the
type. -/
theorem restocks_resolve (ho : r.Orderly) (name : String) :
    r.Restocks (endState (resolve name) r) := by
  cases hknown : r.names[name]? with
  | some t =>
    rw [endState_ok (resolve_of_known hknown)]
    exact .refl r
  | none =>
    cases hparse : TypeName.parse? name with
    | none =>
      rw [endState_error (resolve_of_unreadable hknown hparse)]
      exact .refl r
    | some n =>
      have hstep := (grows_resolveParsed (R := Provides) n r).restocks ho
      have hresolve := resolve_of_parse hknown hparse
      cases hx : resolveParsed n r with
      | error e r₁ =>
        rw [endState_error hx] at hstep
        rw [endState_error (hresolve.trans (bind_of_error hx))]
        exact hstep
      | ok t r₁ =>
        rw [endState_ok hx] at hstep
        rw [endState_ok (hresolve.trans ((bind_of_ok hx).trans rfl))]
        refine ⟨hstep.hosts, fun h ↦ (hstep.stocked h).addName fun type hcore ↦ ?_⟩
        obtain ⟨hplain, -⟩ := CoreLibrary.isPlain_of_find? hcore
        have hsimple := (TypeName.WellFormed.simple hplain).parse?_canonical
        rw [canonical_simple, hparse] at hsimple
        cases hsimple
        obtain ⟨u, r₂, hmade, hd⟩ := ho.ofHostType_core hcore
        have hlookup : lookup? name none r = .ok (some u) r₂ :=
          lookup?_of_host (by rw [hknown]; rfl) (h.find? hcore nofun) hmade
        rw [resolveParsed, resolveIn_of_some hlookup] at hx
        cases hx
        exact hd

instance : Growth Provides where
  resolve name r := ⟨grows_resolve (R := Upholds) name r, fun ho ↦ restocks_resolve ho name⟩
  resolveString home token r := by
    refine ⟨Growth.resolveString home token r, fun _ ↦ ?_⟩
    obtain ⟨strings, texts, hend⟩ := endState_resolveString r home token
    rw [hend]
    exact Files.restocks ⟨rfl, rfl, rfl, rfl, fun _ _ h ↦ h, fun _ _ h ↦ h⟩ rfl
  notes hf := ⟨Growth.notes hf, fun _ ↦ hf.toFiles.restocks hf.host⟩

/-! ### Modules -/

/-- Definitions of a module come in one after the other. None of them is a type of the host. -/
theorem restocks_addDefinitions (home : Home) : (defs : List (Nat × TypeDef)) → {r : Registry} →
    r.Restocks (endState (addDefinitions home defs) r)
  | [], r => .refl r
  | (position, d) :: rest, r => by
    have hplain (type : HostType) : definedAs home position d ≠ type.descriptor :=
      fun h ↦ nomatch congrArg Descriptor.shape h
    by_cases htaken : definitionName d ∈ r.names
    · rw [endState_error (addDefinitions_of_taken rest htaken)]
      exact ⟨fun _ _ hu ↦ hu, fun h ↦ h.push (fun _ _ hu ↦ .inl hu) (fun _ _ hu ↦ hu)
        fun type htype ↦ absurd htype (hplain type)⟩
    · have hdefined : r.Restocks (r.define home position d) :=
        ⟨fun _ _ hu ↦ hu, fun h ↦ h.push (fun _ _ hu ↦ names_insertIfNew_cases hu)
          (fun _ _ hu ↦ hu) fun type htype ↦ absurd htype (hplain type)⟩
      rw [endState, addDefinitions_of_free rest htaken]
      exact hdefined.trans (restocks_addDefinitions home rest)

/-- Loading a module is adding its definitions, whether it ends well or not. -/
theorem restocks_loadModule (m : Module) : r.Restocks (endState (loadModule m) r) := by
  have hfiles {r r' : Registry} (htypes : r'.types = r.types) (hnames : r'.names = r.names)
      (hscoped : r'.scoped_ = r.scoped_) (hhost : r'.host = r.host) : r.Restocks r' := by
    refine ⟨fun _ _ ht ↦ hscoped ▸ ht, fun h ↦ ⟨?_, ?_, ?_⟩⟩
    · exact hhost ▸ h.library
    · exact htypes ▸ hscoped ▸ h.filed
    · exact htypes ▸ hnames ▸ h.named
  cases hloaded : r.loaded? m with
  | some id =>
    rw [endState_ok (loadModule_of_loaded hloaded)]
    exact .refl r
  | none =>
    by_cases htaken : ∃ name ∈ definitionNames m, name ∈ r.names
    · obtain ⟨e, he⟩ := loadModule_of_taken hloaded htaken
      rw [endState_error he]
      exact .refl r
    · have hpushed : r.Restocks { r with modules := r.modules.push m } := hfiles rfl rfl rfl rfl
      rw [endState, loadModule_of_free hloaded fun name hname hmem ↦ htaken ⟨name, hname, hmem⟩]
      generalize List.map _ m.types.toList.zipIdx = defs
      have hadded := hpushed.trans (restocks_addDefinitions ⟨⟨r.modules.size⟩, m⟩ defs)
      cases hx : addDefinitions ⟨⟨r.modules.size⟩, m⟩ defs
        { r with modules := r.modules.push m } with
      | error e r₁ =>
        rw [endState_error hx] at hadded
        rw [bind_of_error hx]
        exact hadded
      | ok _ r₁ =>
        rw [endState_ok hx] at hadded
        rw [bind_of_ok hx]
        refine hadded.trans ?_
        change r₁.Restocks (endState (finishLoad m ⟨r.modules.size⟩) r₁)
        unfold finishLoad
        split
        · exact hfiles rfl rfl rfl rfl
        · exact .refl r₁

theorem provides_operation {α : Type} {x : RegistryM α} (hx : Operation x) : Keeps Provides x := by
  refine hx.keeps (fun m r ↦ ?_) (fun m r ↦ ?_) fun f r ↦ ?_
  · exact ⟨upholds_operation (.loadModule m) r, fun _ ↦ restocks_loadModule m⟩
  · refine ⟨upholds_operation (.addHostModule m) r, fun _ ↦ ⟨fun _ _ h ↦ h, fun h ↦ ?_⟩⟩
    exact ⟨getElem?_push_of_some h.library, h.filed, h.named⟩
  · exact ⟨upholds_operation (.registerAdaptor f) r, fun _ ↦ ⟨fun _ _ h ↦ h, fun h ↦
      ⟨h.library, h.filed, h.named⟩⟩⟩

/-- By induction on the history, as every step restocks. -/
theorem Reached.stocked (h : r.Reached) : r.Stocked := by
  induction h with
  | empty => exact stocked_empty
  | step h hx ih => exact ((provides_operation hx _).restocks h.orderly).stocked ih

/-! ### Core types -/

/-- The second registry comes from the first one by operations, successful ones or not. -/
inductive Since (r : Registry) : Registry → Prop
  | refl : Since r r
  | step {s : Registry} {α : Type} {x : RegistryM α} (h : Since r s) (hx : Operation x) :
      Since r (endState x s)

theorem Since.provides (h : r.Since r') : r.Provides r' := by
  induction h with
  | refl => exact refl_of Provides r
  | step _ hx ih => exact trans_of Provides ih (provides_operation hx _)

theorem coreType_of_inScope {t : TypeId}
    (h : r.scoped_[name ++ ", " ++ CoreLibrary.moduleName]? = some t) :
    coreType name r = .ok t r :=
  resolveIn_of_some (lookup?_of_known (by rw [inScope?, Option.bind_some, h]; rfl))

/-- A type of the core library stays what it is from the moment that it is in use. -/
theorem Stocked.coreType_kept (ho : r.Orderly) (h : r.Stocked)
    (hcore : CoreLibrary.find? name = some type) (ht : r.types[t.index]? = some type.descriptor)
    {s : Registry} (hs : r.Since s) : coreType name s = .ok t s ∧ s.type t = type.descriptor := by
  have hprovides := hs.provides
  have hfiled := (hprovides.restocks ho).hosts _ _ (h.filed _ _ ht)
  rw [CoreLibrary.scopedName_of_find? hcore] at hfiled
  exact ⟨coreType_of_inScope hfiled, type_eq_of_getElem? (hprovides.upholds.1.types _ _ ht)⟩

/-- A name of the core library always stands for a type of that name. -/
theorem Reached.coreType_ok (h : r.Reached) (hcore : CoreLibrary.find? name = some type) :
    ∃ t r', coreType name r = .ok t r' ∧ r'.typeName t = name := by
  have hname {r' : Registry} {t : TypeId} (hd : ∃ d, r'.types[t.index]? = some d ∧ d.name = name) :
      r'.typeName t = name := by
    obtain ⟨d, hd, rfl⟩ := hd
    exact typeName_of_getElem? hd
  cases hscope : r.scoped_[type.scopedName]? with
  | some t =>
    obtain ⟨d, other, hd, -, -, hother, hscoped⟩ := h.orderly.hosts _ _ hscope
    have hfound := CoreLibrary.scopedName_of_find? hcore ▸ hscope
    exact ⟨t, r, coreType_of_inScope hfound, hname
      ⟨d, hd, hother.trans (CoreLibrary.fullName_of_scopedName hcore hscoped.symm)⟩⟩
  | none =>
    have hnone : r.inScope? name (some CoreLibrary.moduleName) = none := by
      rwa [inScope?, Option.bind_some, ← CoreLibrary.scopedName_of_find? hcore]
    cases hknown : r.names[name]? with
    | some t =>
      have hlookup := lookup?_of_known (r := r) (by rw [hnone]; exact hknown)
      exact ⟨t, r, resolveIn_of_some hlookup, hname (h.stocked.named name type t hcore hknown)⟩
    | none =>
      obtain ⟨t, r', hmade, hd⟩ := h.orderly.ofHostType_core hcore
      have hlookup := lookup?_of_host (by rw [hnone]; exact hknown)
        (h.stocked.find? hcore fun _ hs ↦ (Option.some.inj hs).symm) hmade
      exact ⟨t, r', resolveIn_of_some hlookup, hname hd⟩

/-- The type that the registry gives for a name of the core library. It always gives one, and one of
that name: the core library's own, which it is from then on, whatever else is brought in, or one
that was there under the name before. -/
theorem core_types_settle (h : r.Reached) (hcore : CoreLibrary.find? name = some type) :
    ∃ t r', coreType name r = .ok t r' ∧ r'.typeName t = name ∧
      (r'.type t = type.descriptor ∧
          (∀ s, r'.Since s → coreType name s = .ok t s ∧ s.type t = type.descriptor) ∨
        r.Has t ∧ r.type t ≠ type.descriptor) := by
  have ho := h.orderly
  have hstocked := h.stocked
  -- a type that is there already is the library's own or another one
  have hthere {t : TypeId} {d : Descriptor} (hd : r.types[t.index]? = some d)
      (hname : d.name = name)
      (hfound : coreType name r = .ok t r) : ∃ t r', coreType name r = .ok t r' ∧
        r'.typeName t = name ∧ (r'.type t = type.descriptor ∧
            (∀ s, r'.Since s → coreType name s = .ok t s ∧ s.type t = type.descriptor) ∨
          r.Has t ∧ r.type t ≠ type.descriptor) := by
    refine ⟨t, r, hfound, (typeName_of_getElem? hd).trans hname, ?_⟩
    by_cases hown : r.type t = type.descriptor
    · rw [type_eq_of_getElem? hd] at hown
      subst hown
      exact .inl ⟨type_eq_of_getElem? hd, fun s ↦ hstocked.coreType_kept ho hcore hd⟩
    · exact .inr ⟨(Array.getElem?_eq_some_iff.mp hd).1, hown⟩
  cases hscope : r.scoped_[type.scopedName]? with
  | some t =>
    obtain ⟨d, other, hd, -, -, hname, hscoped⟩ := ho.hosts _ _ hscope
    refine hthere hd (hname.trans (CoreLibrary.fullName_of_scopedName hcore hscoped.symm)) ?_
    rw [CoreLibrary.scopedName_of_find? hcore] at hscope
    exact coreType_of_inScope hscope
  | none =>
    have hnone : r.inScope? name (some CoreLibrary.moduleName) = none := by
      rwa [inScope?, Option.bind_some, ← CoreLibrary.scopedName_of_find? hcore]
    cases hknown : r.names[name]? with
    | some t =>
      obtain ⟨d, hd, hname⟩ := hstocked.named name type t hcore hknown
      exact hthere hd hname (resolveIn_of_some (lookup?_of_known (by rw [hnone]; exact hknown)))
    | none =>
      obtain ⟨r', hmade, backed, hr'⟩ := ofHostType_of_new hscope
      have hfound : coreType name r = .ok ⟨r.types.size⟩ r' :=
        resolveIn_of_some (lookup?_of_host (by rw [hnone]; exact hknown)
          (hstocked.find? hcore fun _ hs ↦ (Option.some.inj hs).symm) hmade)
      have hd : r'.types[r.types.size]? = some type.descriptor := by
        rw [hr']
        exact Array.getElem?_push_size
      have hstep := provides_operation (.ofHostType type) r
      rw [endState_ok hmade] at hstep
      exact ⟨_, r', hfound, (typeName_of_getElem? (t := ⟨r.types.size⟩) hd).trans
        (CoreLibrary.mem_types_of_find? hcore).2,
        .inl ⟨type_eq_of_getElem? (t := ⟨r.types.size⟩) hd,
          fun s ↦ ((hstep.restocks ho).stocked hstocked).coreType_kept (hstep.upholds.2 ho) hcore
            hd⟩⟩

end Registry

/-- A class of the name of the object type, and a module of it. -/
def TypeDef.impostor : TypeDef := ⟨"System", "Object", .none, none, [], [], #[], #[]⟩

/-- A module that defines one type, under a name that the core library has for an exception. -/
def Module.impostor : Module := .ofTypes "Impostor" #[.impostor]

/-- A class whose name is not of the core library, and a module of it. -/
def TypeDef.shape : TypeDef := ⟨"N", "Shape", .none, none, [], [], #[], #[]⟩

def Module.drawings : Module := .ofTypes "Drawings" #[.shape]

namespace Registry

/-- The registry in which only the module of the class was loaded. -/
def withDrawings : Registry :=
  define ⟨⟨0⟩, .drawings⟩ 0 .shape { empty with modules := #[.drawings] }

theorem loadModule_drawings : loadModule .drawings empty = .ok ⟨0⟩ withDrawings := by
  have hfree : ∀ name ∈ definitionNames .drawings, name ∉ empty.names :=
    fun name _ ↦ Std.HashMap.not_mem_empty
  have hadd : addDefinitions ⟨⟨0⟩, .drawings⟩ [(0, .shape)]
      { empty with modules := #[.drawings] } = .ok () withDrawings :=
    addDefinitions_of_free [] Std.HashMap.not_mem_empty
  exact (loadModule_of_free rfl hfree).trans (bind_of_ok hadd)

/-- The object type comes into use after a module was loaded. It stays the object type when a module
is loaded then that has a class of its name, whether that succeeds or fails. -/
theorem core_types_settle_object : ∃ type t r', CoreLibrary.find? "System.Object" = some type ∧
    withDrawings.Reached ∧ coreType "System.Object" withDrawings = .ok t r' ∧
      r'.type t = type.descriptor ∧
      coreType "System.Object" (endState (loadModule .impostor) r') =
        .ok t (endState (loadModule .impostor) r') := by
  obtain ⟨type, hcore⟩ : ∃ type, CoreLibrary.find? "System.Object" = some type := ⟨_, rfl⟩
  have hreached : withDrawings.Reached := by
    rw [← endState_ok loadModule_drawings]
    exact Reached.empty.step (.loadModule .drawings)
  obtain ⟨t, r', h, hname, ⟨hown, hkept⟩ | ⟨hthere, -⟩⟩ := core_types_settle hreached hcore
  · exact ⟨type, t, r', hcore, hreached, h, hown,
      (hkept _ (Since.refl.step (.loadModule .impostor))).1⟩
  · -- the one type that was there has another name
    have hextends : withDrawings.Extends r' := (grows_coreType (R := Extends) _).ok h
    obtain ⟨index⟩ := t
    obtain rfl : index = 0 := Nat.lt_one_iff.mp hthere
    rw [typeName, hextends.type_eq hthere] at hname
    have hshape : definitionName .shape = "N.Shape" := by cbv
    rw [show (withDrawings.type ⟨0⟩).name = definitionName .shape from rfl, hshape] at hname
    exact absurd hname (by decide)

/-- The registry in which only the module of the impostor was loaded. -/
def withImpostor : Registry :=
  define ⟨⟨0⟩, .impostor⟩ 0 .impostor { empty with modules := #[.impostor] }

theorem loadModule_impostor : loadModule .impostor empty = .ok ⟨0⟩ withImpostor := by
  have hfree : ∀ name ∈ definitionNames .impostor, name ∉ empty.names :=
    fun name _ ↦ Std.HashMap.not_mem_empty
  have hadd : addDefinitions ⟨⟨0⟩, .impostor⟩ [(0, .impostor)]
      { empty with modules := #[.impostor] } = .ok () withImpostor :=
    addDefinitions_of_free [] Std.HashMap.not_mem_empty
  exact (loadModule_of_free rfl hfree).trans (bind_of_ok hadd)

/-- An interpreted class that was loaded before is taken for the object type. -/
theorem object_of_impostor : ¬∀ r : Registry, r.Reached → ∀ name type,
    CoreLibrary.find? name = some type → ∀ t r', coreType name r = .ok t r' →
      r'.type t = type.descriptor := by
  intro h
  obtain ⟨type, hcore⟩ : ∃ type, CoreLibrary.find? "System.Object" = some type := ⟨_, rfl⟩
  have hr : Reached (endState (loadModule .impostor) empty) := .step .empty (.loadModule .impostor)
  rw [endState_ok loadModule_impostor] at hr
  have hname : definitionName .impostor = "System.Object" := by cbv
  have hknown : withImpostor.names["System.Object"]? = some ⟨0⟩ := by
    rw [← hname]
    exact getElem?_insertIfNew_of_none Std.HashMap.getElem?_empty
  have hnone : withImpostor.inScope? "System.Object" (some CoreLibrary.moduleName) = none :=
    Std.HashMap.getElem?_empty
  have hfound : coreType "System.Object" withImpostor = .ok ⟨0⟩ withImpostor :=
    resolveIn_of_some (lookup?_of_known (by rw [hnone]; exact hknown))
  cases congrArg Descriptor.shape (h _ hr _ _ hcore _ _ hfound)

end Registry

end ManagedMachine
