import ManagedMachine.Proofs.Keeping
import ManagedMachine.Registry.Naming

/-!
# Loads that fail

A module is checked against the names of the registry before anything is added, so a load that
fails there leaves the registry as it was. The check does not compare the names of the module with
each other. A name that the module defines twice, be it under different spellings of a nested type,
is met while its types are added, and what was added before it stays.

After the check the types are added one by one, and a load that ends early is the load of the types
before (`LeftBehind`). Whether there is an early end depends on the module only
(`loadModule_ok_iff_of_free`), so what is left behind by a failed load can be read off its list of
names.
-/

set_option autoImplicit false
set_option relaxedAutoImplicit false

namespace ManagedMachine

namespace Registry

variable {r r' : Registry} {m : Module} {e : Error} {home : Home} {position : Nat} {d : TypeDef}

/-- The names under which a module wants its types known. -/
def definitionNames (m : Module) : List String := m.types.toList.map definitionName

/-- The descriptor of a definition. -/
def definedAs (home : Home) (position : Nat) (d : TypeDef) : Descriptor :=
  ⟨definitionName d, .interpreted home (Module.typeToken position), [], none⟩

/-- The registry with one more definition. -/
def define (home : Home) (position : Nat) (d : TypeDef) (r : Registry) : Registry :=
  { r with
    types := r.types.push (definedAs home position d)
    names := r.names.insertIfNew (definitionName d) ⟨r.types.size⟩
    definitions := r.definitions.insert ⟨home.id, Module.typeToken position⟩ ⟨r.types.size⟩ }

/-- A name that is taken stops the list, with the descriptor of its type already added. -/
theorem addDefinitions_of_taken (rest : List (Nat × TypeDef)) (h : definitionName d ∈ r.names) :
    addDefinitions home ((position, d) :: rest) r = .error (.duplicateType (definitionName d))
      { r with types := r.types.push (definedAs home position d) } := by
  have hadd : addType (definedAs home position d) r =
      .ok ⟨r.types.size⟩ { r with types := r.types.push (definedAs home position d) } := rfl
  rw [addDefinitions]
  refine (bind_of_ok hadd).trans ((bind_of_ok rfl).trans ?_)
  dsimp only
  rw [if_pos (Std.HashMap.contains_iff_mem.mpr h)]
  rfl

/-- A name that is free is taken, and the rest goes on from there. -/
theorem addDefinitions_of_free (rest : List (Nat × TypeDef)) (h : definitionName d ∉ r.names) :
    addDefinitions home ((position, d) :: rest) r =
      addDefinitions home rest (r.define home position d) := by
  have hadd : addType (definedAs home position d) r =
      .ok ⟨r.types.size⟩ { r with types := r.types.push (definedAs home position d) } := rfl
  rw [addDefinitions]
  refine (bind_of_ok hadd).trans ((bind_of_ok rfl).trans ?_)
  dsimp only
  rw [if_neg fun hmem ↦ h (Std.HashMap.contains_iff_mem.mp hmem)]
  rfl

theorem mem_names_define {name : String} :
    name ∈ (r.define home position d).names ↔ name ∈ r.names ∨ name = definitionName d := by
  rw [define, Std.HashMap.mem_insertIfNew, beq_iff_eq, or_comm, eq_comm]

/-! ### Adding the types of a module -/

/-- What is left of types that were added up to a name that was taken: they and, without its name,
the type that was to have it. -/
structure LeftBehind (before : List TypeDef) (r r' : Registry) : Prop where
  types : r'.types.size = r.types.size + before.length + 1
  names : ∀ name, name ∈ r'.names ↔ name ∈ r.names ∨ name ∈ before.map definitionName
  kept : ∀ (name : String) t, r.names[name]? = some t → r'.names[name]? = some t
  versions : r'.versions = r.versions

/-- What is left behind by the rest of a list is left behind by the list, and its first type with
it. -/
theorem LeftBehind.define {before : List TypeDef}
    (h : LeftBehind before (r.define home position d) r') : LeftBehind (d :: before) r r' where
  types := by
    rw [h.types, Registry.define, Array.size_push, List.length_cons]
    omega
  names name := by
    rw [h.names, mem_names_define, List.map_cons, List.mem_cons, or_assoc]
  kept name t ht := by
    refine h.kept name t ?_
    have hmem : name ∈ r.names := Std.HashMap.mem_iff_isSome_getElem?.mpr (by rw [ht]; rfl)
    rw [Registry.define, Std.HashMap.getElem?_insertIfNew, if_neg, ht]
    rintro ⟨heq, hnew⟩
    exact hnew (eq_of_beq heq ▸ hmem)
  versions := h.versions

/-- By induction on the types: the one at which adding fails has a name that was taken from the
beginning or by a type before it. -/
theorem addDefinitions_error {defs : List (Nat × TypeDef)}
    (h : addDefinitions home defs r = .error e r') :
    ∃ before d after, defs.map Prod.snd = before ++ d :: after ∧
      e = .duplicateType (definitionName d) ∧
      (definitionName d ∈ r.names ∨ definitionName d ∈ before.map definitionName) ∧
      LeftBehind before r r' ∧ r'.modules = r.modules := by
  induction defs generalizing r with
  | nil => cases h
  | cons x rest ih =>
    obtain ⟨position, d⟩ := x
    by_cases htaken : definitionName d ∈ r.names
    · rw [addDefinitions_of_taken rest htaken] at h
      cases h
      refine ⟨[], d, rest.map Prod.snd, rfl, rfl, .inl htaken, ⟨?_, ?_, fun _ _ ht ↦ ht, rfl⟩, rfl⟩
      · exact Array.size_push _
      · simp
    · rw [addDefinitions_of_free rest htaken] at h
      obtain ⟨before, d', after, hdefs, he, hmem, hleft, hmodules⟩ := ih h
      refine ⟨d :: before, d', after, by simp [hdefs], he, ?_, hleft.define, hmodules⟩
      rw [mem_names_define] at hmem
      rw [List.map_cons, List.mem_cons]
      tauto

/-- All types are added exactly if no name is taken and none comes twice. -/
theorem addDefinitions_ok_iff (home : Home) (defs : List (Nat × TypeDef)) :
    (∃ r', addDefinitions home defs r = .ok () r') ↔
      (∀ d ∈ defs.map Prod.snd, definitionName d ∉ r.names) ∧
        ((defs.map Prod.snd).map definitionName).Nodup := by
  induction defs generalizing r with
  | nil => exact iff_of_true ⟨r, rfl⟩ ⟨nofun, List.nodup_nil⟩
  | cons x rest ih =>
    obtain ⟨position, d⟩ := x
    simp only [List.map_cons, List.forall_mem_cons, List.nodup_cons]
    by_cases htaken : definitionName d ∈ r.names
    · rw [addDefinitions_of_taken rest htaken]
      exact iff_of_false (fun ⟨_, h⟩ ↦ (nomatch h)) fun h ↦ h.1.1 htaken
    · rw [addDefinitions_of_free rest htaken, ih]
      simp only [mem_names_define, not_or, List.mem_map (f := definitionName)]
      constructor
      · rintro ⟨hfree, hdistinct⟩
        exact ⟨⟨htaken, fun d' hd' ↦ (hfree d' hd').1⟩,
          fun ⟨d', hd', heq⟩ ↦ (hfree d' hd').2 heq, hdistinct⟩
      · rintro ⟨⟨-, hfree⟩, hnew, hdistinct⟩
        exact ⟨fun d' hd' ↦ ⟨hfree d' hd', fun heq ↦ hnew ⟨d', hd', heq⟩⟩, hdistinct⟩

/-! ### Loading -/

/-- The identity of the module if its version was loaded before. -/
def loaded? (r : Registry) (m : Module) : Option ModuleId :=
  if m.version = 0 then none else r.versions[m.version]?

/-- A module that is loaded already is not loaded again. -/
theorem loadModule_of_loaded {id : ModuleId} (h : r.loaded? m = some id) :
    loadModule m r = .ok id r := by
  refine (bind_of_ok rfl).trans ?_
  rw [loaded?] at h
  rw [h]
  rfl

/-- The check before the load, where it fails. -/
theorem loadModule_of_taken (hnew : r.loaded? m = none)
    (htaken : ∃ name ∈ definitionNames m, name ∈ r.names) :
    ∃ e, loadModule m r = .error e r := by
  obtain ⟨d, hd⟩ : ∃ d, (m.types.toList.find? fun d ↦ r.names.contains (definitionName d)) =
      some d := by
    obtain ⟨name, hname, hmem⟩ := htaken
    obtain ⟨d, hd, rfl⟩ := List.mem_map.mp hname
    rw [← Option.isSome_iff_exists, List.find?_isSome]
    exact ⟨d, hd, Std.HashMap.contains_iff_mem.mpr hmem⟩
  refine ⟨.duplicateType (definitionName d), (bind_of_ok rfl).trans ?_⟩
  rw [loaded?] at hnew
  rw [hnew, hd]
  rfl

/-- The end of a load, which makes the version known. -/
def finishLoad (m : Module) (id : ModuleId) : RegistryM ModuleId := do
  if m.version ≠ 0 then
    modify fun r => { r with versions := r.versions.insert m.version id }
  return id

/-- If no name is taken, loading is adding the types and making the version known. -/
theorem loadModule_of_free (hnew : r.loaded? m = none)
    (hfree : ∀ name ∈ definitionNames m, name ∉ r.names) :
    loadModule m r = (do
      addDefinitions ⟨⟨r.modules.size⟩, m⟩ (m.types.toList.zipIdx.map fun (d, i) ↦ (i, d))
      finishLoad m ⟨r.modules.size⟩) { r with modules := r.modules.push m } := by
  have hnone : (m.types.toList.find? fun d ↦ r.names.contains (definitionName d)) = none := by
    rw [List.find?_eq_none]
    exact fun d hd hmem ↦ hfree _ (List.mem_map_of_mem hd) (Std.HashMap.contains_iff_mem.mp hmem)
  refine (bind_of_ok rfl).trans ?_
  rw [loaded?] at hnew
  rw [hnew, hnone]
  rfl

theorem finishLoad_ok (id : ModuleId) : ∃ r', finishLoad m id r = .ok id r' := by
  unfold finishLoad
  split <;> exact ⟨_, rfl⟩

theorem map_snd_definitions (m : Module) :
    (m.types.toList.zipIdx.map fun (d, i) ↦ (i, d)).map Prod.snd = m.types.toList := by
  rw [List.map_map]
  exact List.zipIdx_map_fst 0 _

/-- What a load leaves that meets a name of the module a second time. -/
structure PartlyLoaded (m : Module) (e : Error) (r r' : Registry) : Prop where
  modules : r'.modules = r.modules.push m
  types : ∃ before d after, m.types.toList = before ++ d :: after ∧
    e = .duplicateType (definitionName d) ∧ definitionName d ∈ before.map definitionName ∧
    LeftBehind before r r'

/-- A load that fails although no name was taken has met a name of the module a second time. -/
theorem partlyLoaded_of_free (hnew : r.loaded? m = none)
    (hfree : ∀ name ∈ definitionNames m, name ∉ r.names) (h : loadModule m r = .error e r') :
    PartlyLoaded m e r r' ∧ ¬(definitionNames m).Nodup := by
  rw [loadModule_of_free hnew hfree] at h
  cases hadd : addDefinitions ⟨⟨r.modules.size⟩, m⟩
      (m.types.toList.zipIdx.map fun (d, i) ↦ (i, d)) { r with modules := r.modules.push m } with
  | ok _ r₁ =>
    obtain ⟨r₂, hfinish⟩ := finishLoad_ok (r := r₁) (m := m) ⟨r.modules.size⟩
    rw [bind_of_ok hadd, hfinish] at h
    cases h
  | error e₁ r₁ =>
    rw [bind_of_error hadd] at h
    cases h
    obtain ⟨before, d, after, hdefs, he, hmem, hleft, hmodules⟩ := addDefinitions_error hadd
    rw [map_snd_definitions] at hdefs
    have hbefore : definitionName d ∈ before.map definitionName :=
      hmem.resolve_left (hfree _ (List.mem_map_of_mem (hdefs ▸ by simp)))
    refine ⟨⟨hmodules, before, d, after, hdefs, he, hbefore, ⟨hleft.types, hleft.names, hleft.kept,
      hleft.versions⟩⟩, fun hdistinct ↦ ?_⟩
    rw [definitionNames, hdefs, List.map_append, List.map_cons, List.nodup_append] at hdistinct
    exact hdistinct.2.2 _ hbefore _ List.mem_cons_self rfl

/-- After the check, a load succeeds exactly if the module does not repeat a name. -/
theorem loadModule_ok_iff_of_free (hnew : r.loaded? m = none)
    (hfree : ∀ name ∈ definitionNames m, name ∉ r.names) :
    (∃ id r', loadModule m r = .ok id r') ↔ (definitionNames m).Nodup := by
  have hadd := addDefinitions_ok_iff (r := { r with modules := r.modules.push m })
    ⟨⟨r.modules.size⟩, m⟩ (m.types.toList.zipIdx.map fun (d, i) ↦ (i, d))
  rw [map_snd_definitions] at hadd
  rw [loadModule_of_free hnew hfree]
  constructor
  · rintro ⟨id, r', h⟩
    obtain ⟨_, r₁, h, -⟩ := exists_of_bind h
    exact (hadd.mp ⟨r₁, h⟩).2
  · intro hdistinct
    obtain ⟨r₁, h⟩ := hadd.mpr ⟨fun d hd ↦ hfree _ (List.mem_map_of_mem hd), hdistinct⟩
    obtain ⟨r₂, hfinish⟩ := finishLoad_ok (r := r₁) (m := m) ⟨r.modules.size⟩
    exact ⟨_, r₂, (bind_of_ok h).trans hfinish⟩

/-- Loading fails for a name that is taken and for a name that the module defines twice; only in the
second case is anything left behind. A module whose version is known is not looked at. -/
theorem failed_loads_change_nothing (r : Registry) (m : Module) :
    (∀ id, r.loaded? m = some id → loadModule m r = .ok id r) ∧
    (r.loaded? m = none → ((∃ e r', loadModule m r = .error e r') ↔
      (∃ name ∈ definitionNames m, name ∈ r.names) ∨ ¬(definitionNames m).Nodup)) ∧
    ∀ e r', loadModule m r = .error e r' →
      ((definitionNames m).Nodup ∨ (∃ name ∈ definitionNames m, name ∈ r.names) → r' = r) ∧
      (r' = r ∨ PartlyLoaded m e r r') := by
  refine ⟨fun id h ↦ loadModule_of_loaded h, fun hnew ↦ ?_, fun e r' h ↦ ?_⟩
  · by_cases htaken : ∃ name ∈ definitionNames m, name ∈ r.names
    · obtain ⟨e, he⟩ := loadModule_of_taken hnew htaken
      exact ⟨fun _ ↦ .inl htaken, fun _ ↦ ⟨e, r, he⟩⟩
    · have hfree : ∀ name ∈ definitionNames m, name ∉ r.names :=
        fun name hname hmem ↦ htaken ⟨name, hname, hmem⟩
      refine ⟨fun ⟨e, r', h⟩ ↦ .inr (partlyLoaded_of_free hnew hfree h).2, fun htwice ↦ ?_⟩
      cases hload : loadModule m r with
      | error e r' => exact ⟨e, r', rfl⟩
      | ok id r' =>
        exact absurd ((loadModule_ok_iff_of_free hnew hfree).mp ⟨id, r', hload⟩)
          (htwice.resolve_left htaken)
  · have hnew : r.loaded? m = none := by
      cases hloaded : r.loaded? m with
      | none => rfl
      | some id =>
        rw [loadModule_of_loaded hloaded] at h
        cases h
    by_cases htaken : ∃ name ∈ definitionNames m, name ∈ r.names
    · obtain ⟨e₁, he⟩ := loadModule_of_taken hnew htaken
      cases he.symm.trans h
      exact ⟨fun _ ↦ rfl, .inl rfl⟩
    · obtain ⟨hleft, htwice⟩ := partlyLoaded_of_free hnew
        (fun name hname hmem ↦ htaken ⟨name, hname, hmem⟩) h
      exact ⟨fun hor ↦ (hor.elim htwice htaken).elim, .inr hleft⟩

end Registry

/-- A module with one type. -/
def Module.thing : Module :=
  .ofTypes "Things" #[⟨"N", "Thing", .none, none, [], [], #[], #[]⟩]

/-- A module with two types of one name. -/
def Module.twins : Module :=
  .ofTypes "Twins" #[⟨"N", "Twin", .none, none, [], [], #[], #[]⟩,
    ⟨"N", "Twin", .none, none, [], [], #[], #[]⟩]

namespace Registry

/-- A registry in which the name of the thing is taken. -/
def withThing : Registry :=
  empty.define ⟨⟨0⟩, .thing⟩ 0 ⟨"N", "Thing", .none, none, [], [], #[], #[]⟩

theorem failed_loads_change_nothing_thing :
    (∃ name ∈ definitionNames .thing, name ∈ withThing.names) ∧
      ∃ e, loadModule .thing withThing = .error e withThing := by
  have htaken : ∃ name ∈ definitionNames .thing, name ∈ withThing.names :=
    ⟨_, List.mem_cons_self, mem_names_define.mpr (.inr rfl)⟩
  obtain ⟨-, hfails, hleaves⟩ := failed_loads_change_nothing withThing .thing
  obtain ⟨e, r', h⟩ := (hfails rfl).mpr (.inl htaken)
  obtain rfl := (hleaves e r' h).1 (.inr htaken)
  exact ⟨htaken, e, h⟩

/-- What the name resolves to. -/
def resolved? (r : Registry) (name : String) : Option TypeId :=
  match resolve name r with
  | .ok t _ => some t
  | .error _ _ => none

/-- The registries cannot be told apart from outside. -/
structure SameContents (r r' : Registry) : Prop where
  types : r'.types.size = r.types.size
  modules : r'.modules.size = r.modules.size
  names : ∀ name, resolved? r' name = resolved? r name
  definitions : ∀ ref : Reference, r'.definitions[ref]? = r.definitions[ref]?
  versions : ∀ version : Nat, r'.versions[version]? = r.versions[version]?

/-- A module that defines a name twice is not loaded, and still it counts as a module. -/
theorem twins_left_behind : ¬∀ (r r' : Registry) (m : Module) (e : Error),
    loadModule m r = .error e r' → SameContents r r' := by
  intro h
  have hnames : definitionNames .twins = ["N.Twin", "N.Twin"] := by cbv
  have hfree : ∀ name ∈ definitionNames .twins, name ∉ empty.names :=
    fun name _ ↦ Std.HashMap.not_mem_empty
  cases hload : loadModule .twins empty with
  | ok id r' =>
    have hdistinct := (loadModule_ok_iff_of_free rfl hfree).mp ⟨id, r', hload⟩
    rw [hnames] at hdistinct
    exact absurd hdistinct (by decide)
  | error e r' =>
    have hmodules := (h _ _ _ _ hload).modules
    rw [(partlyLoaded_of_free rfl hfree hload).1.modules, Array.size_push] at hmodules
    exact absurd hmodules (by decide)

end Registry

end ManagedMachine
