import ManagedMachine.Proofs.DeclaredMethods
import ManagedMachine.Proofs.Spellings

/-!
# Bound parameters

Only an instantiation binds parameters, and if names can be read it binds them to types that are
there: its name spells out theirs. So whatever a generic context binds is there, if its own type and
the arguments of its method are.
-/

set_option autoImplicit false
set_option relaxedAutoImplicit false

namespace ManagedMachine

namespace Registry

variable {r r' : Registry} {d : Descriptor} {t : TypeId} {name : String} {c : GenericContext}

/-- Only instantiations bind parameters. -/
def Bare (r : Registry) : Prop := ∀ (i : Nat) d, r.types[i]? = some d → d.definition = none →
    d.args = []

/-- A type that is added has arguments only if it has a definition. -/
theorem Bare.push (h : r.Bare) (hd : d.definition = none → d.args = [])
    (htypes : r'.types = r.types.push d) : r'.Bare := by
  intro i d' hd'
  rw [htypes] at hd'
  rcases getElem?_push_cases hd' with hold | rfl
  · exact h i d' hold
  · exact hd

/-- The registry is still bare if it was. -/
def Bares (r r' : Registry) : Prop := r.Bare → r'.Bare

theorem bares_of_types (h : r'.types = r.types) : r.Bares r' := by
  intro hbare
  rw [Bare, h]
  exact hbare

/-- Interning adds at most the type that is asked for. -/
theorem bares_intern (hd : d.definition = none → d.args = []) : Keeps Bares (intern d) := by
  intro r
  cases hknown : r.names[d.name]? with
  | some t =>
    rw [endState_ok (intern_of_known hknown)]
    exact id
  | none =>
    rw [endState_ok (intern_of_new hknown)]
    exact fun h ↦ h.push hd rfl

instance : Building Bares where
  refl _ := id
  trans _ _ _ h h' := h' ∘ h
  makeArray e rank r := by
    rw [endState, makeArray_eq]
    exact bares_intern (fun _ ↦ rfl) r
  makeByRef e r := by
    rw [endState, makeByRef_eq]
    exact bares_intern (fun _ ↦ rfl) r
  makeParameter name := bares_intern fun _ ↦ rfl
  makeInstance t args r := by
    by_cases harity : (r.type (r.openOf t)).generics.length = args.length
    · rw [endState, makeInstance_of_arity harity]
      exact bares_intern (fun hnone ↦ absurd hnone (Option.some_ne_none _)) r
    · obtain ⟨e, he⟩ := makeInstance_of_mismatch harity
      rw [endState_error he]
      exact id
  ofHostType type r := by
    cases hknown : r.scoped_[type.scopedName]? with
    | some t =>
      rw [endState_ok (ofHostType_of_known hknown)]
      exact id
    | none =>
      obtain ⟨r', hok, backed, rfl⟩ := ofHostType_of_new hknown
      rw [endState_ok hok]
      exact fun h ↦ h.push (fun _ ↦ rfl) rfl

instance : Growth Bares where
  resolve name := by
    unfold resolve
    refine (grows_ask _).bind fun known ↦ ?_
    split
    · exact .pure _
    · split
      · exact .throw _
      · refine (grows_resolveParsed _).bind fun t ↦ Keeps.seqRight (.modify fun r ↦ ?_) (.pure t)
        exact bares_of_types rfl
  resolveString home token r := by
    obtain ⟨strings, texts, hend⟩ := endState_resolveString r home token
    rw [hend]
    exact bares_of_types rfl
  notes h := bares_of_types h.types

/-- Definitions of a module come without arguments, also where one of them is refused. -/
theorem bares_addDefinitions (home : Home) : (defs : List (Nat × TypeDef)) →
    Keeps Bares (addDefinitions home defs)
  | [] => .pure ()
  | (position, d) :: rest => fun r h ↦ by
    by_cases htaken : definitionName d ∈ r.names
    · rw [endState_error (addDefinitions_of_taken rest htaken)]
      exact h.push (fun _ ↦ rfl) rfl
    · rw [endState, addDefinitions_of_free rest htaken]
      have hdefined : (r.define home position d).Bare :=
        h.push (d := definedAs home position d) (fun _ ↦ rfl) rfl
      exact bares_addDefinitions home rest _ hdefined

theorem bares_loadModule (m : Module) : Keeps Bares (loadModule m) := by
  intro r
  cases hloaded : r.loaded? m with
  | some known =>
    rw [endState_ok (loadModule_of_loaded hloaded)]
    exact id
  | none =>
    by_cases htaken : ∃ name ∈ definitionNames m, name ∈ r.names
    · obtain ⟨e, he⟩ := loadModule_of_taken hloaded htaken
      rw [endState_error he]
      exact id
    · rw [endState, loadModule_of_free hloaded fun name hname hmem ↦ htaken ⟨name, hname, hmem⟩]
      refine ((bares_addDefinitions _ _).bind fun _ ↦ ?_) { r with modules := r.modules.push m }
      unfold finishLoad
      split
      · exact Keeps.seqRight (.modify fun _ ↦ bares_of_types rfl) (.pure _)
      · exact .pure _

/-- In every registry that is reached only instantiations bind parameters. -/
theorem Reached.bare (h : r.Reached) : r.Bare := by
  induction h with
  | empty => exact fun _ _ h ↦ nomatch h
  | step _ hx ih =>
    exact hx.keeps bares_loadModule (fun _ _ ↦ bares_of_types rfl)
      (fun _ _ ↦ bares_of_types rfl) _ ih

/-- The arguments of a type are there, because its name spells out theirs. -/
theorem Orderly.hasArgs (ho : r.Orderly) (hlegible : r.Legible) (hbare : r.Bare) (ht : r.Has t) :
    r.HasArgs (r.type t).args := by
  obtain ⟨n, hwell, hname, -, hfits⟩ := exists_name hlegible ht
  cases hdefinition : (r.type t).definition with
  | none =>
    rw [hbare _ _ (getElem?_of_has ht) hdefinition]
    exact fun b hb ↦ nomatch hb
  | some g =>
    cases hwell with
    | simple hplain | array hwell hrank | byRef hwell =>
      rw [TypeName.Fits, hdefinition] at hfits
      cases hfits.1
    | generic hplain hne hargs =>
      obtain ⟨-, -, -, -, -, hthere⟩ := ho.instance_of_name hlegible ht hplain hne hargs hname
      intro b hb
      obtain ⟨i, hi, rfl⟩ := List.mem_iff_getElem.mp hb
      exact (List.Forall₂.get hthere (hthere.length_eq ▸ hi) hi).1

/-- What a context binds is there. -/
theorem Orderly.has_of_find? (ho : r.Orderly) (hlegible : r.Legible) (hbare : r.Bare)
    (hc : r.HasContext c) (ht : c.find? r name = some t) : r.Has t := by
  unfold GenericContext.find? at ht
  rcases (Option.orElse_eq_some _ _ _).mp ht with htype | ⟨-, hmethod⟩
  · obtain ⟨owner, howner, hfound⟩ := Option.bind_eq_some_iff.mp htype
    exact (ho.hasArgs hlegible hbare (hc.1 owner howner)).find? hfound
  · exact hc.2.find? hmethod

end Registry

end ManagedMachine
