import ManagedMachine.Proofs.DeclaredMethods

/-!
# Signatures resolved again

A signature that was resolved once is resolved to the same type later, when other types, methods and
modules have come: names that were given keep their meaning, and what is built from types is found
under its name. Two things can stand in the way. A name may come to mean another type, and a
position that was handed in may have belonged to no type at the time. `Registry.Steady` excludes
both, and `Registry.Repeats` says of a computation that it is repeated. In contrast to
`Registry.Settles`, modules may be loaded in between, and nothing is asked of the methods of a
registry.
-/

set_option autoImplicit false
set_option relaxedAutoImplicit false

namespace ManagedMachine

namespace Registry

variable {r r' r₁ z : Registry} {d : Descriptor} {t e g : TypeId} {name : String}
  {scope : Option String} {c : GenericContext} {α β : Type}

/-! ### Steady registries -/

/-- No name can mean two types, not even after a host type with a slash in its name has come into
use, and types are built from types before them. -/
structure Steady (r : Registry) : Prop extends Unambiguous r where
  slashless : ∀ m ∈ r.host, ∀ type ∈ m.types, '/' ∉ type.fullName.toList
  args : ∀ (i : Nat) d, r.types[i]? = some d → ∀ b ∈ d.args, b.type.index < i
  definition : ∀ (i : Nat) d, r.types[i]? = some d → ∀ g, d.definition = some g → g.index < i

theorem Steady.has_openOf (hz : z.Steady) (hr : r.Extends z) (ht : r.Has t) :
    r.Has (r.openOf t) := by
  cases hdefinition : (r.type t).definition with
  | none => rwa [openOf, hdefinition]
  | some g =>
    rw [openOf, hdefinition]
    exact Nat.lt_trans (hz.definition _ _ (hr.types _ _ (getElem?_of_has ht)) g hdefinition) ht

/-- What a context binds was there when the context was. -/
theorem Steady.has_of_find? (hz : z.Steady) (hr : r.Extends z) (hc : r.HasContext c)
    (ht : c.find? r name = some t) : r.Has t := by
  rcases (Option.orElse_eq_some _ _ _).mp ht with htype | ⟨-, hmethod⟩
  · obtain ⟨owner, howner, hfound⟩ := Option.bind_eq_some_iff.mp htype
    have hhas := hc.1 owner howner
    refine HasArgs.find? (fun b hb ↦ ?_) hfound
    exact Nat.lt_trans (hz.args _ _ (hr.types _ _ (getElem?_of_has hhas)) b hb) hhas
  · exact hc.2.find? hmethod

/-! ### Repeating -/

/-- From a registry in order to one that is in order too and recalls it. -/
def Tidies (r r' : Registry) : Prop := r.Recalls r' ∧ (r.Orderly → r'.Orderly)

theorem tidies_of {x : RegistryM α} (hs : Keeps Spells x) (hu : Keeps Upholds x) : Keeps Tidies x :=
  fun r ↦ ⟨(hs r).toLater.recalls, (hu r).2⟩

instance : Building Tidies where
  refl r := ⟨.refl r, id⟩
  trans _ _ _ h h' := ⟨h.1.trans h'.1, h'.2 ∘ h.2⟩
  makeArray e rank := tidies_of (Building.makeArray e rank) (Building.makeArray e rank)
  makeByRef e := tidies_of (Building.makeByRef e) (Building.makeByRef e)
  makeParameter s := tidies_of (Building.makeParameter s) (Building.makeParameter s)
  makeInstance t args := tidies_of (Building.makeInstance t args) (Building.makeInstance t args)
  ofHostType type := tidies_of (Building.ofHostType type) (Building.ofHostType type)

theorem Tidies.ok {x : RegistryM α} (hx : Keeps Tidies x) (ho : r.Orderly) {a : α}
    (hok : x r = .ok a r') : r.Recalls r' ∧ r'.Orderly :=
  ⟨(hx.ok hok).1, (hx.ok hok).2 ho⟩

/-- What the computation gives is there afterwards, and it gives the same in `z`, with nothing new,
if `z` recalls what it left. -/
def Repeats (z r : Registry) (x : RegistryM α) (there : Registry → α → Prop) : Prop :=
  ∀ a r', x r = .ok a r' → r'.Recalls z → there r' a ∧ x z = .ok a z

/-- An answer is repeated if what it speaks of is still there. -/
theorem Repeats.pure {a : α} {there : Registry → α → Prop} (h : there r a) :
    Repeats z r (Pure.pure a) there := by
  intro b r' hx _
  cases hx
  exact ⟨h, rfl⟩

theorem Repeats.throw {e : Error} {there : Registry → α → Prop} :
    Repeats z r (MonadExcept.throw e) there := by
  intro a r' hx
  cases hx

/-- One computation after the other: what follows is repeated in the registry that the first one
leaves, which recalls the one before it. -/
theorem Repeats.bind {x : RegistryM α} {f : α → RegistryM β} {there : Registry → α → Prop}
    {there' : Registry → β → Prop} (hx : Repeats z r x there) (ho : r.Orderly)
    (hkeeps : Keeps Tidies x) (hnext : ∀ a, Keeps Tidies (f a))
    (hf : ∀ a r', r.Recalls r' → r'.Orderly → there r' a → Repeats z r' (f a) there') :
    Repeats z r (x >>= f) there' := by
  intro b r₂ hboth hr
  obtain ⟨a, r₁, hfirst, hrest⟩ := exists_of_bind hboth
  obtain ⟨hr₁, ho₁⟩ := Tidies.ok hkeeps ho hfirst
  obtain ⟨hthere, hagain⟩ := hx a r₁ hfirst (((hnext a).ok hrest).1.trans hr)
  obtain ⟨hlast, hlastAgain⟩ := hf a r₁ hr₁ ho₁ hthere b r₂ hrest hr
  exact ⟨hlast, (bind_of_ok hagain).trans hlastAgain⟩

/-- A name that was in scope means the same later. -/
theorem Recalls.inScope? (h : r.Recalls z) (ht : r.inScope? name scope = some t) :
    z.inScope? name scope = some t := by
  cases scope with
  | none => cases ht
  | some s => exact h.hosts _ _ ht

/-! ### Names -/

theorem intern_again (ho : r'.Orderly) (hx : intern d r = .ok t r') (hr : r'.Recalls z) :
    r'.Has t ∧ intern d z = .ok t z :=
  ⟨ho.present _ _ (names_of_intern hx), intern_of_known (hr.names _ _ (names_of_intern hx))⟩

theorem repeats_makeArray (ho : r.Orderly) (he : r.Has e) (rank : UInt8) :
    Repeats z r (makeArray e rank) Has := by
  intro t r' hx hr
  obtain ⟨hr', ho'⟩ := Tidies.ok (Building.makeArray e rank) ho hx
  have hsame : z.arrayOf e rank = r.arrayOf e rank := by
    rw [arrayOf, arrayOf, (hr'.trans hr).typeName_eq he]
  rw [makeArray_eq] at hx ⊢
  rw [hsame]
  exact intern_again ho' hx hr

theorem repeats_makeByRef (ho : r.Orderly) (he : r.Has e) : Repeats z r (makeByRef e) Has := by
  intro t r' hx hr
  obtain ⟨hr', ho'⟩ := Tidies.ok (Building.makeByRef e) ho hx
  have hsame : z.byRefOf e = r.byRefOf e := by
    rw [byRefOf, byRefOf, (hr'.trans hr).typeName_eq he]
  rw [makeByRef_eq] at hx ⊢
  rw [hsame]
  exact intern_again ho' hx hr

theorem repeats_makeParameter (ho : r.Orderly) (name : String) :
    Repeats z r (makeParameter name) Has :=
  fun _ _ hx hr ↦ intern_again (Tidies.ok (Building.makeParameter name) ho hx).2 hx hr

/-- An instantiation is found again under its name. -/
theorem repeats_makeInstance (hz : z.Steady) (ho : r.Orderly) {args : List TypeId} (hg : r.Has g)
    (hargs : ∀ a ∈ args, r.Has a) : Repeats z r (makeInstance g args) Has := by
  intro t r' hx hr
  obtain ⟨hr', ho'⟩ := Tidies.ok (Building.makeInstance g args) ho hx
  obtain ⟨harity, hintern⟩ := makeInstance_ok hx
  have hlast := (hr'.trans hr).toExtends
  have hopen := hz.has_openOf hlast hg
  have hsame : z.openOf g = r.openOf g := by rw [openOf, openOf, hlast.type_eq hg]
  have hinstance : z.instanceOf (r.openOf g) args = r.instanceOf (r.openOf g) args := by
    simp only [instanceOf, typeName, hlast.type_eq hopen, ← hlast.map_typeName_eq hargs]
  have hagain : makeInstance g args z = intern (z.instanceOf (z.openOf g) args) z :=
    makeInstance_of_arity (by rw [hsame, hlast.type_eq hopen, harity])
  rw [hagain, hsame, hinstance]
  exact intern_again ho' hintern hr

theorem scoped_of_ofHostType {type : HostType} (hx : ofHostType type r = .ok t r') :
    r'.scoped_[type.scopedName]? = some t := by
  cases hknown : r.scoped_[type.scopedName]? with
  | some u =>
    rw [ofHostType_of_known hknown] at hx
    cases hx
    exact hknown
  | none =>
    obtain ⟨r₁, hok, backed, rfl⟩ := ofHostType_of_new hknown
    rw [hok] at hx
    cases hx
    exact Std.HashMap.getElem?_insert_self

theorem spelled_of_lookup? (hx : lookup? name scope r = .ok (some t) r') : r'.Spelled name t := by
  rcases lookup?_cases hx with ⟨u, hu, rfl, hknown⟩ | ⟨u, type, hu, hname, hmade⟩ | ⟨hu, -⟩
  · cases hu
    rcases (Option.orElse_eq_some _ _ _).mp hknown with hscope | ⟨-, hnamed⟩
    · exact .inr ⟨scope, hscope⟩
    · exact .inl hnamed
  · cases hu
    exact .inr ⟨some type.moduleName, hname ▸ scoped_of_ofHostType hmade⟩
  · cases hu

/-- A name that a registry in order spells belongs to a type that is there. -/
theorem Spelled.has (h : r.Spelled name t) (ho : r.Orderly) : r.Has t := by
  rcases h with hnamed | ⟨scope, hscope⟩
  · exact ho.present _ _ hnamed
  · exact has_of_inScope? ho hscope

theorem Spelled.names_of_recalls (h : r.Spelled name t) (hr : r.Recalls z) (hz : z.Unambiguous) :
    z.names[name]? = some t := by
  rcases h with hnamed | ⟨scope, hscope⟩
  · exact hr.names _ _ hnamed
  · exact hz.hosts name scope t (hr.inScope? hscope)

/-- What a name is resolved to goes by the name, or by the name with pluses for its slashes. -/
theorem resolveIn_cases (hx : resolveIn name scope r = .ok t r') : r'.Spelled name t ∨
    name.any (· == '/') = true ∧ r'.Spelled (name.map fun c ↦ if c = '/' then '+' else c) t := by
  obtain ⟨found, r₁, hlook, hrest⟩ := exists_of_bind hx
  cases found with
  | some u =>
    cases hrest
    exact .inl (spelled_of_lookup? hlook)
  | none =>
    cases hslash : name.any (· == '/') with
    | false =>
      simp only [hslash] at hrest
      cases hrest
    | true =>
      simp only [hslash, if_true] at hrest
      obtain ⟨second, r₂, hlook₂, hrest₂⟩ := exists_of_bind hrest
      cases second with
      | none => cases hrest₂
      | some u =>
        cases hrest₂
        exact .inr ⟨rfl, spelled_of_lookup? hlook₂⟩

/-- A name with a slash means what the name of the nested type means. -/
theorem Steady.resolveIn_of_nested (hz : z.Steady) (hslash : name.any (· == '/') = true)
    (ht : z.names[name.map fun c ↦ if c = '/' then '+' else c]? = some t) :
    resolveIn name scope z = .ok t z := by
  cases hknown : z.names[name]? with
  | some u =>
    cases hz.nested name u t hknown ht
    exact bind_of_ok (hz.lookup? hknown scope)
  | none =>
    have hunknown : (z.inScope? name scope <|> z.names[name]?) = none := by
      cases hscope : z.inScope? name scope with
      | none => exact hknown
      | some u => cases hknown.symm.trans (hz.hosts name scope u hscope)
    have hfind : HostLibrary.find? z.host.toList name scope = none := by
      by_contra hsome
      obtain ⟨type, htype⟩ := Option.ne_none_iff_exists'.mp hsome
      obtain ⟨m, hm, hmem⟩ := mem_of_find? htype
      refine hz.slashless m (Array.mem_toList_iff.mp hm) type hmem ?_
      rw [fullName_of_find? htype]
      rw [String.any, String.contains_bool_eq] at hslash
      simpa using hslash
    refine (bind_of_ok (lookup?_of_none hunknown hfind)).trans ?_
    simp only [hslash, if_true]
    exact bind_of_ok (hz.lookup? ht scope)

theorem repeats_resolveIn (hz : z.Steady) (ho : r.Orderly) (name : String) (scope : Option String) :
    Repeats z r (resolveIn name scope) Has := by
  intro t r' hx hr
  obtain ⟨-, ho'⟩ := Tidies.ok (grows_resolveIn name scope) ho hx
  rcases resolveIn_cases hx with hspelled | ⟨hslash, hspelled⟩
  · have hnamed := hspelled.names_of_recalls hr hz.toUnambiguous
    exact ⟨hspelled.has ho', bind_of_ok (hz.lookup? hnamed scope)⟩
  · have hnamed := hspelled.names_of_recalls hr hz.toUnambiguous
    exact ⟨hspelled.has ho', hz.resolveIn_of_nested hslash hnamed⟩

/-- A definition is found again by its token. -/
theorem repeats_definedType (ho : r.Orderly) (id : ModuleId) (token : Token) :
    Repeats z r (definedType id token) Has := by
  intro t r' hx hr
  rw [definedType, ask_bind] at hx ⊢
  cases hknown : r.definitions[Reference.mk id token]? with
  | none =>
    rw [hknown] at hx
    cases hx
  | some u =>
    rw [hknown] at hx
    cases hx
    rw [hr.definitions _ _ hknown]
    exact ⟨ho.present _ _ (ho.defined _ _ hknown), rfl⟩

/-! ### Signatures -/

/-- What is wrapped around a type is wrapped around it again. -/
theorem repeats_wrapAround {wrap : TypeId → RegistryM TypeId} {part : Resolution} (closed : Bool)
    (ho : r.Orderly) (hkeeps : ∀ t, Keeps Tidies (wrap t))
    (hwrap : ∀ t, r.Has t → Repeats z r (wrap t) Has) (hpart : r.Bears part) :
    Repeats z r (wrapAround wrap closed part) Bears := by
  cases part with
  | fixed t =>
    exact (hwrap t (hpart t rfl)).bind ho (hkeeps t) (fun _ ↦ .pure _) fun t' _ _ _ ht' ↦
      .pure (bears_of_type? (Resolution.type?_make t' closed) ht')
  | dependent t =>
    exact (hwrap t (hpart t rfl)).bind ho (hkeeps t) (fun _ ↦ .pure _) fun _ _ _ _ ht' ↦
      .pure (bears_of_type? rfl ht')
  | unbound name => exact .pure bears_unbound

mutual

/-- By induction on the signature: its parts are repeated one after the other. -/
theorem repeats_resolveSignature (hz : z.Steady) (home : ModuleId) : (s : Signature) →
    {r : Registry} → r.Orderly → r.HasContext c → Repeats z r (resolveSignature home c s) Bears
  | .definition token, r, ho, _ => by
    unfold resolveSignature
    exact (repeats_definedType ho home token).bind ho (grows_definedType home token)
      (fun _ ↦ .pure _) fun _ _ _ _ ht ↦ .pure (bears_of_type? rfl ht)
  | .named name scope, r, ho, _ => by
    unfold resolveSignature
    exact (repeats_resolveIn hz ho name scope).bind ho (grows_resolveIn name scope)
      (fun _ ↦ .pure _) fun _ _ _ _ ht ↦ .pure (bears_of_type? rfl ht)
  | .parameter name, r, _, hc => by
    intro found r' hx hr
    unfold resolveSignature at hx ⊢
    rw [ask_bind] at hx ⊢
    cases hfind : c.find? r name with
    | none =>
      rw [hfind] at hx
      cases hx
      rw [hr.find?_eq hc, hfind]
      exact ⟨bears_unbound, rfl⟩
    | some t =>
      rw [hfind] at hx
      cases hx
      rw [hr.find?_eq hc, hfind]
      exact ⟨bears_of_type? rfl (hz.has_of_find? hr.toExtends hc hfind), rfl⟩
  | .byRef inner, r, ho, hc => by
    rw [resolveSignature_byRef]
    exact (repeats_resolveSignature hz home inner ho hc).bind ho
      (grows_resolveSignature home c inner) (grows_wrapAround _ Building.makeByRef)
      fun _ _ _ ho₁ hpart ↦ repeats_wrapAround _ ho₁ Building.makeByRef
        (fun _ ht ↦ repeats_makeByRef ho₁ ht) hpart
  | .array element rank, r, ho, hc => by
    rw [resolveSignature_array]
    have hkeeps (t : TypeId) : Keeps Tidies (makeArray t rank) := Building.makeArray t rank
    exact (repeats_resolveSignature hz home element ho hc).bind ho
      (grows_resolveSignature home c element) (grows_wrapAround _ hkeeps)
      fun _ _ _ ho₁ hpart ↦ repeats_wrapAround _ ho₁ hkeeps
        (fun _ ht ↦ repeats_makeArray ho₁ ht rank) hpart
  | .instantiation head args, r, ho, hc => by
    unfold resolveSignature
    have hmake (t : TypeId) (found : List TypeId × Bool) : Keeps (ε := Error) Tidies (do
        let made ← makeInstance t found.1
        return Resolution.make made (found.2 && !(Signature.instantiation head args).isOpen)) :=
      (Building.makeInstance t found.1).bind fun _ ↦ .pure _
    refine (repeats_resolveSignature hz home head ho hc).bind ho
      (grows_resolveSignature home c head) (fun part ↦ ?_) fun part r₁ hr₁ ho₁ hpart ↦ ?_
    · cases part with
      | unbound name => exact .pure _
      | fixed t | dependent t => exact (grows_resolveArguments home c args).bind (hmake t)
    · cases part with
      | unbound name => exact .pure bears_unbound
      | fixed t | dependent t =>
        exact (repeats_resolveArguments hz home args ho₁ (hr₁.hasContext hc)).bind ho₁
          (grows_resolveArguments home c args) (hmake t) fun found r₂ hr₂ ho₂ hthere ↦
            (repeats_makeInstance hz ho₂ (hr₂.has (hpart t rfl)) hthere).bind ho₂
              (Building.makeInstance t found.1) (fun _ ↦ .pure _) fun made _ _ _ hmade ↦
                .pure (bears_of_type? (Resolution.type?_make made _) hmade)
  | .pointer inner, r, _, _ => by
    unfold resolveSignature
    exact .throw
  | .functionPointer, r, _, _ => by
    unfold resolveSignature
    exact .throw

/-- Arguments are repeated one after the other. -/
theorem repeats_resolveArguments (hz : z.Steady) (home : ModuleId) : (args : List Signature) →
    {r : Registry} → r.Orderly → r.HasContext c →
    Repeats z r (resolveArguments home c args) fun r found ↦ ∀ t ∈ found.1, r.Has t
  | [], r, _, _ => by
    unfold resolveArguments
    exact .pure (List.forall_mem_nil _)
  | s :: rest, r, ho, hc => by
    unfold resolveArguments
    have hkeeps (first : TypeId × Bool) : Keeps (ε := Error) Tidies (do
        let (ts, restFixed) ← resolveArguments home c rest
        return (first.1 :: ts, first.2 && restFixed)) :=
      (grows_resolveArguments home c rest).bind fun _ ↦ .pure _
    have hrest (r₁ : Registry) (hr₁ : r.Recalls r₁) (ho₁ : r₁.Orderly) (first : TypeId × Bool)
        (ht : r₁.Has first.1) :
        Repeats z r₁ (do
            let (ts, restFixed) ← resolveArguments home c rest
            return (first.1 :: ts, first.2 && restFixed))
          fun r found ↦ ∀ t ∈ found.1, r.Has t :=
      (repeats_resolveArguments hz home rest ho₁ (hr₁.hasContext hc)).bind ho₁
        (grows_resolveArguments home c rest) (fun _ ↦ .pure _) fun _ _ hr₂ _ hts ↦
          .pure (List.forall_mem_cons.mpr ⟨hr₂.has ht, hts⟩)
    refine (repeats_resolveSignature hz home s ho hc).bind ho (grows_resolveSignature home c s)
      (fun part ↦ ?_) fun part r₁ hr₁ ho₁ hpart ↦ ?_
    · cases part with
      | fixed t => exact hkeeps (t, true)
      | dependent t => exact hkeeps (t, false)
      | unbound name => exact (Building.makeParameter name).bind fun t ↦ hkeeps (t, false)
    · cases part with
      | fixed t => exact hrest r₁ hr₁ ho₁ (t, true) (hpart t rfl)
      | dependent t => exact hrest r₁ hr₁ ho₁ (t, false) (hpart t rfl)
      | unbound name =>
        exact (repeats_makeParameter ho₁ name).bind ho₁ (Building.makeParameter name)
          (fun t ↦ hkeeps (t, false)) fun t r₂ hr₂ ho₂ ht ↦
            hrest r₂ (hr₁.trans hr₂) ho₂ (t, false) ht

end

end Registry

end ManagedMachine
