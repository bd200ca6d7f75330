import ManagedMachine.Proofs.ResolvedNames
import ManagedMachine.Proofs.TokenCaching

/-!
# Declared methods

The methods of a type are made from its rows when they are first asked for, in the order of the
rows, and are the methods of the type from then on. Each belongs to the type, is open in its own
parameters and takes what its row says, as it was resolved at the time. `Registry.Curated` says so
of a registry; every operation leads from a curated registry to a curated one that recalls what the
first one knew, so every registry that is reached is curated. Modules may be loaded on the way,
which is why this is told apart from `Registry.Later`.

Methods are written to the registry in one place (`methodsOf_of_new`), when those of a type are not
known yet, and are read from it in all others. The classes of functions are the ones of
`RegistryGrowth` (`Spells`, `Curates` and what lies between them), and each function is put into one
of them by the lemmas for its parts.
-/

set_option autoImplicit false
set_option relaxedAutoImplicit false

namespace ManagedMachine

namespace Registry

variable {r r' r'' : Registry} {t : TypeId} {id : MethodId} {ids : List MethodId} {home : Home}
  {row : Token × MethodDef} {α : Type}

/-! ### Recalling -/

/-- The second registry answers what the first one has found out, and knows its types, methods,
names and definitions. It may have more modules. -/
structure Recalls (r r' : Registry) : Prop extends Extends r r' where
  hosts : ∀ (name : String) t, r.scoped_[name]? = some t → r'.scoped_[name]? = some t
  bases : ∀ (t : TypeId) b, r.facts.bases[t]? = some b → r'.facts.bases[t]? = some b
  declared : ∀ (t : TypeId) ids, r.facts.methods[t]? = some ids → r'.facts.methods[t]? = some ids
  definitions : ∀ (ref : Reference) t, r.definitions[ref]? = some t → r'.definitions[ref]? = some t

theorem Recalls.refl (r : Registry) : r.Recalls r :=
  ⟨.refl r, fun _ _ h ↦ h, fun _ _ h ↦ h, fun _ _ h ↦ h, fun _ _ h ↦ h⟩

theorem Recalls.trans (h : r.Recalls r') (h' : r'.Recalls r'') : r.Recalls r'' where
  toExtends := h.toExtends.trans h'.toExtends
  hosts _ _ ht := h'.hosts _ _ (h.hosts _ _ ht)
  bases _ _ hb := h'.bases _ _ (h.bases _ _ hb)
  declared _ _ hids := h'.declared _ _ (h.declared _ _ hids)
  definitions _ _ ht := h'.definitions _ _ (h.definitions _ _ ht)

theorem Later.recalls (h : r.Later r') : r.Recalls r' where
  toExtends := h.toExtends
  hosts := h.hosts
  bases := h.bases
  declared := h.declared
  definitions _ _ ht := h.definitions ▸ ht

/-! ### Types by name find out nothing -/

/-- Interning adds a type and its name, and finds nothing out. -/
theorem spells_intern (d : Descriptor) : Keeps Spells (intern d) := by
  intro r
  cases hknown : r.names[d.name]? with
  | some t =>
    rw [endState_ok (intern_of_known hknown)]
    exact Forward.refl r
  | none =>
    rw [endState_ok (intern_of_new hknown)]
    exact
      { types := fun _ _ h ↦ getElem?_push_of_some h, methods := fun _ _ h ↦ h
        names := fun _ _ h ↦ getElem?_insertIfNew_of_some h, layouts := fun _ _ h ↦ h
        hosts := fun _ _ h ↦ h, bases := fun _ _ h ↦ h, declared := fun _ _ h ↦ h
        instances := fun _ _ h ↦ h, definitions := rfl, modules := rfl, host := rfl, tokens := rfl
        facts := rfl }

/-- The same of a type of the host. -/
theorem spells_ofHostType (type : HostType) : Keeps Spells (ofHostType type) := by
  intro r
  cases hknown : r.scoped_[type.scopedName]? with
  | some t =>
    rw [endState_ok (ofHostType_of_known hknown)]
    exact Forward.refl r
  | none =>
    obtain ⟨r', hok, backed, rfl⟩ := ofHostType_of_new hknown
    rw [endState_ok hok]
    exact
      { types := fun _ _ h ↦ getElem?_push_of_some h, methods := fun _ _ h ↦ h
        names := fun _ _ h ↦ getElem?_insertIfNew_of_some h, layouts := fun _ _ h ↦ h
        hosts := fun _ _ h ↦ getElem?_insert_of_some hknown h, bases := fun _ _ h ↦ h
        declared := fun _ _ h ↦ h, instances := fun _ _ h ↦ h, definitions := rfl, modules := rfl
        host := rfl, tokens := rfl, facts := rfl }

instance : Building Spells where
  refl := Forward.refl
  trans _ _ _ := Forward.trans
  makeArray e rank r := by
    rw [endState, makeArray_eq]
    exact spells_intern _ r
  makeByRef e r := by
    rw [endState, makeByRef_eq]
    exact spells_intern _ r
  makeParameter name := spells_intern _
  makeInstance t args r := by
    by_cases harity : (r.type (r.openOf t)).generics.length = args.length
    · rw [endState, makeInstance_of_arity harity]
      exact spells_intern _ r
    · obtain ⟨e, he⟩ := makeInstance_of_mismatch harity
      rw [endState_error he]
      exact Forward.refl r
  ofHostType := spells_ofHostType

theorem spells_resolve (name : String) : Keeps Spells (resolve name) := by
  unfold resolve
  refine (grows_ask _).bind fun known ↦ ?_
  split
  · exact .pure _
  · split
    · exact .throw _
    · refine (grows_resolveParsed _).bind fun t ↦ Keeps.seqRight (.modify fun r ↦ ?_) (.pure t)
      exact
        { types := fun _ _ h ↦ h, methods := fun _ _ h ↦ h
          names := fun _ _ h ↦ getElem?_insertIfNew_of_some h, layouts := fun _ _ h ↦ h
          hosts := fun _ _ h ↦ h, bases := fun _ _ h ↦ h, declared := fun _ _ h ↦ h
          instances := fun _ _ h ↦ h, definitions := rfl, modules := rfl, host := rfl, tokens := rfl
          facts := rfl }

/-! ### Curated registries -/

/-- The method is one that a type declares: it belongs to the type and instantiates nothing. -/
structure Declares (r : Registry) (t : TypeId) (id : MethodId) : Prop where
  type : r.Has t
  method : r.HasMethod id
  declaring : (r.method id).declaring = t
  args : (r.method id).args = []
  definition : (r.method id).definition = none

/-- The computation gave the value in some earlier registry, where the type was there. -/
def Gave (r : Registry) (t : TypeId) (x : RegistryM α) (a : α) : Prop :=
  ∃ r₁ r₂, r₁.Orderly ∧ r₁.Has t ∧ x r₁ = .ok a r₂ ∧ r₂.Recalls r

theorem Gave.recalls {x : RegistryM α} {a : α} (h : r.Gave t x a) (hr : r.Recalls r') :
    r'.Gave t x a := by
  obtain ⟨r₁, r₂, ho, ht, hx, hlast⟩ := h
  exact ⟨r₁, r₂, ho, ht, hx, hlast.trans hr⟩

/-- The method of a type that was made from a row: what it takes and returns is what the row says,
as it was resolved at the time. -/
structure MadeFrom (r : Registry) (t : TypeId) (home : Home) (row : Token × MethodDef)
    (id : MethodId) : Prop where
  name : (r.method id).name = row.2.name
  flags : (r.method id).flags = row.2.flags
  generics : (r.method id).generics = row.2.generics
  params : r.Gave t (resolveTypes home.id (.ofType t) row.2.params) (r.method id).params
  ret : r.Gave t (resolveType home.id (.ofType t) row.2.ret) (r.method id).ret

/-- Names are in order, definitions belong to modules that are loaded, and the methods of a type are
those that it declares, made from its rows in order. A type that was asked for its methods before it
was there has none. -/
structure Curated (r : Registry) : Prop where
  orderly : r.Orderly
  listed : r.Listed
  filed : ∀ (ref : Reference) t, r.definitions[ref]? = some t → ref.module.index < r.modules.size
  declared : ∀ (t : TypeId) ids, r.facts.methods[t]? = some ids → ∀ id ∈ ids, r.Declares t id
  rows : ∀ (t : TypeId) ids home token, r.facts.methods[t]? = some ids →
    (r.type t).shape = .interpreted home token → ids ≠ [] →
    ∃ rows, home.content.methodsOf token = .ok rows ∧ List.Forall₂ (r.MadeFrom t home) rows ids

theorem curated_empty : empty.Curated where
  orderly := orderly_empty
  listed := listed_empty
  filed _ _ h := nomatch Std.HashMap.getElem?_empty.symm.trans h
  declared _ _ h := nomatch Std.HashMap.getElem?_empty.symm.trans h
  rows _ _ _ _ h := nomatch Std.HashMap.getElem?_empty.symm.trans h

theorem Declares.of_extends (h : r.Declares t id) (hr : r.Extends r') : r'.Declares t id := by
  have hmethod := hr.method_eq h.method
  exact ⟨hr.has h.type, hr.hasMethod h.method, hmethod ▸ h.declaring, hmethod ▸ h.args,
    hmethod ▸ h.definition⟩

theorem MadeFrom.recalls (h : r.MadeFrom t home row id) (hid : r.HasMethod id)
    (hr : r.Recalls r') : r'.MadeFrom t home row id := by
  have hmethod := hr.method_eq hid
  exact ⟨hmethod ▸ h.name, hmethod ▸ h.flags, hmethod ▸ h.generics, hmethod ▸ h.params.recalls hr,
    hmethod ▸ h.ret.recalls hr⟩

/-- The methods of a type stay made from its rows. -/
theorem madeFrom_recalls {rows : List (Token × MethodDef)}
    (h : List.Forall₂ (r.MadeFrom t home) rows ids) (hids : ∀ id ∈ ids, r.Declares t id)
    (hr : r.Recalls r') : List.Forall₂ (r'.MadeFrom t home) rows ids := by
  induction h with
  | nil => exact .nil
  | cons hid _ ih =>
    rw [List.forall_mem_cons] at hids
    exact .cons (hid.recalls hids.1.method hr) (ih hids.2)

/-- A registry that recalls a curated one is curated if no type has been asked for its methods. -/
theorem Curated.recalls (h : r.Curated) (hr : r.Recalls r') (hl : r.Lists r')
    (hfiled : ∀ (ref : Reference) t, r'.definitions[ref]? = some t →
      ref.module.index < r'.modules.size)
    (hmethods : r'.facts.methods = r.facts.methods) : r'.Curated where
  orderly := hl.upholds.2 h.orderly
  listed := hl.listed h.orderly h.listed
  filed := hfiled
  declared t ids hids id hid := (h.declared t ids (hmethods ▸ hids) id hid).of_extends hr.toExtends
  rows t ids home token hids hshape hne := by
    rw [hmethods] at hids
    have hdeclared := h.declared t ids hids
    obtain ⟨id, hid⟩ := List.exists_mem_of_ne_nil ids hne
    rw [hr.type_eq (hdeclared id hid).type] at hshape
    obtain ⟨owner, howner, hmade⟩ := h.rows t ids home token hids hshape hne
    exact ⟨owner, howner, madeFrom_recalls hmade hdeclared hr⟩

/-! ### Every operation keeps registries curated -/

/-- From a curated registry to a curated one that recalls it. -/
def Curates (r r' : Registry) : Prop := r.Curated → r.Recalls r' ∧ r'.Curated

theorem curates_of_spells {x : RegistryM α} (hs : Keeps Spells x) (hl : Keeps Lists x) :
    Keeps Curates x := by
  intro r h
  have hspells := hs r
  have hrecalls := hspells.toLater.recalls
  refine ⟨hrecalls, h.recalls hrecalls (hl r) (fun ref t ht ↦ ?_) (hspells.facts ▸ rfl)⟩
  rw [hspells.modules]
  exact h.filed ref t (hspells.definitions ▸ ht)

/-- What is noted apart from bases and methods does not matter to the methods of types. -/
theorem curates_of_notes (hn : Notes r r') (hbases : r'.facts.bases = r.facts.bases)
    (hdeclared : r'.facts.methods = r.facts.methods) : Curates r r' := by
  intro h
  have hl : r.Lists r' := Growth.notes hn
  have hrecalls : r.Recalls r' :=
    ⟨hl.upholds.1, fun _ _ ht ↦ hn.scoped_ ▸ ht, fun _ _ hb ↦ hbases ▸ hb,
      fun _ _ hids ↦ hdeclared ▸ hids, fun _ _ ht ↦ hn.definitions ▸ ht⟩
  refine ⟨hrecalls, h.recalls hrecalls hl (fun ref t ht ↦ ?_) hdeclared⟩
  rw [hn.modules]
  exact h.filed ref t (hn.definitions ▸ ht)

instance : Noting Curates where
  refl r h := ⟨.refl r, h⟩
  trans _ _ _ h h' hc := by
    obtain ⟨hr, hc'⟩ := h hc
    obtain ⟨hr', hc''⟩ := h' hc'
    exact ⟨hr.trans hr', hc''⟩
  makeArray e rank := curates_of_spells (Building.makeArray e rank) (Building.makeArray e rank)
  makeByRef e := curates_of_spells (Building.makeByRef e) (Building.makeByRef e)
  makeParameter s := curates_of_spells (Building.makeParameter s) (Building.makeParameter s)
  makeInstance t args :=
    curates_of_spells (Building.makeInstance t args) (Building.makeInstance t args)
  ofHostType type := curates_of_spells (Building.ofHostType type) (Building.ofHostType type)
  resolve name := curates_of_spells (spells_resolve name) (grows_resolve name)
  resolveString home token := by
    intro r h
    have hl : r.Lists (endState (resolveString home token) r) := grows_resolveString home token r
    obtain ⟨strings, texts, hend⟩ := endState_resolveString r home token
    rw [hend] at hl ⊢
    have hrecalls : r.Recalls { r with strings, tokens := { r.tokens with strings := texts } } :=
      ⟨hl.upholds.1, fun _ _ h ↦ h, fun _ _ h ↦ h, fun _ _ h ↦ h, fun _ _ h ↦ h⟩
    exact ⟨hrecalls, h.recalls hrecalls hl h.filed rfl⟩
  quiet hq := curates_of_notes hq.toNotes hq.bases hq.declared

theorem Curates.ok {x : RegistryM α} (hx : Keeps Curates x) (h : r.Curated) {a : α}
    (hok : x r = .ok a r') : r.Recalls r' ∧ r'.Curated := hx.ok hok h

theorem method_of_addMethod {m : Method} (hx : addMethod m r = .ok id r') (hr : r'.Recalls r'') :
    r''.HasMethod id ∧ r''.method id = m := by
  cases hx
  have hid : HasMethod { r with methods := r.methods.push m } ⟨r.methods.size⟩ := by
    simp [HasMethod]
  refine ⟨hr.hasMethod hid, ?_⟩
  rw [hr.method_eq hid]
  simp [Registry.method]

/-- The methods that are made from rows, one after the other. -/
theorem madeFrom_addDefinedMethods (home : Home) : (rows : List (Token × MethodDef)) →
    {r r' : Registry} → {ids : List MethodId} → r.Curated → r.Has t →
    addDefinedMethods home t rows r = .ok ids r' →
    List.Forall₂ (r'.MadeFrom t home) rows ids ∧ ∀ id ∈ ids, r'.Declares t id
  | [], _, _, _, _, _, hx => by
    cases hx
    exact ⟨.nil, List.forall_mem_nil _⟩
  | (token, d) :: rest, r, r', _, h, ht, hx => by
    obtain ⟨params, r₁, hparams, hx⟩ := exists_of_bind hx
    obtain ⟨ret, r₂, hret, hx⟩ := exists_of_bind hx
    obtain ⟨id, r₃, hadd, hx⟩ := exists_of_bind hx
    obtain ⟨others, r₄, hrest, hx⟩ := exists_of_bind hx
    obtain ⟨hr₁, h₁⟩ := Curates.ok (grows_resolveTypes home.id (.ofType t) d.params) h hparams
    obtain ⟨hr₂, h₂⟩ := Curates.ok (grows_resolveType home.id (.ofType t) d.ret) h₁ hret
    obtain ⟨hr₃, h₃⟩ := Curates.ok (grows_addMethod _) h₂ hadd
    obtain ⟨hr₄, -⟩ := Curates.ok (grows_addDefinedMethods home t rest) h₃ hrest
    have ht₃ : r₃.Has t := (hr₁.trans (hr₂.trans hr₃)).has ht
    obtain ⟨hmade, hdeclared⟩ := madeFrom_addDefinedMethods home rest h₃ ht₃ hrest
    obtain ⟨hid, hmethod⟩ := method_of_addMethod hadd hr₄
    cases hx
    have hthis : r'.MadeFrom t home (token, d) id :=
      { name := by rw [hmethod], flags := by rw [hmethod], generics := by rw [hmethod]
        params := ⟨r, r₁, h.orderly, ht, by rw [hmethod]; exact hparams, hr₂.trans (hr₃.trans hr₄)⟩
        ret := ⟨r₁, r₂, h₁.orderly, hr₁.has ht, by rw [hmethod]; exact hret, hr₃.trans hr₄⟩ }
    exact ⟨.cons hthis hmade, List.forall_mem_cons.mpr
      ⟨⟨hr₄.has ht₃, hid, by rw [hmethod], by rw [hmethod], by rw [hmethod]⟩, hdeclared⟩⟩

/-- Host methods are added one after the other, each as a declaration of the type. -/
theorem declares_addHostMethods (type : HostType) : (methods : List HostMethod) →
    {r r' : Registry} → {ids : List MethodId} → r.Curated → r.Has t →
    addHostMethods type t methods r = .ok ids r' → ∀ id ∈ ids, r'.Declares t id
  | [], _, _, _, _, _, hx => by
    cases hx
    exact List.forall_mem_nil _
  | m :: rest, r, r', _, h, ht, hx => by
    obtain ⟨params, r₁, hparams, hx⟩ := exists_of_bind hx
    obtain ⟨ret, r₂, hret, hx⟩ := exists_of_bind hx
    obtain ⟨id, r₃, hadd, hx⟩ := exists_of_bind hx
    obtain ⟨others, r₄, hrest, hx⟩ := exists_of_bind hx
    obtain ⟨hr₁, h₁⟩ :=
      Curates.ok (Keeps.mapM (grows_hostSignature t type m.generics []) m.params) h
      hparams
    obtain ⟨hr₂, h₂⟩ := Curates.ok (grows_hostSignature t type m.generics [] m.ret) h₁ hret
    obtain ⟨hr₃, h₃⟩ := Curates.ok (grows_addMethod _) h₂ hadd
    obtain ⟨hr₄, -⟩ := Curates.ok (grows_addHostMethods type t rest) h₃ hrest
    have ht₃ : r₃.Has t := (hr₁.trans (hr₂.trans hr₃)).has ht
    have hdeclared := declares_addHostMethods type rest h₃ ht₃ hrest
    obtain ⟨hid, hmethod⟩ := method_of_addMethod hadd hr₄
    cases hx
    exact List.forall_mem_cons.mpr
      ⟨⟨hr₄.has ht₃, hid, by rw [hmethod], by rw [hmethod], by rw [hmethod]⟩, hdeclared⟩

/-- The methods of a type are made when they are first asked for. -/
def declare (t : TypeId) : Shape → RegistryM (List MethodId)
  | .interpreted home token => do
    let rows ← lift fun _ => home.content.methodsOf token
    addDefinedMethods home t rows
  | .native type => addHostMethods type t type.methods
  | _ => pure []

/-- What happens when the methods of a type are asked for the first time. -/
theorem methodsOf_of_new (h : r.facts.methods[t]? = none) :
    methodsOf t r = (declare t (r.type t).shape >>= fun found ↦ do
      modify fun r => { r with facts := { r.facts with methods := r.facts.methods.insert t found } }
      return found) r := by
  rw [methodsOf, ask_bind, h]
  dsimp only
  rw [ask_bind]
  cases (r.type t).shape with
  | interpreted home token =>
    rw [declare, bind_assoc]
  | native _ | array _ _ | byRef _ | parameter => rfl

/-- A type that is not there has the shape of a stand-in. -/
theorem has_of_shape (h : (r.type t).shape ≠ .parameter) : r.Has t := by
  by_contra habsent
  refine h ?_
  rw [Registry.type, Array.getD_eq_getD_getElem?, Array.getElem?_eq_none (Nat.le_of_not_lt habsent)]
  rfl

theorem grows_declare {R : Registry → Registry → Prop} [Noting R] (t : TypeId) (shape : Shape) :
    Keeps R (declare t shape) := by
  unfold declare
  split
  · exact (grows_lift _).bind fun _ ↦ grows_addDefinedMethods _ _ _
  · exact grows_addHostMethods _ _ _
  · exact .pure []

/-- What a type declares, as it was made. -/
theorem declare_ok (h : r.Curated) (hx : declare t (r.type t).shape r = .ok ids r') :
    (∀ id ∈ ids, r'.Declares t id) ∧
      ∀ home token, (r'.type t).shape = .interpreted home token →
        ∃ rows, home.content.methodsOf token = .ok rows ∧
          List.Forall₂ (r'.MadeFrom t home) rows ids := by
  obtain ⟨hrecalls, -⟩ := Curates.ok (grows_declare _ _) h hx
  cases hshape : (r.type t).shape with
  | interpreted home token =>
    have ht : r.Has t := has_of_shape (hshape ▸ nofun)
    rw [hrecalls.type_eq ht, hshape]
    rw [hshape] at hx
    obtain ⟨rows, r₁, hlift, hadded⟩ := exists_of_bind hx
    obtain ⟨hrows, rfl⟩ := ok_of_lift hlift
    obtain ⟨hmade, hdeclared⟩ := madeFrom_addDefinedMethods home _ h ht hadded
    refine ⟨hdeclared, fun home' token' heq ↦ ?_⟩
    cases heq
    exact ⟨rows, hrows, hmade⟩
  | native type =>
    have ht : r.Has t := has_of_shape (hshape ▸ nofun)
    rw [hrecalls.type_eq ht, hshape]
    rw [hshape] at hx
    exact ⟨declares_addHostMethods type _ h ht hx, nofun⟩
  | array _ _ | byRef _ | parameter =>
    rw [hshape] at hx
    cases hx
    rw [hshape]
    exact ⟨List.forall_mem_nil _, nofun⟩

/-- A type that has not been asked for its methods is given those that it declares. -/
theorem Curated.withMethods (h : r.Curated) (hnew : r.facts.methods[t]? = none)
    (hdeclared : ∀ id ∈ ids, r.Declares t id)
    (hrows : ∀ home token, (r.type t).shape = .interpreted home token →
      ∃ rows, home.content.methodsOf token = .ok rows ∧ List.Forall₂ (r.MadeFrom t home) rows ids) :
    r.Recalls { r with facts := { r.facts with methods := r.facts.methods.insert t ids } } ∧
      Curated { r with facts := { r.facts with methods := r.facts.methods.insert t ids } } := by
  have hfiles :
      r.Files { r with facts := { r.facts with methods := r.facts.methods.insert t ids } } :=
    ⟨rfl, rfl, rfl, rfl, fun _ _ hm ↦ hm, fun _ _ hl ↦ hl⟩
  have hrecalls :
      r.Recalls { r with facts := { r.facts with methods := r.facts.methods.insert t ids } } :=
    ⟨hfiles.extends, fun _ _ h ↦ h, fun _ _ h ↦ h, fun _ _ h ↦ getElem?_insert_of_some hnew h,
      fun _ _ h ↦ h⟩
  refine ⟨hrecalls, h.orderly.files hfiles, h.listed.files hfiles, h.filed, ?_, ?_⟩
  · intro u ids' hids'
    rcases getElem?_insert_cases hids' with hold | ⟨rfl, rfl⟩
    · exact fun id hid ↦ (h.declared u ids' hold id hid).of_extends hrecalls.toExtends
    · exact fun id hid ↦ (hdeclared id hid).of_extends hrecalls.toExtends
  · intro u ids' home token hids' hshape hne
    rcases getElem?_insert_cases hids' with hold | ⟨rfl, rfl⟩
    · obtain ⟨owner, howner, hmade⟩ := h.rows u ids' home token hold hshape hne
      exact ⟨owner, howner, madeFrom_recalls hmade (h.declared u ids' hold) hrecalls⟩
    · obtain ⟨owner, howner, hmade⟩ := hrows home token hshape
      exact ⟨owner, howner, madeFrom_recalls hmade hdeclared hrecalls⟩

theorem baseType_of_new (h : r.facts.bases[t]? = none) :
    baseType t r = (findBase t (r.type t) >>= fun base ↦ do
      modify fun r => { r with facts := { r.facts with bases := r.facts.bases.insert t base } }
      return base) r := by
  rw [baseType, ask_bind, h]
  rfl

/-- Nothing but names and types is new when a base type was found. -/
theorem curates_baseType (t : TypeId) : Keeps Curates (baseType t) := by
  intro r h
  cases hknown : r.facts.bases[t]? with
  | some base =>
    rw [endState_ok (baseType_of_known hknown)]
    exact ⟨.refl r, h⟩
  | none =>
    have hnew := baseType_of_new hknown
    cases hfind : findBase t (r.type t) r with
    | error e r₁ =>
      rw [endState_error (hnew.trans (bind_of_error hfind))]
      exact Keeps.error (R := Curates) (grows_findBase t (r.type t)) hfind h
    | ok base r₁ =>
      have hspells : r.Spells r₁ := Keeps.ok (grows_findBase t (r.type t)) hfind
      obtain ⟨hrecalls, hc⟩ := Curates.ok (grows_findBase t (r.type t)) h hfind
      have hthere : r₁.facts.bases[t]? = none := hspells.facts ▸ hknown
      have hend : baseType t r = .ok base
          { r₁ with facts := { r₁.facts with bases := r₁.facts.bases.insert t base } } :=
        hnew.trans ((bind_of_ok hfind).trans rfl)
      have hfiles :
          r₁.Files { r₁ with facts := { r₁.facts with bases := r₁.facts.bases.insert t base } } :=
        ⟨rfl, rfl, rfl, rfl, fun _ _ hm ↦ hm, fun _ _ hl ↦ hl⟩
      have hlast :
          r₁.Recalls { r₁ with facts := { r₁.facts with bases := r₁.facts.bases.insert t base } } :=
        ⟨hfiles.extends, fun _ _ h ↦ h, fun _ _ h ↦ getElem?_insert_of_some hthere h,
          fun _ _ h ↦ h, fun _ _ h ↦ h⟩
      have hlists :
          r₁.Lists { r₁ with facts := { r₁.facts with bases := r₁.facts.bases.insert t base } } :=
        ⟨⟨hfiles.extends, fun h ↦ h.files hfiles⟩, fun _ h ↦ h.files hfiles⟩
      rw [endState_ok hend]
      exact ⟨hrecalls.trans hlast, hc.recalls hlast hlists hc.filed rfl⟩

/-- No type was asked for its methods in between. -/
def Unasking (r r' : Registry) : Prop := r'.facts.methods = r.facts.methods

theorem unasking_of_spells {x : RegistryM α} (hx : Keeps Spells x) : Keeps Unasking x :=
  hx.mono fun _ _ h ↦ congrArg FactTable.methods h.facts

instance : Noting Unasking where
  refl _ := rfl
  trans _ _ _ h h' := h'.trans h
  makeArray e rank := unasking_of_spells (Building.makeArray e rank)
  makeByRef e := unasking_of_spells (Building.makeByRef e)
  makeParameter s := unasking_of_spells (Building.makeParameter s)
  makeInstance t args := unasking_of_spells (Building.makeInstance t args)
  ofHostType type := unasking_of_spells (Building.ofHostType type)
  resolve name := unasking_of_spells (spells_resolve name)
  resolveString home token := by
    intro r
    obtain ⟨strings, texts, hend⟩ := endState_resolveString r home token
    rw [hend]
    rfl
  quiet hq := hq.declared

/-- They are declared then, and noted; from then on the note is the answer. -/
theorem curates_methodsOf (t : TypeId) : Keeps Curates (methodsOf t) := by
  intro r h
  cases hknown : r.facts.methods[t]? with
  | some ids =>
    rw [endState_ok (methodsOf_of_known hknown)]
    exact ⟨.refl r, h⟩
  | none =>
    have hnew := methodsOf_of_new hknown
    cases hdeclare : declare t (r.type t).shape r with
    | error e r₁ =>
      rw [endState_error (hnew.trans (bind_of_error hdeclare))]
      exact Keeps.error (R := Curates) (grows_declare _ _) hdeclare h
    | ok ids r₁ =>
      obtain ⟨hrecalls, hc⟩ := Curates.ok (grows_declare _ _) h hdeclare
      obtain ⟨hdeclared, hrows⟩ := declare_ok h hdeclare
      have hsame : r₁.facts.methods = r.facts.methods :=
        Keeps.ok (R := Unasking) (grows_declare _ _) hdeclare
      obtain ⟨hlast, hc'⟩ := hc.withMethods (hsame ▸ hknown) hdeclared hrows
      rw [endState_ok (hnew.trans ((bind_of_ok hdeclare).trans rfl))]
      exact ⟨hrecalls.trans hlast, hc'⟩

instance : Asking Curates where
  baseType := curates_baseType
  interfaces := keeps_interfaces fun _ _ _ ↦ curates_of_notes
    ⟨⟨rfl, rfl, rfl, rfl, fun _ _ h ↦ h, fun _ _ h ↦ h⟩, rfl, rfl, rfl, rfl⟩ rfl rfl
  methodsOf := curates_methodsOf

instance : Learning Curates where
  layout := keeps_layout fun r t l ↦ curates_of_notes (notes_withLayout r t l) rfl rfl

/-- The methods of a type are known from then on. -/
theorem facts_of_methodsOf (hx : methodsOf t r = .ok ids r') : r'.facts.methods[t]? = some ids := by
  cases hknown : r.facts.methods[t]? with
  | some known =>
    rw [methodsOf_of_known hknown] at hx
    cases hx
    exact hknown
  | none =>
    rw [methodsOf_of_new hknown] at hx
    obtain ⟨found, r₁, -, hrest⟩ := exists_of_bind hx
    cases hrest
    exact Std.HashMap.getElem?_insert_self

/-- The base type of a type is known from then on. -/
theorem facts_of_baseType {base : Option TypeId} (hx : baseType t r = .ok base r') :
    r'.facts.bases[t]? = some base := by
  cases hknown : r.facts.bases[t]? with
  | some known =>
    rw [baseType_of_known hknown] at hx
    cases hx
    exact hknown
  | none =>
    rw [baseType_of_new hknown] at hx
    obtain ⟨found, r₁, -, hrest⟩ := exists_of_bind hx
    cases hrest
    exact Std.HashMap.getElem?_insert_self

/-! ### Modules -/

/-- What adding the types of a module leaves alone, and the definitions that it brings. -/
structure Defines (id : ModuleId) (r r' : Registry) : Prop where
  methods : r'.methods = r.methods
  facts : r'.facts = r.facts
  scoped_ : r'.scoped_ = r.scoped_
  modules : r'.modules = r.modules
  others : ∀ ref : Reference, ref.module ≠ id → r'.definitions[ref]? = r.definitions[ref]?

theorem defines_addDefinitions (home : Home) : (defs : List (Nat × TypeDef)) → {r : Registry} →
    Defines home.id r (endState (addDefinitions home defs) r)
  | [], _ => ⟨rfl, rfl, rfl, rfl, fun _ _ ↦ rfl⟩
  | (position, d) :: rest, r => by
    by_cases htaken : definitionName d ∈ r.names
    · rw [endState_error (addDefinitions_of_taken rest htaken)]
      exact ⟨rfl, rfl, rfl, rfl, fun _ _ ↦ rfl⟩
    · rw [endState, addDefinitions_of_free rest htaken]
      have hrest := defines_addDefinitions home rest (r := r.define home position d)
      refine ⟨hrest.methods, hrest.facts, hrest.scoped_, hrest.modules, fun ref hother ↦ ?_⟩
      refine (hrest.others ref hother).trans ?_
      rw [define, Std.HashMap.getElem?_insert, if_neg]
      intro heq
      exact hother (congrArg Reference.module (eq_of_beq heq)).symm

/-- A module that is loaded without a clash is there with all its definitions. -/
theorem defines_loadModule {m : Module} (hnew : r.loaded? m = none)
    (hfree : ∀ name ∈ definitionNames m, name ∉ r.names) :
    Defines ⟨r.modules.size⟩ { r with modules := r.modules.push m }
      (endState (loadModule m) r) := by
  rw [endState, loadModule_of_free hnew hfree]
  generalize List.map _ m.types.toList.zipIdx = defs
  have hadded := defines_addDefinitions ⟨⟨r.modules.size⟩, m⟩ defs
    (r := { r with modules := r.modules.push m })
  cases hx : addDefinitions ⟨⟨r.modules.size⟩, m⟩ defs { r with modules := r.modules.push m } with
  | error e r₁ =>
    rw [endState_error hx] at hadded
    rw [bind_of_error hx]
    exact hadded
  | ok _ r₁ =>
    rw [endState_ok hx] at hadded
    rw [bind_of_ok hx]
    change Defines _ _ (endState (finishLoad m ⟨r.modules.size⟩) r₁)
    unfold finishLoad
    split
    · exact ⟨hadded.methods, hadded.facts, hadded.scoped_, hadded.modules, hadded.others⟩
    · exact hadded

/-- A load that fails leaves types behind, but no methods and no notes. -/
theorem curates_loadModule (m : Module) : Keeps Curates (loadModule m) := by
  intro r h
  have hlists : r.Lists (endState (loadModule m) r) := lists_operation (.loadModule m) r
  cases hloaded : r.loaded? m with
  | some id =>
    rw [endState_ok (loadModule_of_loaded hloaded)]
    exact ⟨.refl r, h⟩
  | none =>
    by_cases htaken : ∃ name ∈ definitionNames m, name ∈ r.names
    · obtain ⟨e, he⟩ := loadModule_of_taken hloaded htaken
      rw [endState_error he]
      exact ⟨.refl r, h⟩
    · have hdefines := defines_loadModule hloaded fun name hname hmem ↦ htaken ⟨name, hname, hmem⟩
      generalize endState (loadModule m) r = r' at hlists hdefines
      have hsize : r'.modules.size = r.modules.size + 1 := by
        rw [hdefines.modules, Array.size_push]
      have hrecalls : r.Recalls r' :=
        { toExtends := hlists.upholds.1
          hosts := fun _ _ ht ↦ hdefines.scoped_ ▸ ht
          bases := fun _ _ hb ↦ hdefines.facts ▸ hb
          declared := fun _ _ hids ↦ hdefines.facts ▸ hids
          definitions := fun ref t ht ↦ by
            rw [hdefines.others ref fun heq ↦ ?_]
            · exact ht
            · exact absurd (h.filed ref t ht) (by rw [heq]; exact Nat.lt_irrefl _) }
      refine ⟨hrecalls, h.recalls hrecalls hlists (fun ref t ht ↦ ?_) (hdefines.facts ▸ rfl)⟩
      rw [hsize]
      by_cases hnew : ref.module = ⟨r.modules.size⟩
      · rw [hnew]
        exact Nat.lt_succ_self _
      · rw [hdefines.others ref hnew] at ht
        exact Nat.lt_succ_of_lt (h.filed ref t ht)

theorem curates_operation {x : RegistryM α} (hx : Operation x) : Keeps Curates x := by
  refine hx.keeps curates_loadModule (fun m ↦ ?_) fun f ↦ ?_
  · intro r h
    have hrecalls : r.Recalls { r with host := r.host.push m } :=
      ⟨.of_eq rfl rfl rfl rfl, fun _ _ h ↦ h, fun _ _ h ↦ h, fun _ _ h ↦ h, fun _ _ h ↦ h⟩
    exact ⟨hrecalls, h.recalls hrecalls (lists_operation (.addHostModule m) r) h.filed rfl⟩
  · intro r h
    have hrecalls : r.Recalls { r with adaptors := f r.adaptors } :=
      ⟨.of_eq rfl rfl rfl rfl, fun _ _ h ↦ h, fun _ _ h ↦ h, fun _ _ h ↦ h, fun _ _ h ↦ h⟩
    exact ⟨hrecalls, h.recalls hrecalls (lists_operation (.registerAdaptor f) r) h.filed rfl⟩

/-- Every registry that is reached is curated. -/
theorem Reached.curated (h : r.Reached) : r.Curated := by
  induction h with
  | empty => exact curated_empty
  | step _ hx ih => exact (curates_operation hx _ ih).2

end Registry

end ManagedMachine
