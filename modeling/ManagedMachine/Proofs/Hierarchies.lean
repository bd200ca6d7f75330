import ManagedMachine.Proofs.CoreTypes
import ManagedMachine.Proofs.DeclaredMethods

/-!
# Hierarchies

The base type of a type and the interfaces that it declares are found out when they are first asked
for, and are kept. What is known of them is a directed graph over the types (`Registry.Parent`).
Every operation leaves the edges that are there (`Registry.Retains`), and none leads away from a
by-reference type or from a type that is not there (`Registry.Founded`).

A function of the registry charts (`Registry.Charts`) if it keeps the edges and lets none lead out
of the registry. Only `baseType` and `interfaces` find edges, so they are the two with an argument;
everything else files nothing about them (`charts_of_eq`).
-/

set_option autoImplicit false
set_option relaxedAutoImplicit false

namespace ManagedMachine.Registry

variable {r r' r'' : Registry} {t u : TypeId} {found : List TypeId} {α : Type}

/-- The second type is known as the base type of the first one, or as an interface that it
declares. -/
inductive Parent (r : Registry) (t u : TypeId) : Prop
  | base (h : r.facts.bases[t]? = some (some u))
  | interface {found : List TypeId} (h : r.facts.interfaces[t]? = some found) (hu : u ∈ found)

/-- A way along base types and declared interfaces leads from the first type to the second. -/
def Derives (r : Registry) : TypeId → TypeId → Prop := Relation.ReflTransGen r.Parent

/-- The second registry has kept what the first one knew of base types and interfaces. -/
structure Retains (r r' : Registry) : Prop extends Extends r r' where
  bases : ∀ (t : TypeId) b, r.facts.bases[t]? = some b → r'.facts.bases[t]? = some b
  interfaces : ∀ (t : TypeId) found, r.facts.interfaces[t]? = some found →
    r'.facts.interfaces[t]? = some found

theorem Retains.refl (r : Registry) : r.Retains r := ⟨.refl r, fun _ _ h ↦ h, fun _ _ h ↦ h⟩

theorem Retains.trans (h : r.Retains r') (h' : r'.Retains r'') : r.Retains r'' where
  toExtends := h.toExtends.trans h'.toExtends
  bases _ _ hb := h'.bases _ _ (h.bases _ _ hb)
  interfaces _ _ hf := h'.interfaces _ _ (h.interfaces _ _ hf)

/-- A parent stays a parent. -/
theorem Retains.parent (h : r.Retains r') (hp : r.Parent t u) : r'.Parent t u := by
  cases hp with
  | base hb => exact .base (h.bases _ _ hb)
  | interface hf hu => exact .interface (h.interfaces _ _ hf) hu

theorem Retains.derives (h : r.Retains r') (hd : r.Derives t u) : r'.Derives t u :=
  Relation.ReflTransGen.mono (fun _ _ hp ↦ h.parent hp) _ _ hd

/-- A type that anything is above is there, and is no by-reference type. -/
def Founded (r : Registry) : Prop := ∀ t u, r.Parent t u → r.Has t ∧ (r.type t).isByRef = false

theorem founded_empty : empty.Founded := by
  intro t u h
  cases h with
  | base h => cases Std.HashMap.getElem?_empty.symm.trans h
  | interface h => cases Std.HashMap.getElem?_empty.symm.trans h

/-! ### Every operation keeps the edges -/

/-- The second registry retains the first one, and is founded if that one was. -/
def Charts (r r' : Registry) : Prop := r.Retains r' ∧ (r.Founded → r'.Founded)

instance : IsPreorder Registry Charts where
  refl r := ⟨.refl r, id⟩
  trans _ _ _ h h' := ⟨h.1.trans h'.1, h'.2 ∘ h.2⟩

/-- New edges have to start at types that are there and may have them. -/
theorem Founded.retains (h : r.Founded) (hr : r.Retains r')
    (hnew : ∀ t u, r'.Parent t u → r.Parent t u ∨ r.Has t ∧ (r.type t).isByRef = false) :
    r'.Founded := by
  intro t u hp
  obtain ⟨ht, hd⟩ : r.Has t ∧ (r.type t).isByRef = false := (hnew t u hp).elim (h t u) id
  exact ⟨hr.has ht, (hr.type_eq ht).symm ▸ hd⟩

/-- What finds nothing out about base types and interfaces leaves the graph as it is. -/
theorem charts_of_eq (hr : r.Extends r') (hbases : r'.facts.bases = r.facts.bases)
    (hinterfaces : r'.facts.interfaces = r.facts.interfaces) : Charts r r' := by
  have hretains : r.Retains r' := ⟨hr, fun _ _ h ↦ hbases ▸ h, fun _ _ h ↦ hinterfaces ▸ h⟩
  refine ⟨hretains, fun h ↦ h.retains hretains fun t u hp ↦ Or.inl ?_⟩
  cases hp with
  | base hb => exact .base (hbases ▸ hb)
  | interface hf hu => exact .interface (hinterfaces ▸ hf) hu

instance : Adding Charts where
  addType d r := charts_of_eq (grows_addType d r) rfl rfl
  addName name t r := charts_of_eq (grows_addName name t r) rfl rfl
  aside htypes hnames hmethods hfacts _ _ _ :=
    charts_of_eq (.of_eq htypes hmethods hnames (hfacts ▸ rfl)) (hfacts ▸ rfl) (hfacts ▸ rfl)

instance : Noting Charts where
  resolve := keeps_resolve
  resolveString home token := by
    intro r
    obtain ⟨strings, texts, hend⟩ := endState_resolveString r home token
    rw [hend]
    exact charts_of_eq (.of_eq rfl rfl rfl rfl) rfl rfl
  quiet h := charts_of_eq h.extends h.bases h.interfaces

/-- Only a type that is there and is no by-reference type has a base type. -/
theorem hasBase_of_findBase (hx : findBase t (r.type t) r = .ok (some u) r') :
    r.Has t ∧ (r.type t).isByRef = false := by
  cases hshape : (r.type t).shape with
  | interpreted home token =>
    exact ⟨has_of_shape (by simp [hshape]), by rw [Descriptor.isByRef, hshape]⟩
  | native type =>
    exact ⟨has_of_shape (by simp [hshape]), by rw [Descriptor.isByRef, hshape]⟩
  | array element rank =>
    exact ⟨has_of_shape (by simp [hshape]), by rw [Descriptor.isByRef, hshape]⟩
  | byRef element =>
    rw [findBase, hshape] at hx
    cases hx
  | parameter =>
    rw [findBase, hshape] at hx
    cases hx

theorem declares_of_findInterfaces (hx : findInterfaces t (r.type t) r = .ok found r')
    (hu : u ∈ found) : r.Has t ∧ (r.type t).isByRef = false := by
  cases hshape : (r.type t).shape with
  | interpreted home token =>
    exact ⟨has_of_shape (by simp [hshape]), by rw [Descriptor.isByRef, hshape]⟩
  | native type =>
    exact ⟨has_of_shape (by simp [hshape]), by rw [Descriptor.isByRef, hshape]⟩
  | array element rank | byRef element | parameter =>
    rw [findInterfaces, hshape] at hx
    cases hx
    cases hu

/-- The base type of a type, when it is found, is in the registry and is no reference. -/
theorem charts_baseType (t : TypeId) : Keeps Charts (baseType t) := by
  intro r
  cases hknown : r.facts.bases[t]? with
  | some base =>
    rw [endState_ok (baseType_of_known hknown)]
    exact refl_of Charts r
  | none =>
    have hnew := baseType_of_new hknown
    cases hfind : findBase t (r.type t) r with
    | error e r₁ =>
      rw [endState_error (hnew.trans (bind_of_error hfind))]
      exact Keeps.error (grows_findBase t (r.type t)) hfind
    | ok base r₁ =>
      have hspells : r.Spells r₁ := Keeps.ok (grows_findBase t (r.type t)) hfind
      have hthere : r₁.facts.bases[t]? = none := hspells.facts ▸ hknown
      rw [endState_ok (hnew.trans ((bind_of_ok hfind).trans rfl))]
      refine trans_of Charts (Keeps.ok (grows_findBase t (r.type t)) hfind) ?_
      have hretains : r₁.Retains
          { r₁ with facts := { r₁.facts with bases := r₁.facts.bases.insert t base } } :=
        ⟨.of_eq rfl rfl rfl rfl, fun _ _ h ↦ getElem?_insert_of_some hthere h, fun _ _ h ↦ h⟩
      refine ⟨hretains, fun h ↦ h.retains hretains fun t' u hp ↦ ?_⟩
      cases hp with
      | interface hf hu => exact Or.inl (.interface hf hu)
      | base hb =>
        rcases getElem?_insert_cases hb with hold | ⟨rfl, rfl⟩
        · exact Or.inl (.base hold)
        · obtain ⟨ht, hd⟩ := hasBase_of_findBase hfind
          exact Or.inr ⟨hspells.has ht, (hspells.type_eq ht).symm ▸ hd⟩

theorem interfaces_of_known (h : r.facts.interfaces[t]? = some found) :
    interfaces t r = .ok found r := by
  rw [interfaces, ask_bind, h]
  rfl

/-- What happens when the interfaces of a type are asked for the first time. -/
theorem interfaces_of_new (h : r.facts.interfaces[t]? = none) :
    interfaces t r = (findInterfaces t (r.type t) >>= fun found ↦ do
      modify fun r =>
        { r with facts := { r.facts with interfaces := r.facts.interfaces.insert t found } }
      return found) r := by
  rw [interfaces, ask_bind, h]
  rfl

/-- The interfaces of a type are known from then on. -/
theorem facts_of_interfaces (hx : interfaces t r = .ok found r') :
    r'.facts.interfaces[t]? = some found := by
  cases hknown : r.facts.interfaces[t]? with
  | some known =>
    rw [interfaces_of_known hknown] at hx
    cases hx
    exact hknown
  | none =>
    rw [interfaces_of_new hknown] at hx
    obtain ⟨declared, r₁, -, hrest⟩ := exists_of_bind hx
    cases hrest
    exact Std.HashMap.getElem?_insert_self

/-- The same of each interface. -/
theorem charts_interfaces (t : TypeId) : Keeps Charts (interfaces t) := by
  intro r
  cases hknown : r.facts.interfaces[t]? with
  | some found =>
    rw [endState_ok (interfaces_of_known hknown)]
    exact refl_of Charts r
  | none =>
    have hnew := interfaces_of_new hknown
    cases hfind : findInterfaces t (r.type t) r with
    | error e r₁ =>
      rw [endState_error (hnew.trans (bind_of_error hfind))]
      exact Keeps.error (grows_findInterfaces t (r.type t)) hfind
    | ok found r₁ =>
      have hspells : r.Spells r₁ := Keeps.ok (grows_findInterfaces t (r.type t)) hfind
      have hthere : r₁.facts.interfaces[t]? = none := hspells.facts ▸ hknown
      rw [endState_ok (hnew.trans ((bind_of_ok hfind).trans rfl))]
      refine trans_of Charts (Keeps.ok (grows_findInterfaces t (r.type t)) hfind) ?_
      have hretains : r₁.Retains
          { r₁ with facts := { r₁.facts with interfaces := r₁.facts.interfaces.insert t found } } :=
        ⟨.of_eq rfl rfl rfl rfl, fun _ _ h ↦ h, fun _ _ h ↦ getElem?_insert_of_some hthere h⟩
      refine ⟨hretains, fun h ↦ h.retains hretains fun t' u hp ↦ ?_⟩
      cases hp with
      | base hb => exact Or.inl (.base hb)
      | interface hf hu =>
        rcases getElem?_insert_cases hf with hold | ⟨rfl, rfl⟩
        · exact Or.inl (.interface hold hu)
        · obtain ⟨ht, hd⟩ := declares_of_findInterfaces hfind hu
          exact Or.inr ⟨hspells.has ht, (hspells.type_eq ht).symm ▸ hd⟩

instance : Asking Charts where
  baseType := charts_baseType
  interfaces := charts_interfaces
  methodsOf t := by
    intro r
    cases hknown : r.facts.methods[t]? with
    | some ids =>
      rw [endState_ok (methodsOf_of_known hknown)]
      exact refl_of Charts r
    | none =>
      have hkeep (ids : List MethodId) : Keeps (ε := Error) Charts (do
          modify fun r =>
            { r with facts := { r.facts with methods := r.facts.methods.insert t ids } }
          return ids) :=
        Keeps.seqRight (.modify fun r ↦ charts_of_eq (.of_eq rfl rfl rfl rfl) rfl rfl) (.pure ids)
      rw [endState, methodsOf_of_new hknown]
      exact (grows_declare t (r.type t).shape).bind hkeep r

instance : Learning Charts where
  layout := keeps_layout fun r t l ↦ charts_of_eq (notes_withLayout r t l).extends rfl rfl

theorem charts_operation {x : RegistryM α} (hx : Operation x) : Keeps Charts x := by
  refine hx.keeps (fun m ↦ ?_) (fun m ↦ ?_) fun f ↦ ?_
  · exact grows_loadModule m fun r ↦ charts_of_eq (.of_eq rfl rfl rfl rfl) rfl rfl
  · exact .modify fun r ↦ charts_of_eq (.of_eq rfl rfl rfl rfl) rfl rfl
  · exact .modify fun r ↦ charts_of_eq (.of_eq rfl rfl rfl rfl) rfl rfl

theorem Reached.founded (h : r.Reached) : r.Founded := by
  induction h with
  | empty => exact founded_empty
  | step _ hx ih => exact (charts_operation hx _).2 ih

theorem Since.charts (h : r.Since r') : Charts r r' := by
  induction h with
  | refl => exact refl_of Charts r
  | step _ hx ih => exact trans_of Charts ih (charts_operation hx _)

end ManagedMachine.Registry
