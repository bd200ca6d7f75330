import Mathlib.Order.Filter.AtTopBot.Basic
import ManagedMachine.Proofs.BlockCopies

/-!
# Types of structs

A block of a struct type holds for each field a number of the kind that the type of the field is
made of, a reference, the object behind a host struct, or a block in turn. The layouts of the types
say which of them it is, so two blocks of one type have the same form. A layout that can be worked
out at all is the same whenever that is done: `Registry.Lays`.

The type of a field decides what its slot holds by way of `Domain.style?`, and `Domain.Typed`
follows it through the fields of structs in fields. Binders come in at one place: a bound struct has
as many slots as its binder says, all of them numbers.
-/

set_option autoImplicit false
set_option relaxedAutoImplicit false

namespace ManagedMachine

open Engine

namespace Registry

/-- The layout of the type is worked out with enough fuel, whatever else has been resolved. -/
def Lays (r : Registry) (t : TypeId) (l : FieldLayout) : Prop :=
  ∀ᶠ fuel in Filter.atTop, ∀ r', r.Extends r' → ∃ r'', layout fuel t r' = .ok l r''

variable {r r' : Registry} {t : TypeId} {l l' : FieldLayout}

theorem Lays.of_known (h : r.facts.layouts[t]? = some l) : r.Lays t l := by
  filter_upwards [Filter.eventually_gt_atTop 0] with fuel hfuel r' hr'
  obtain ⟨fuel, rfl⟩ := Nat.exists_eq_add_of_le' hfuel
  exact ⟨r', layout_of_known (hr'.layouts t l h)⟩

theorem Lays.extends (h : r.Lays t l) (hr : r.Extends r') : r'.Lays t l := by
  filter_upwards [h] with fuel hfuel r'' hr'
  exact hfuel r'' (hr.trans hr')

theorem Lays.unique (h : r.Lays t l) (h' : r.Lays t l') : l' = l := by
  obtain ⟨fuel, hl, hl'⟩ := (h.and h').exists
  obtain ⟨_, hl⟩ := hl r (.refl r)
  obtain ⟨_, hl'⟩ := hl' r (.refl r)
  injection hl'.symm.trans hl

end Registry

namespace Domain

/-- How structs of a type are stored inline. -/
inductive Style where
  | fields
  | bound (binder : StructBinder)

variable {d d' : Domain} {t : TypeId}

/-- How structs of the type are stored inline, if they are. -/
def style? (d : Domain) (t : TypeId) : Option Style :=
  let described := d.registry.type t
  if !described.isStruct || described.primitive?.isSome then none
  else
    match d.bindings.binder? described.name with
    | some binder => some (.bound binder)
    | none => if described.isInterpreted then some .fields else none

theorem style?_of_primitive {p : Primitive} (h : (d.registry.type t).primitive? = some p) :
    d.style? t = none := by
  rw [style?, h]
  simp

/-- A struct of a module without a binder is stored field by field. -/
theorem style?_of_interpreted (hstruct : (d.registry.type t).isStruct = true)
    (h : (d.registry.type t).isInterpreted = true)
    (hbinder : d.bindings.binder? (d.registry.type t).name = none) :
    d.style? t = some .fields := by
  have hp : (d.registry.type t).primitive? = none := by
    rw [Descriptor.isInterpreted] at h
    rw [Descriptor.primitive?, Descriptor.native?]
    split at h
    · next heq => rw [heq]; rfl
    · cases h
  rw [style?]
  simp [hstruct, hp, hbinder, h]

theorem style?_of_unbound (h : (d.registry.type t).isInterpreted = false)
    (hbinder : d.bindings.binder? (d.registry.type t).name = none) : d.style? t = none := by
  rw [style?]
  simp [hbinder, h]

theorem isStruct_of_style? {s : Style} (h : d.style? t = some s) :
    (d.registry.type t).isStruct = true ∧ (d.registry.type t).primitive? = none := by
  simp only [style?] at h
  split at h
  · cases h
  · next hinline => simpa using hinline

theorem binder_of_style? {b : StructBinder} (h : d.style? t = some (.bound b)) :
    d.bindings.binder? (d.registry.type t).name = some b := by
  simp only [style?] at h
  split at h
  · cases h
  · split at h
    · next hbinder =>
      cases h
      exact hbinder
    · split at h <;> cases h

theorem Extends.style? (h : d.Extends d') (ht : t.index < d.registry.types.size) :
    d'.style? t = d.style? t := by
  rw [Domain.style?, Domain.style?, h.registry.type_eq ht, h.bindings]

theorem Allocates.extends (h : d.Allocates d') : d.Extends d' := by
  rw [h.same]
  exact .of_eq rfl rfl rfl

end Domain

namespace Engine

variable {r : Running} {t : TypeId} {fuel : Nat}

/-- The layout is worked out if fields are what a struct consists of. -/
theorem inlineKind_eq (fuel : Nat) (t : TypeId) (r : Running) :
    inlineKind fuel t r = match r.domain.style? t with
      | none => .ok none r
      | some (.bound b) => .ok (some (.bound b)) r
      | some .fields => (Running.onDomain (Domain.inRegistry (Registry.layout fuel t)) >>= fun l ↦
          pure (some (Inline.struct l)) : RunM (Option Inline)) r := by
  have hbinder (name : String) : (Running.onDomain (Domain.ask fun d ↦ d.bindings.binder? name) :
      RunM (Option StructBinder)) r = .ok (r.domain.bindings.binder? name) r := rfl
  unfold inlineKind Domain.style?
  refine (bind_of_ok (descriptor_ok t r)).trans ?_
  dsimp only
  split
  · rfl
  · refine (bind_of_ok (hbinder _)).trans ?_
    cases r.domain.bindings.binder? (r.domain.registry.type t).name with
    | some b => rfl
    | none =>
      dsimp only
      cases (r.domain.registry.type t).isInterpreted <;> rfl

theorem inlineKind_known {l : FieldLayout} (ht : r.domain.style? t = some .fields)
    (hl : r.domain.registry.facts.layouts[t]? = some l) :
    inlineKind (fuel + 1) t r = .ok (some (.struct l)) r := by
  rw [inlineKind_eq, ht]
  refine bind_of_ok (a := l) (t := r) (Running.onDomain_ok ?_)
  simp only [Domain.inRegistry, Registry.layout_of_known hl]

end Engine

namespace Content

/-- What the slots of a bound struct hold. -/
def ofSlots : List Slot → Content
  | [] => nil
  | x :: rest => number x (ofSlots rest)

/-- Every field is a number or the null that stands for one. -/
def Numeric : Content → Prop
  | nil => True
  | number _ rest => rest.Numeric
  | _ => False

/-- Numbers look alike. -/
theorem Numeric.form_eq {c c' : Content} (h : c.Numeric) (h' : c'.Numeric)
    (hlength : c'.length = c.length) : c'.form = c.form := by
  induction c generalizing c' with
  | nil =>
    cases c' with
    | nil => rfl
    | _ => cases hlength
  | number x c ih =>
    cases c' with
    | number _ c' => exact congrArg (number .null) (ih h h' (Nat.succ.inj hlength))
    | nil => cases hlength
    | _ => cases h'
  | _ => cases h

theorem Maps.numeric {R : Value → Value → Prop} {c c' : Content} (h : Maps R c c')
    (hc : c.Numeric) : c' = c := by
  induction h with
  | nil => rfl
  | number _ ih => exact congrArg _ (ih hc)
  | _ => cases hc

end Content

namespace Domain

/-- The content is that of fields of the types. -/
inductive Typed (d : Domain) : List TypeId → Content → Prop
  | nil : Typed d [] .nil
  | number {t : TypeId} {p : Primitive} {x : Slot} {ts : List TypeId} {c : Content}
    (hp : (d.registry.type t).primitive? = some p) (hx : x.kind = (Slot.zero p).kind)
    (h : Typed d ts c) : Typed d (t :: ts) (.number x c)
  /-- A reference, or the object behind a host struct without a binder. -/
  | value {t : TypeId} {v : Value} {ts : List TypeId} {c : Content}
    (hlt : t.index < d.registry.types.size) (hp : (d.registry.type t).primitive? = none)
    (ht : d.style? t = none) (h : Typed d ts c) : Typed d (t :: ts) (.value v c)
  | bound {t : TypeId} {b : StructBinder} {i : Content} {ts : List TypeId} {c : Content}
    (ht : d.style? t = some (.bound b)) (hi : i.Numeric) (hlength : i.length = b.fields.length)
    (h : Typed d ts c) : Typed d (t :: ts) (.block t i c)
  | struct {t : TypeId} {l : FieldLayout} {i : Content} {ts : List TypeId} {c : Content}
    (ht : d.style? t = some .fields) (hl : d.registry.facts.layouts[t]? = some l)
    (hi : Typed d (l.instance_.map Field.type) i) (h : Typed d ts c) :
    Typed d (t :: ts) (.block t i c)

variable {d d' : Domain} {t : TypeId} {ts : List TypeId} {c c' : Content}

/-- There is a slot for each field. -/
theorem Typed.length_eq (h : d.Typed ts c) : c.length = ts.length := by
  induction h with
  | nil => rfl
  | number _ _ _ ih => exact congrArg (· + 1) ih
  | value _ _ _ _ ih => exact congrArg (· + 1) ih
  | bound _ _ _ _ ih => exact congrArg (· + 1) ih
  | struct _ _ _ _ _ ih => exact congrArg (· + 1) ih

/-- Rows of types go with rows of fields. -/
theorem Typed.append {ts' : List TypeId} (h : d.Typed ts c) (h' : d.Typed ts' c') :
    d.Typed (ts ++ ts') (c ++ c') := by
  induction h with
  | nil => exact h'
  | number hp hx _ ih => exact .number hp hx ih
  | value hlt hp ht _ ih => exact .value hlt hp ht ih
  | bound ht hi hlength _ ih => exact .bound ht hi hlength ih
  | struct ht hl hi _ _ ih => exact .struct ht hl hi ih

/-- The types alone say of what form the content is. -/
theorem Typed.form_eq (h : d.Typed ts c) (h' : d.Typed ts c') : c'.form = c.form := by
  induction h generalizing c' with
  | nil => cases h'; rfl
  | number hp _ _ ih =>
    have hstyle := style?_of_primitive hp
    cases h' with
    | number _ _ h' => exact congrArg (Content.number .null) (ih h')
    | value _ hp' => cases hp.symm.trans hp'
    | bound ht => cases hstyle.symm.trans ht
    | struct ht => cases hstyle.symm.trans ht
  | value _ hp hstyle _ ih =>
    cases h' with
    | number hp' => cases hp.symm.trans hp'
    | value _ _ _ h' => exact congrArg (Content.value .null) (ih h')
    | bound ht => cases hstyle.symm.trans ht
    | struct ht => cases hstyle.symm.trans ht
  | bound ht hi hlength _ ih =>
    cases h' with
    | number hp' => cases (style?_of_primitive hp').symm.trans ht
    | value _ _ ht' => cases ht'.symm.trans ht
    | bound ht' hi' hlength' h' =>
      cases ht.symm.trans ht'
      rw [Content.form, Content.form, hi.form_eq hi' (hlength'.trans hlength.symm), ih h']
    | struct ht' => cases ht.symm.trans ht'
  | struct ht hl _ _ ihi ih =>
    cases h' with
    | number hp' => cases (style?_of_primitive hp').symm.trans ht
    | value _ _ ht' => cases ht'.symm.trans ht
    | bound ht' => cases ht.symm.trans ht'
    | struct _ hl' hi' h' =>
      cases hl.symm.trans hl'
      rw [Content.form, Content.form, ihi hi', ih h']

/-- Other values do as well. -/
theorem Typed.maps {R : Value → Value → Prop} (h : d.Typed ts c) (hmaps : c.Maps R c') :
    d.Typed ts c' := by
  induction h generalizing c' with
  | nil => cases hmaps; exact .nil
  | number hp hx _ ih =>
    cases hmaps with
    | number hmaps => exact .number hp hx (ih hmaps)
  | value hlt hp ht _ ih =>
    cases hmaps with
    | value _ hmaps => exact .value hlt hp ht (ih hmaps)
  | bound ht hi hlength _ ih =>
    cases hmaps with
    | block hi' hmaps =>
      obtain rfl := hi'.numeric hi
      exact .bound ht hi hlength (ih hmaps)
  | struct ht hl _ _ ihi ih =>
    cases hmaps with
    | block hi' hmaps => exact .struct ht hl (ihi hi') (ih hmaps)

/-- What is known to be primitive is there. -/
theorem lt_size_of_primitive {r : Registry} {p : Primitive} (h : (r.type t).primitive? = some p) :
    t.index < r.types.size := by
  refine Nat.lt_of_not_le fun hout ↦ ?_
  have hnone : r.types[t.index]? = none := Array.getElem?_eq_none hout
  simp only [Registry.type, Array.getD_eq_getD_getElem?, hnone, Option.getD_none] at h
  cases h

theorem Extends.size_le (h : d.Extends d') : d.registry.types.size ≤ d'.registry.types.size := by
  refine Nat.le_of_not_lt fun hlt ↦ ?_
  have hsome := h.registry.types _ _ (Array.getElem?_eq_getElem hlt)
  exact absurd (Array.getElem?_eq_some_iff.mp hsome).1 (Nat.lt_irrefl _)

theorem lt_size_of_style? {s : Style} (h : d.style? t = some s) : t.index < d.registry.types.size :=
  lt_size_of_isStruct (isStruct_of_style? h).1

/-- Types that are known stay as they are. -/
theorem Typed.extends (h : d.Typed ts c) (hd : d.Extends d') : d'.Typed ts c := by
  induction h with
  | nil => exact .nil
  | number hp hx _ ih =>
    exact .number (hd.registry.type_eq (lt_size_of_primitive hp) ▸ hp) hx ih
  | value hlt hp ht _ ih =>
    exact .value (hlt.trans_le hd.size_le) (hd.registry.type_eq hlt ▸ hp)
      ((hd.style? hlt).trans ht) ih
  | bound ht hi hlength _ ih =>
    exact .bound ((hd.style? (lt_size_of_style? ht)).trans ht) hi hlength ih
  | struct ht hl _ _ ihi ih =>
    exact .struct ((hd.style? (lt_size_of_style? ht)).trans ht) (hd.registry.layouts _ _ hl) ihi ih

end Domain

end ManagedMachine
