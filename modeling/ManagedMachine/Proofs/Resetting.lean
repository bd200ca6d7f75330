import ManagedMachine.Proofs.DiscardedLoads
import ManagedMachine.Proofs.References

/-!
# Locations that are set back

A location that is set back to the default of its type holds what a new location of the type holds,
and a struct is there with all its fields. The one exception is a struct outside of the stack: there
only null stays, which no field can be reached through.

What a new location is like is said without naming the code that makes one: `Domain.New` for a
value, `Domain.Pristine` for the content of fields, by recursion on the type. Setting back is then
compared with that for each kind of location, on the stack (`refilled_cell`, `refilled_block`) and
on the heap (`refilled_heap`).
-/

set_option autoImplicit false
set_option relaxedAutoImplicit false

namespace ManagedMachine

open Engine

theorem Content.Numeric.depth_eq {c : Content} (h : c.Numeric) : c.depth = 0 := by
  induction c with
  | nil => rfl
  | number _ _ ih => exact ih h
  | _ => cases h

theorem Content.depth_append (c d : Content) : (c ++ d).depth = max c.depth d.depth := by
  induction c with
  | nil => exact (Nat.zero_max _).symm
  | number _ _ ih => exact ih
  | value _ _ ih => exact ih
  | block _ i c _ ih => exact (congrArg (max (i.depth + 1)) ih).trans (Nat.max_assoc ..).symm

/-! ### What new locations hold -/

/-- The data of a host struct that nothing was written to: the default of its type, or a copy of
that. -/
inductive HostType.Unset (type : HostType) : HostData → Prop
  | default {data : HostData} (h : type.default = some data) : Unset type data
  | copy {data data' : HostData} {copy : HostData → Option HostData} (h : Unset type data)
    (hcopy : type.copy = some copy) (hdata : copy data = some data') : Unset type data'

theorem HostType.Unset.exists_default {type : HostType} {data : HostData} (h : type.Unset data) :
    ∃ first, type.default = some first := by
  induction h with
  | default h => exact ⟨_, h⟩
  | copy _ _ _ ih => exact ih

namespace Domain

/-- The default is null: the type is none of structs, or the host gives no default for it. -/
def Voids (d : Domain) (t : TypeId) : Prop :=
  (d.registry.type t).native?.bind HostType.default = none ∨ (d.registry.type t).isStruct = false

/-- The object is a host struct of the type, with such data. -/
structure Hosts (d : Domain) (t : TypeId) (P : HostType → HostData → Prop) (id : ObjectId) :
    Prop where
  isStruct : (d.registry.type t).isStruct = true
  lt : id.index < d.heap.size
  object : ∃ type data, (d.registry.type t).native? = some type ∧
    d.heap.object id = .native t data ∧ P type data

/-- Null, or a new object with the default of the host. -/
inductive New (d : Domain) (t : TypeId) : Value → Prop
  | null (h : d.Voids t) : New d t .null
  | host {id : ObjectId} (h : d.Hosts t (fun type data ↦ type.default = some data) id) :
    New d t (.object id)

/-- What a location of a type that is not stored inline holds when nothing was written to it. -/
inductive Unset (d : Domain) (t : TypeId) : Value → Prop
  | null (h : d.Voids t) : Unset d t .null
  | host {id : ObjectId} (h : d.Hosts t HostType.Unset id) : Unset d t (.object id)

/-- The values are one, or they are host structs of one type that nothing was written to. -/
inductive Resembles (d : Domain) : Value → Value → Prop
  | same (v : Value) : Resembles d v v
  | host {t : TypeId} {id id' : ObjectId} (h : d.Hosts t HostType.Unset id)
    (h' : d.Hosts t HostType.Unset id') : Resembles d (.object id) (.object id')

/-- The content of new locations of the types: zeros, null, host structs as the host makes them, and
structs of such in turn. -/
inductive Pristine (d : Domain) : List TypeId → Content → Prop
  | nil : Pristine d [] .nil
  | number {t : TypeId} {p : Primitive} {ts : List TypeId} {c : Content}
    (hp : (d.registry.type t).primitive? = some p) (h : Pristine d ts c) :
    Pristine d (t :: ts) (.number (.zero p) c)
  | value {t : TypeId} {v : Value} {ts : List TypeId} {c : Content}
    (ht : t.index < d.registry.types.size) (hp : (d.registry.type t).primitive? = none)
    (hs : d.style? t = none) (hv : d.Unset t v) (h : Pristine d ts c) :
    Pristine d (t :: ts) (.value v c)
  | bound {t : TypeId} {b : StructBinder} {slots : List Slot} {ts : List TypeId} {c : Content}
    (hs : d.style? t = some (.bound b)) (hslots : d.Resets b t slots) (h : Pristine d ts c) :
    Pristine d (t :: ts) (.block t (.ofSlots slots) c)
  | struct {t : TypeId} {l : FieldLayout} {i : Content} {ts : List TypeId} {c : Content}
    (hs : d.style? t = some .fields) (hl : d.registry.facts.layouts[t]? = some l)
    (hi : Pristine d (l.instance_.map Field.type) i) (h : Pristine d ts c) :
    Pristine d (t :: ts) (.block t i c)

/-- The domain has grown, and host objects have not changed. -/
structure Preserves (d d' : Domain) : Prop extends Extends d d' where
  size : d.heap.size ≤ d'.heap.size
  native : ∀ id t data, d.heap.object id = .native t data → id.index < d.heap.size →
    d'.heap.object id = .native t data

variable {d d' : Domain} {t : TypeId} {ts : List TypeId} {vs : List Value} {v v' : Value}
  {f c c' : Content} {b : StructBinder} {slots : List Slot} {id : ObjectId}
  {P Q : HostType → HostData → Prop}

theorem Grown.preserves (h : d.Grown d') : d.Preserves d' :=
  ⟨h.toExtends, h.size, fun id _ _ hobject hid ↦ (h.object id hid).trans hobject⟩

/-- What is put at a spot on the heap is no part of a host object. -/
theorem preserves_put (d : Domain) (v : Value) (p : Spot) : d.Preserves (d.put v p) where
  toExtends := by
    cases p with
    | static t i =>
      rw [put]
      split <;> exact .of_eq rfl rfl rfl
    | _ => exact .of_eq rfl rfl rfl
  size := by
    cases p with
    | member id i => exact (Array.size_setIfInBounds ..).ge
    | static t i =>
      rw [put]
      split <;> exact Nat.le_refl _
    | _ => exact Nat.le_refl _
  native id t data hobject _ := by
    rcases Running.object_put d v p id with hput | ⟨i, hput⟩
    · exact hput.trans hobject
    · rwa [hobject] at hput

theorem Voids.preserved (h : d.Voids t) (hd : d.Extends d') (ht : t.index < d.registry.types.size) :
    d'.Voids t := by
  rwa [Voids, hd.registry.type_eq ht]

theorem Hosts.preserved (h : d.Hosts t P id) (hd : d.Preserves d')
    (ht : t.index < d.registry.types.size) : d'.Hosts t P id where
  isStruct := hd.registry.type_eq ht ▸ h.isStruct
  lt := h.lt.trans_le hd.size
  object := by
    obtain ⟨type, data, htype, hobject, hdata⟩ := h.object
    exact ⟨type, data, hd.registry.type_eq ht ▸ htype, hd.native id t data hobject h.lt, hdata⟩

theorem Hosts.imp (h : d.Hosts t P id) (hP : ∀ type data, P type data → Q type data) :
    d.Hosts t Q id where
  isStruct := h.isStruct
  lt := h.lt
  object :=
    let ⟨type, data, htype, hobject, hdata⟩ := h.object
    ⟨type, data, htype, hobject, hP type data hdata⟩

theorem Resets.grown (h : d.Resets b t slots) (hd : d.Extends d')
    (ht : t.index < d.registry.types.size) : d'.Resets b t slots := by
  rwa [Resets, hd.registry.type_eq ht]

theorem Resets.length_eq (h : d.Resets b t slots) : slots.length = b.fields.length := by
  rcases h with ⟨data, -, hwrite⟩ | ⟨-, rfl⟩
  · exact b.length_write hwrite
  · exact List.length_map ..

theorem New.unset (h : d.New t v) : d.Unset t v := by
  cases h with
  | null h => exact .null h
  | host h => exact .host (h.imp fun _ _ ↦ .default)

/-- A bound struct that is new has the slots that its binder writes. -/
theorem New.binds (h : d.New t v) (hslots : d.Resets b t slots) : d.Binds b t v slots := by
  cases h with
  | null h => exact .null hslots
  | host h =>
    obtain ⟨type, data, htype, hobject, hdefault⟩ := h.object
    rw [Resets, htype] at hslots
    rcases hslots with ⟨data', hdata, hwrite⟩ | ⟨hnone, -⟩
    · obtain rfl := Option.some.inj (hdefault.symm.trans hdata)
      exact .data h.lt hobject hwrite
    · cases hdefault.symm.trans hnone

theorem Unset.preserved (h : d.Unset t v) (hd : d.Preserves d')
    (ht : t.index < d.registry.types.size) : d'.Unset t v := by
  cases h with
  | null h => exact .null (h.preserved hd.toExtends ht)
  | host h => exact .host (h.preserved hd ht)

theorem Unset.lives (h : d.Unset t v) : v.Lives d.heap := by
  cases h with
  | null => nofun
  | host h =>
    rintro _ ⟨⟩
    exact h.lt

/-- A clone of what is unset is unset. -/
theorem Unset.cloned (h : d.Unset t v) (hd : d.Grown d') (ht : t.index < d.registry.types.size)
    (hclone : d.CloneOf d' v v') : d'.Unset t v' := by
  cases hclone with
  | shared => exact h.preserved hd.preserves ht
  | @clone id id' data hdata hmade =>
    cases h with
    | host h =>
      obtain ⟨type, data', htype, hobject, hunset⟩ := h.object
      have hkind : d.heap.type id = t := by rw [Heap.type, hobject]; rfl
      have hmade' := hmade.object
      rw [hkind] at hmade'
      rw [cloneData?, typeOf, hkind, if_pos h.isStruct, Heap.data?, hobject, htype] at hdata
      change (type.copy.bind fun copy ↦ copy data') = some data at hdata
      obtain ⟨copy, hcopy, hdata⟩ := Option.bind_eq_some_iff.mp hdata
      have htype' := hd.registry.type_eq ht
      exact .host ⟨htype' ▸ h.isStruct, hmade.there, type, data, htype' ▸ htype, hmade',
        hunset.copy hcopy hdata⟩

/-- A type with a default has a default for every one of its locations. -/
theorem Hosts.not_voids (h : d.Hosts t HostType.Unset id) : ¬d.Voids t := by
  obtain ⟨type, data, htype, -, hunset⟩ := h.object
  obtain ⟨first, hfirst⟩ := hunset.exists_default
  rintro (hnone | hno)
  · rw [htype] at hnone
    cases hfirst.symm.trans hnone
  · cases h.isStruct.symm.trans hno

theorem Unset.resembles (h : d.Unset t v) (h' : d.Unset t v') : d.Resembles v v' := by
  cases h with
  | null h =>
    cases h' with
    | null => exact .same _
    | host h' => exact absurd h h'.not_voids
  | host h =>
    cases h' with
    | null h' => exact absurd h' h.not_voids
    | host h' => exact .host h h'

theorem Pristine.cons (h : d.Pristine [t] f) (h' : d.Pristine ts c) :
    d.Pristine (t :: ts) (f ++ c) := by
  cases h with
  | number hp h => cases h; exact .number hp h'
  | value ht hp hs hv h => cases h; exact .value ht hp hs hv h'
  | bound hs hslots h => cases h; exact .bound hs hslots h'
  | struct hs hl hi h => cases h; exact .struct hs hl hi h'

/-- Clones of what is pristine are. -/
theorem Pristine.cloned (h : d.Pristine ts c) (hd : d.Grown d') (hmaps : c.Maps (d.CloneOf d') c') :
    d'.Pristine ts c' := by
  have hstyle {t : TypeId} {s : Style} (hs : d.style? t = some s) : d'.style? t = some s :=
    (hd.style? (lt_size_of_style? hs)).trans hs
  induction h generalizing c' with
  | nil =>
    cases hmaps
    exact .nil
  | number hp _ ih =>
    cases hmaps with
    | number hmaps => exact .number (hd.registry.type_eq (lt_size_of_primitive hp) ▸ hp) (ih hmaps)
  | value ht hp hs hv _ ih =>
    cases hmaps with
    | value hclone hmaps =>
      exact .value (ht.trans_le hd.size_le) (hd.registry.type_eq ht ▸ hp) ((hd.style? ht).trans hs)
        (hv.cloned hd ht hclone) (ih hmaps)
  | bound hs hslots _ ih =>
    cases hmaps with
    | block hi hmaps =>
      obtain rfl := hi.numeric (Content.numeric_ofSlots _)
      exact .bound (hstyle hs) (hslots.grown hd.toExtends (lt_size_of_style? hs)) (ih hmaps)
  | struct hs hl _ _ ihi ih =>
    cases hmaps with
    | block hi hmaps => exact .struct (hstyle hs) (hd.registry.layouts _ _ hl) (ihi hi) (ih hmaps)

/-- New content stays what it is while the domain grows. -/
theorem Pristine.preserved (h : d.Pristine ts c) (hd : d.Preserves d') : d'.Pristine ts c := by
  have hstyle {t : TypeId} {s : Style} (hs : d.style? t = some s) : d'.style? t = some s :=
    (hd.style? (lt_size_of_style? hs)).trans hs
  induction h with
  | nil => exact .nil
  | number hp _ ih => exact .number (hd.registry.type_eq (lt_size_of_primitive hp) ▸ hp) ih
  | value ht hp hs hv _ ih =>
    exact .value (ht.trans_le hd.size_le) (hd.registry.type_eq ht ▸ hp) ((hd.style? ht).trans hs)
      (hv.preserved hd ht) ih
  | bound hs hslots _ ih =>
    exact .bound (hstyle hs) (hslots.grown hd.toExtends (lt_size_of_style? hs)) ih
  | struct hs hl _ _ ihi ih => exact .struct (hstyle hs) (hd.registry.layouts _ _ hl) ihi ih

theorem Pristine.grown (h : d.Pristine ts c) (hd : d.Grown d') : d'.Pristine ts c :=
  h.preserved hd.preserves

theorem Pristine.typed (h : d.Pristine ts c) : d.Typed ts c := by
  induction h with
  | nil => exact .nil
  | number hp _ ih => exact .number hp rfl ih
  | value ht hp hs _ _ ih => exact .value ht hp hs ih
  | bound hs hslots _ ih =>
    exact .bound hs (Content.numeric_ofSlots _)
      ((Content.length_ofSlots _).trans hslots.length_eq) ih
  | struct hs hl _ _ ihi ih => exact .struct hs hl ihi ih

theorem Pristine.lives (h : d.Pristine ts c) : c.All (Value.Lives d.heap) := by
  induction h with
  | nil => trivial
  | number _ _ ih => exact ih
  | value _ _ _ hv _ ih => exact ⟨hv.lives, ih⟩
  | bound _ _ _ ih => exact ⟨(Content.numeric_ofSlots _).all, ih⟩
  | struct _ _ _ _ ihi ih => exact ⟨ihi, ih⟩

/-- New locations of the same types hold the same. -/
theorem Pristine.maps (h : d.Pristine ts c) (h' : d.Pristine ts c') : c.Maps d.Resembles c' := by
  induction h generalizing c' with
  | nil =>
    cases h'
    exact .nil
  | number hp _ ih =>
    cases h' with
    | number hp' h' =>
      obtain rfl := Option.some.inj (hp.symm.trans hp')
      exact .number (ih h')
    | value _ hnone => cases hp.symm.trans hnone
    | bound hs => cases (style?_of_primitive hp).symm.trans hs
    | struct hs => cases (style?_of_primitive hp).symm.trans hs
  | value _ hp hs hv _ ih =>
    cases h' with
    | number hsome => cases hsome.symm.trans hp
    | value _ _ _ hv' h' => exact .value (hv.resembles hv') (ih h')
    | bound hs' => cases hs.symm.trans hs'
    | struct hs' => cases hs.symm.trans hs'
  | bound hs hslots _ ih =>
    cases h' with
    | number hp => cases (style?_of_primitive hp).symm.trans hs
    | value _ _ hs' => cases hs'.symm.trans hs
    | bound hs' hslots' h' =>
      cases hs'.symm.trans hs
      obtain rfl := hslots.unique hslots'
      exact .block (Content.numeric_ofSlots _).maps (ih h')
    | struct hs' => cases hs.symm.trans hs'
  | struct hs hl _ _ ihi ih =>
    cases h' with
    | number hp => cases (style?_of_primitive hp).symm.trans hs
    | value _ _ hs' => cases hs'.symm.trans hs
    | bound hs' => cases hs.symm.trans hs'
    | struct _ hl' hi' h' =>
      obtain rfl := Option.some.inj (hl.symm.trans hl')
      exact .block (ihi hi') (ih h')

/-! ### Making the default of a type -/

/-- Values that were written to a row of fields stay there. -/
theorem Writes.grown (h : d.Writes ts vs c) (hd : d.Grown d') : d'.Writes ts vs c := by
  have hstyle {t : TypeId} {s : Style} (hs : d.style? t = some s) : d'.style? t = some s :=
    (hd.style? (lt_size_of_style? hs)).trans hs
  induction h with
  | nil => exact .nil
  | number hp hslot hx _ ih =>
    exact .number (hd.registry.type_eq (lt_size_of_primitive hp) ▸ hp) hslot hx ih
  | value ht hp hs _ ih =>
    exact .value (ht.trans_le hd.size_le) (hd.registry.type_eq ht ▸ hp) ((hd.style? ht).trans hs) ih
  | bound hs hv _ ih => exact .bound (hstyle hs) (hv.grown hd (lt_size_of_style? hs)) ih
  | struct hs hl hlt hobject _ _ ihi ih =>
    exact .struct (hstyle hs) (hl.extends hd.registry) (hlt.trans_le hd.size)
      ((hd.object _ hlt).trans hobject) ihi ih

theorem Writes.cons (h : d.Writes [t] [v] f) (h' : d.Writes ts vs c) :
    d.Writes (t :: ts) (v :: vs) (f ++ c) := by
  cases h with
  | number hp hslot hx h => cases h; exact .number hp hslot hx h'
  | value ht hp hs h => cases h; exact .value ht hp hs h'
  | bound hs hv h => cases h; exact .bound hs hv h'
  | struct hs hl hlt hobject hi h => cases h; exact .struct hs hl hlt hobject hi h'

/-- The values are defaults of the types: written to locations they leave what new locations
hold. -/
structure Defaults (d : Domain) (ts : List TypeId) (vs : List Value) (c : Content) : Prop where
  pristine : d.Pristine ts c
  writes : d.Writes ts vs c

theorem Defaults.grown (h : d.Defaults ts vs c) (hd : d.Grown d') : d'.Defaults ts vs c :=
  ⟨h.pristine.grown hd, h.writes.grown hd⟩

theorem Defaults.cons (h : d.Defaults [t] [v] f) (h' : d.Defaults ts vs c) :
    d.Defaults (t :: ts) (v :: vs) (f ++ c) :=
  ⟨h.pristine.cons h'.pristine, h.writes.cons h'.writes⟩

/-- Binders are for types of the host, and they can write the defaults of them. -/
structure Defaulting (d : Domain) : Prop where
  host : ∀ t b, d.style? t = some (.bound b) → ∃ type, (d.registry.type t).native? = some type
  writes : d.WritesDefaults

theorem Defaulting.exists_resets (h : d.Defaulting) (hs : d.style? t = some (.bound b)) :
    ∃ slots, d.Resets b t slots := by
  cases hdefault : (d.registry.type t).native?.bind HostType.default with
  | none => exact ⟨_, .inr ⟨hdefault, rfl⟩⟩
  | some data =>
    obtain ⟨slots, hwrite⟩ := h.writes t b hs data hdefault
    exact ⟨slots, .inl ⟨data, hdefault, hwrite⟩⟩

/-- The default of the type can be made in whatever the domain grows to. -/
def Makeable (d : Domain) (fuel : Nat) (t : TypeId) : Prop := ∀ d₁, d.Extends d₁ →
  Succeeds (defaultValue fuel t) d₁ fun v d₂ ↦ d₁.Allocates d₂ ∧
    ∃ f, f.depth < fuel ∧ d₂.Defaults [t] [v] f

/-- Structs whose fields are laid out are none of the host. -/
theorem native?_of_fields (hs : d.style? t = some .fields) :
    (d.registry.type t).native? = none := by
  simp only [style?] at hs
  split at hs
  · cases hs
  · split at hs
    · cases hs
    · split at hs
      · next hinterpreted =>
        rw [Descriptor.isInterpreted] at hinterpreted
        rw [Descriptor.native?]
        split at hinterpreted
        · next heq => rw [heq]
        · cases hinterpreted
      · cases hs

/-- A default that needs an object gets a new one. -/
theorem succeeds_new (fuel : Nat) (hp : (d.registry.type t).primitive? = none)
    (hhost : (d.registry.type t).isStruct = true → ∃ type, (d.registry.type t).native? =
      some type) :
    Succeeds (defaultValue (fuel + 1) t) d fun v d' ↦ d.Allocates d' ∧ d'.New t v := by
  have hask : ask (fun d ↦ d.registry.type t) d = .ok (d.registry.type t) d := rfl
  unfold defaultValue
  refine .bind_ok hask ?_
  simp only [hp]
  by_cases hstruct : (d.registry.type t).isStruct = true
  · obtain ⟨type, htype⟩ := hhost hstruct
    simp only [hstruct, htype]
    cases hdefault : type.default with
    | none => exact .pure ⟨.refl d, .null (.inl (by rw [htype]; exact hdefault))⟩
    | some data =>
      refine (succeeds_newObject d _).imp ?_
      rintro _ d' ⟨id, rfl, hallocates, hmade⟩
      have hregistry : d'.registry = d.registry := by rw [hallocates.same]
      exact ⟨hallocates, .host ⟨hregistry ▸ hstruct, hmade.there, type, data, hregistry ▸ htype,
        hmade.object, hdefault⟩⟩
  · replace hstruct := Bool.eq_false_of_not_eq_true hstruct
    simp only [hstruct]
    exact .pure ⟨.refl d, .null (.inr hstruct)⟩

variable {fuel : Nat}

theorem makeable_number {p : Primitive} (hp : (d.registry.type t).primitive? = some p)
    (hfuel : 0 < fuel) : d.Makeable fuel t := by
  intro d₁ hd
  obtain ⟨fuel, rfl⟩ := Nat.exists_eq_succ_of_ne_zero hfuel.ne'
  have hp' : (d₁.registry.type t).primitive? = some p :=
    hd.registry.type_eq (lt_size_of_primitive hp) ▸ hp
  have hask : ask (fun d ↦ d.registry.type t) d₁ = .ok (d₁.registry.type t) d₁ := rfl
  have hslot : (primitiveDefault p).slotFor p = .ok (.zero p) := by cases p <;> rfl
  unfold defaultValue
  refine .bind_ok hask ?_
  simp only [hp']
  exact .pure ⟨.refl _, .number (.zero p) .nil, hfuel, .number hp' .nil,
    .number hp' hslot (Slot.zero_numeric p) .nil⟩

theorem makeable_value (ht : t.index < d.registry.types.size)
    (hp : (d.registry.type t).primitive? = none) (hs : d.style? t = none) (hfuel : 0 < fuel) :
    d.Makeable fuel t := by
  intro d₁ hd
  obtain ⟨fuel, rfl⟩ := Nat.exists_eq_succ_of_ne_zero hfuel.ne'
  have hp' : (d₁.registry.type t).primitive? = none := hd.registry.type_eq ht ▸ hp
  have hs' : d₁.style? t = none := (hd.style? ht).trans hs
  refine (succeeds_new fuel hp' fun hstruct ↦ native?_of_style? hs' hstruct hp').imp
    fun v d₂ ⟨hallocates, hnew⟩ ↦ ⟨hallocates, .value v .nil, hfuel, ?_⟩
  have ht₂ : t.index < d₂.registry.types.size :=
    ht.trans_le (hd.size_le.trans hallocates.extends.size_le)
  have hp₂ : (d₂.registry.type t).primitive? = none := by rwa [hallocates.same]
  have hs₂ := (hallocates.extends.style? (ht.trans_le hd.size_le)).trans hs'
  exact ⟨.value ht₂ hp₂ hs₂ hnew.unset .nil, .value ht₂ hp₂ hs₂ .nil⟩

theorem makeable_plain (ht : t.index < d.registry.types.size) (hs : d.style? t = none)
    (hfuel : 0 < fuel) : d.Makeable fuel t := by
  cases hp : (d.registry.type t).primitive? with
  | some p => exact makeable_number hp hfuel
  | none => exact makeable_value ht hp hs hfuel

theorem makeable_bound (hs : d.style? t = some (.bound b)) (hdefaults : d.Defaulting)
    (hfuel : 1 < fuel) : d.Makeable fuel t := by
  intro d₁ hd
  obtain ⟨fuel, rfl⟩ := Nat.exists_eq_succ_of_ne_zero (Nat.ne_zero_of_lt hfuel)
  have ht := lt_size_of_style? hs
  have htype := hd.registry.type_eq ht
  obtain ⟨type, hnative⟩ := hdefaults.host t b hs
  obtain ⟨slots, hslots⟩ := hdefaults.exists_resets hs
  refine (succeeds_new fuel (htype ▸ (isStruct_of_style? hs).2) fun _ ↦ ⟨type, htype ▸ hnative⟩).imp
    fun v d₂ ⟨hallocates, hnew⟩ ↦ ⟨hallocates, .block t (.ofSlots slots) .nil, ?_, ?_⟩
  · rw [Content.depth, (Content.numeric_ofSlots slots).depth_eq]
    exact Nat.max_lt.mpr ⟨hfuel, Nat.succ_pos fuel⟩
  · have hd₂ := hd.trans hallocates.extends
    have hs₂ := (hd₂.style? ht).trans hs
    have hslots₂ := hslots.grown hd₂ ht
    exact ⟨.bound hs₂ hslots₂ .nil, .bound hs₂ (hnew.binds hslots₂) .nil⟩

/-- The defaults of some fields are made one after the other. -/
theorem succeeds_fieldDefaults {fs : List Field} {d₁ : Domain}
    (h : ∀ t ∈ fs.map Field.type, d.Makeable fuel t) (hd : d.Extends d₁) (hfuel : 0 < fuel) :
    Succeeds (fs.mapM fun f ↦ defaultValue fuel f.type) d₁ fun vs d₂ ↦ d₁.Allocates d₂ ∧
      ∃ c, c.depth < fuel ∧ d₂.Defaults (fs.map Field.type) vs c := by
  induction fs generalizing d₁ with
  | nil => exact .pure ⟨.refl d₁, .nil, hfuel, .nil, .nil⟩
  | cons f fs ih =>
    obtain ⟨hfirst, hrest⟩ := List.forall_mem_cons.mp h
    refine .mapM_cons ((hfirst d₁ hd).imp fun v d₂ ⟨hallocates, i, hi, hmade⟩ ↦ ?_)
    refine (ih hrest (hd.trans hallocates.extends)).imp fun vs d₃ ⟨hallocates', c, hc, hmade'⟩ ↦ ?_
    refine ⟨hallocates.trans hallocates', i ++ c, ?_, (hmade.grown hallocates'.grown).cons hmade'⟩
    rw [Content.depth_append]
    exact Nat.max_lt.mpr ⟨hi, hc⟩

/-- The default of a struct has the defaults of its fields, so it can be made with one unit of depth
more than they need. -/
theorem makeable_struct {l : FieldLayout} (hs : d.style? t = some .fields)
    (hl : d.registry.facts.layouts[t]? = some l) (hfuel : 0 < fuel)
    (hi : ∀ u ∈ l.instance_.map Field.type, d.Makeable fuel u) : d.Makeable (fuel + 1) t := by
  intro d₁ hd
  have ht := lt_size_of_style? hs
  have htype := hd.registry.type_eq ht
  obtain ⟨hstruct, hp⟩ := isStruct_of_style? hs
  have hask : ask (fun d ↦ d.registry.type t) d₁ = .ok (d₁.registry.type t) d₁ := rfl
  have hlayout : inRegistry (Registry.layout fuel t) d₁ = .ok l d₁ := by
    obtain ⟨fuel, rfl⟩ := Nat.exists_eq_succ_of_ne_zero hfuel.ne'
    simp only [inRegistry, Registry.layout_of_known (hd.registry.layouts t l hl)]
  unfold defaultValue
  refine .bind_ok hask ?_
  simp only [htype, hp, hstruct, native?_of_fields hs]
  refine .bind_ok hlayout ((succeeds_fieldDefaults hi hd hfuel).bind ?_)
  rintro vs d₂ ⟨hallocates, c, hc, hmade⟩
  refine (succeeds_newObject d₂ _).imp ?_
  rintro _ d₃ ⟨id, rfl, hallocates', hnew⟩
  refine ⟨hallocates.trans hallocates', .block t c .nil, ?_, ?_⟩
  · exact Nat.max_lt.mpr ⟨Nat.succ_lt_succ hc, Nat.succ_pos fuel⟩
  · have hd₃ := hd.trans (hallocates.extends.trans hallocates'.extends)
    have hs₃ := (hd₃.style? ht).trans hs
    have hl₃ := hd₃.registry.layouts t l hl
    have hmade₃ := hmade.grown hallocates'.grown
    exact ⟨.struct hs₃ hl₃ hmade₃.pristine .nil,
      .struct hs₃ (.of_known hl₃) hnew.there hnew.object hmade₃.writes .nil⟩

/-- By induction on what locations of the types hold. -/
theorem makeable (h : d.Typed ts c) (hdefaults : d.Defaulting) (hdepth : c.depth < fuel) :
    ∀ t ∈ ts, d.Makeable fuel t := by
  induction h generalizing fuel with
  | nil => nofun
  | number hp _ _ ih =>
    exact List.forall_mem_cons.mpr ⟨makeable_number hp (Nat.zero_lt_of_lt hdepth), ih hdepth⟩
  | value ht hp hs _ ih =>
    exact List.forall_mem_cons.mpr ⟨makeable_value ht hp hs (Nat.zero_lt_of_lt hdepth), ih hdepth⟩
  | bound hs _ _ _ ih =>
    obtain ⟨hdeep, hrest⟩ := Nat.max_lt.mp hdepth
    exact List.forall_mem_cons.mpr ⟨makeable_bound hs hdefaults (by omega), ih hrest⟩
  | struct hs hl _ _ ihi ih =>
    obtain ⟨hdeep, hrest⟩ := Nat.max_lt.mp hdepth
    obtain ⟨fuel, rfl⟩ := Nat.exists_eq_succ_of_ne_zero (Nat.ne_zero_of_lt hdepth)
    have hdeep := Nat.lt_of_succ_lt_succ hdeep
    exact List.forall_mem_cons.mpr
      ⟨makeable_struct hs hl (Nat.zero_lt_of_lt hdeep) (ihi hdeep), ih hrest⟩

end Domain

/-! ### Setting structs back -/

namespace Engine

open Stack

variable {r r' : Running} {d : Domain} {fuel a : Nat} {t : TypeId} {ts : List TypeId} {v : Value}
  {f c : Content}

/-- What was made before something is written takes no part in it. -/
theorem Rewritten.before {d : Domain} {st st' : Storage}
    (h : Rewritten (r.withDomain d) r' a st st' c)
    (hd : r.domain.Allocates d) : Rewritten r r' a st st' c :=
  { h with allocates := hd.trans h.allocates }

/-- A field is set back by writing the default of its type to it. -/
theorem writesField (h : d.Writes [t] [v] f) (hdepth : f.depth < fuel) :
    WritesField d t v f fuel := by
  cases h with
  | number hp hslot hx h =>
    cases h
    exact writesField_number hp hslot hx
  | value ht hp hs h =>
    cases h
    exact writesField_value ht hp hs (Nat.zero_lt_of_lt hdepth)
  | bound hs hv h =>
    cases h
    exact writesField_bound hs hv (Nat.zero_lt_of_lt hdepth)
  | @struct _ _ _ _ _ i _ _ _ hs hl hlt hobject hi h =>
    cases h
    have hdeep : i.depth + 1 < fuel := (Nat.le_max_left _ _).trans_lt hdepth
    obtain ⟨fuel, rfl⟩ : ∃ m, fuel = m + 2 := ⟨fuel - 2, by omega⟩
    exact writesField_struct hs hl hlt hobject (succeeds_writeLocations hi (by omega))

/-- A field is set to the default of its type. -/
theorem succeeds_resetField {sd : Storage} {cd : Content} (ht : d.Makeable fuel t)
    (hd : d.Extends r.domain) (htarget : r.stack.Stored a sd cd) (htyped : r.domain.Typed [t] cd)
    (hdistinct : sd.Distinct a) :
    Succeeds (Running.onDomain (Domain.defaultValue fuel t) >>= fun v ↦
      writeLocation (writeBoxed fuel) fuel a v t) r fun _ r' ↦ ∃ st' c',
        Rewritten r r' a sd st' c' ∧ r'.domain.Pristine [t] c' := by
  obtain ⟨v, d₁, hrun, hallocates, f, hdepth, hmade⟩ := ht r.domain hd
  refine .bind_ok (Running.onDomain_ok hrun) ?_
  refine (writesField hmade.writes hdepth (r.withDomain d₁) a sd cd (.refl d₁)
    ⟨htarget, htyped.extends hallocates.extends, hdistinct, hmade.pristine.lives⟩).imp
      fun _ r' ⟨st', f', hcopied⟩ ↦ ⟨st', f', ?_, ?_⟩
  · exact Rewritten.before hcopied.toRewritten hallocates
  · exact hmade.pristine.cloned hcopied.allocates.grown hcopied.maps

/-- By induction on the fields. -/
theorem succeeds_resetFields {fs : List Field} {b k : Nat} {sd : Storage} {cd : Content}
    (hfs : ∀ t ∈ fs.map Field.type, d.Makeable fuel t) (hd : d.Extends r.domain)
    (htarget : r.stack.Stored (b - 1 - k) sd cd) (htyped : r.domain.Typed (fs.map Field.type) cd)
    (hdistinct : sd.Distinct (b - 1 - k)) :
    Succeeds ((fs.zipIdx k).forM fun p ↦ Running.onDomain (Domain.defaultValue fuel p.1.type) >>=
      fun v ↦ writeLocation (writeBoxed fuel) fuel (b - 1 - p.2) v p.1.type) r fun _ r' ↦
        ∃ st' c', Rewritten r r' (b - 1 - k) sd st' c' ∧
          r'.domain.Pristine (fs.map Field.type) c' := by
  induction fs generalizing r k sd cd with
  | nil =>
    cases htyped
    cases htarget
    exact .pure ⟨.nil, .nil, Copied.nil.toRewritten, .nil⟩
  | cons field fs ih =>
    obtain ⟨hfirst, hrest⟩ := List.forall_mem_cons.mp hfs
    obtain ⟨first, rest, fd, cd', rfl, rfl, hone, hstored, htyped₁, hstored', htyped'⟩ :=
      exists_first htyped htarget
    refine .forM_cons ((succeeds_resetField hfirst hd hstored htyped₁ hdistinct.left).imp
      fun _ r₁ ⟨first', f', hwritten, hpristine⟩ ↦ ?_)
    have hright := hdistinct.right
    rw [hone] at hright
    refine (ih (k := k + 1) hrest (hd.trans hwritten.allocates.extends)
      (hwritten.rest hone hstored' hdistinct) (htyped'.extends hwritten.allocates.extends)
      hright).imp fun _ r' ⟨rest', c', hwritten', hpristine'⟩ ↦ ⟨first' ++ rest', f' ++ c', ?_, ?_⟩
    · exact hwritten.append (hone.symm ▸ hwritten') hdistinct hstored'.lt_managed
    · exact (hpristine.grown hwritten'.allocates.grown).cons hpristine'

/-- The struct holds what a new one does, in the slots that it had, and all else is as it was. -/
structure ResetBlock (r r' : Running) (t : TypeId) (b : Nat) (st : Storage) : Prop where
  block : ∃ st' c, r'.Struct t b st' c ∧ st'.slots (b - 1) = st.slots (b - 1) ∧
    r'.domain.Pristine [t] (.block t c .nil)
  within : r.stack.Within {x | x ∈ st.slots (b - 1)} {j | j ∈ st.entries} r'.stack
  allocates : r.domain.Allocates r'.domain

theorem ResetBlock.of_rewritten {st st' : Storage} {i : Content} {b : Nat} (hr : r.Struct t b st i)
    (h : Rewritten r r' (b - 1) st st' c) (hpristine : r'.domain.Pristine [t] (.block t c .nil)) :
    ResetBlock r r' t b st where
  block := by
    refine ⟨st', c, ⟨?_, h.stored, hpristine.typed, ⟨h.slots ▸ hr.distinct.slots, h.nodup⟩, ?_,
      hpristine.lives.1⟩, h.slots, hpristine⟩
    · rw [h.within.slot b hr.apart, h.length, hr.header]
    · rw [h.slots]
      exact hr.apart
  within := h.within
  allocates := h.allocates

/-- A struct that is set to null is set back. -/
theorem succeeds_resetBlock {st : Storage} {i : Content} {b : Nat} (hr : r.Struct t b st i)
    (hdefaults : r.domain.Defaulting) (hdepth : i.depth + 2 < fuel) :
    Succeeds (writeBoxed fuel b .null) r fun _ r' ↦ ResetBlock r r' t b st := by
  obtain ⟨fuel, rfl⟩ := Nat.exists_eq_succ_of_ne_zero (Nat.ne_zero_of_lt hdepth)
  have htyped := hr.typed
  cases htyped with
  | @bound _ b' _ _ _ hs hi hlength _ =>
    obtain ⟨slots, hslots⟩ := hdefaults.exists_resets hs
    refine (succeeds_writeBound hs (.null hslots) hr.header hr.stored hi hlength hr.distinct
      hr.apart).imp ?_
    rintro _ r' ⟨st', hcopied⟩
    refine .of_rewritten hr hcopied.toRewritten ?_
    have ht := Domain.lt_size_of_style? hs
    have hd := hcopied.allocates.extends
    exact .bound ((hd.style? ht).trans hs) (hslots.grown hd ht) .nil
  | @struct _ l _ _ _ hs hl hi _ =>
    obtain ⟨fuel, rfl⟩ := Nat.exists_eq_succ_of_ne_zero (show fuel ≠ 0 by omega)
    have hlength : st.length = l.instance_.length :=
      hr.stored.length_eq.trans (hi.length_eq.trans (List.length_map ..))
    have hreset := succeeds_resetFields (k := 0)
      (Domain.makeable hi hdefaults (show _ < fuel + 1 by omega)) (.refl _) hr.stored hi hr.distinct
    unfold writeBoxed
    refine .read (header_of_some hr.header)
      (.bind_ok (typeAt_of_lt (Domain.lt_size_of_style? hs)) (.bind_ok (inlineKind_known hs hl) ?_))
    refine .bind_ok (a := none) rfl (.congr ?_ (hreset.imp ?_))
    · rw [hlength, List.take_length]
      rfl
    · rintro _ r' ⟨st', c', hwritten, hpristine⟩
      refine .of_rewritten hr hwritten ?_
      have hd := hwritten.allocates.extends
      exact .struct ((hd.style? (Domain.lt_size_of_style? hs)).trans hs)
        (hd.registry.layouts t l hl) hpristine .nil

/-! ### Setting locations back -/

/-- What is stored to set a location back. -/
def resetCarry (fuel : Nat) (t : TypeId) : RunM Carry := do
  let d ← descriptor t
  match d.primitive? with
  | some p => return .slot (.zero p)
  | none =>
    if d.isStruct && !(← isInline fuel t) then
      return .value (← (Domain.defaultValue fuel t : DomainM Value))
    else return .slot .null

theorem initObject_eq (fuel : Nat) (t : TypeId) : initObject fuel t =
    (resetCarry fuel t >>= fun c ↦ do
      if ← storeThrough fuel (← top) c t then pop else outsideArray : RunM Unit) := by
  unfold initObject resetCarry
  rw [bind_assoc]
  refine congrArg _ (funext fun d ↦ ?_)
  cases d.primitive? with
  | some p => rfl
  | none =>
    rw [bind_assoc]
    refine congrArg (isInline fuel t >>= ·) (funext fun inline ↦ ?_)
    cases d.isStruct && !inline with
    | true => exact (bind_assoc ..).symm
    | false => rfl

end Engine

/-- The carry has what locations with the content have: a number, a value or a struct. -/
inductive Running.Shows (r : Running) : Carry → Content → Prop
  | number {k : Carry} {x : Slot} (h : k.plain = .slot x) : Shows r k (.number x .nil)
  | value {k : Carry} {v : Value} (h : k.plain = (Carry.value v).plain) : Shows r k (.value v .nil)
  | struct {t : TypeId} {b : Nat} {st : Storage} {i : Content} (h : r.Struct t b st i) :
    Shows r (.block b) (.block t i .nil)

/-- The spot is a location of the type, and it is not the place of the top operand. A struct is on
the stack. -/
inductive Running.Houses (r : Running) (t : TypeId) : Spot → Prop
  | cell {a : Nat} (ht : t.index < r.domain.registry.types.size) (hs : r.domain.style? t = none)
    (hentry : ∀ i, r.stack.slots[a]? = some (.object i) → i < r.stack.managed.size)
    (htop : a + 1 ≠ r.stack.top) : Houses r t (.cell a)
  | block {b : Nat} {st : Storage} {i : Content} (h : r.Struct t b st i)
    (htop : ∀ x ∈ st.cells b, x + 1 ≠ r.stack.top) : Houses r t (.block b)
  | heap {p : Spot} (hp : p.OnHeap) (ht : t.index < r.domain.registry.types.size)
    (hs : r.domain.style? t = none) : Houses r t p

/-- The location that the address leads to holds what storing the default of the type there leaves.
If it is on the stack the address still leads to it, and the fields of a struct can be reached. -/
structure Running.SetBack (r' : Running) (fuel : Nat) (t : TypeId) (s : Slot) (p : Spot) :
    Prop where
  default : Succeeds (Domain.defaultValue fuel t) r'.domain fun v d ↦ r'.domain.Grown d ∧
    ∃ f c, d.Writes [t] [v] f ∧ f.Maps d.Resembles c ∧
      ∀ s', r'.Refers s' p → ∃ k, loadThrough fuel s' r' = .ok k r' ∧ r'.Shows k c
  refers : ¬p.OnHeap → r'.Refers s p
  target : ∀ b, p = .block b → ∀ s', r'.Refers s' p → targetOf fuel s' r' = .ok (.block b) r'

namespace Engine

open Stack

variable {r r' : Running} {fuel : Nat} {t : TypeId} {s : Slot} {p : Spot} {c c' : Carry}
    {f : Content}

theorem shows_congr (h : r.Shows c f) (hc : c.IsData) (h' : c'.plain = c.plain) :
    r'.Shows c' f := by
  cases h with
  | number h => exact .number (h'.trans h)
  | value h => exact .value (h'.trans h)
  | struct => exact hc.elim

/-- A location that holds no struct is set back by a number or a reference. -/
theorem succeeds_resetCarry (fuel : Nat) (ht : t.index < r.domain.registry.types.size)
    (hs : r.domain.style? t = none) : Succeeds (resetCarry (fuel + 1) t) r fun c r' ↦ ∃ d f,
      r' = r.withDomain d ∧ r.domain.Allocates d ∧ d.Pristine [t] f ∧ c.IsData ∧ r.Shows c f ∧
      (Carry.value (c.converted (r.domain.registry.type t).primitive?)).plain = c.plain := by
  unfold resetCarry
  refine .bind_ok (descriptor_ok t r) ?_
  cases hp : (r.domain.registry.type t).primitive? with
  | some p =>
    refine .pure ⟨r.domain, _, rfl, .refl _, .number hp .nil, Slot.zero_numeric p, .number rfl, ?_⟩
    cases p <;> rfl
  | none =>
    have hkind : isInline (fuel + 1) t r = .ok false r := by
      unfold isInline
      exact (bind_of_ok (by rw [inlineKind_eq, hs])).trans rfl
    by_cases hstruct : (r.domain.registry.type t).isStruct = true
    · obtain ⟨v, d, hrun, hallocates, hnew⟩ := Domain.succeeds_new (d := r.domain) fuel hp fun h ↦
        native?_of_style? hs h hp
      have hregistry : d.registry = r.domain.registry := by rw [hallocates.same]
      have hd := hallocates.extends
      refine .bind_ok hkind ?_
      rw [hstruct]
      refine .bind_ok (Running.onDomain_ok hrun)
        (.pure ⟨d, .value v .nil, rfl, hallocates, ?_, trivial, .value rfl, rfl⟩)
      exact .value (hregistry ▸ ht) (hregistry ▸ hp) ((hd.style? ht).trans hs) hnew.unset .nil
    · replace hstruct := Bool.eq_false_of_not_eq_true hstruct
      refine .bind_ok hkind ?_
      rw [hstruct]
      refine .pure ⟨r.domain, .value .null .nil, rfl, .refl _, ?_, .inl rfl, .value rfl, rfl⟩
      exact .value ht hp hs (.null (.inr hstruct)) .nil

/-- Null is what a struct is set back by. -/
theorem resetCarry_inline {i : Content} (h : r.domain.Typed [t] (.block t i .nil)) :
    resetCarry (fuel + 1) t r = .ok (.slot .null) r := by
  obtain ⟨s, hs, k, hkind⟩ : ∃ s, r.domain.style? t = some s ∧
      ∃ k, inlineKind (fuel + 1) t r = .ok (some k) r := by
    cases h with
    | bound hs => exact ⟨_, hs, _, by rw [inlineKind_eq, hs]⟩
    | struct hs hl => exact ⟨_, hs, _, inlineKind_known hs hl⟩
  have hinline : isInline (fuel + 1) t r = .ok true r := (bind_of_ok hkind).trans rfl
  unfold resetCarry
  refine (bind_of_ok (descriptor_ok t r)).trans ?_
  rw [(Domain.isStruct_of_style? hs).2]
  refine (bind_of_ok hinline).trans ?_
  rw [Bool.not_true, Bool.and_false]
  rfl

/-- Popping an address frees no block, and addresses of slots own no entry. -/
theorem pop_address (hs : r.Refers s p) (htop : r.stack.topSlot = .ok s) : ∃ m,
    (pop : RunM Unit) r =
    .ok () (r.withStack { r.stack with top := r.stack.top - 1, managed := m }) ∧
      (¬p.OnHeap → m = r.stack.managed) := by
  obtain ⟨hpos, hslot⟩ := topSlot_ok htop
  have haddr : r.stack.topAddr = .ok (r.stack.top - 1) := if_neg hpos.ne'
  have hget : r.stack.slots.getD (r.stack.top - 1) .null = s := by
    rw [Array.getD_eq_getD_getElem?, hslot]
    rfl
  have hpop : Stack.pop r.stack = .ok ()
      (Stack.releaseSlotEntry s { r.stack with top := r.stack.top - 1 }) := by
    unfold Stack.pop
    rw [haddr]
    dsimp only
    rw [hget]
    cases hs <;> rfl
  obtain ⟨m, hm, hsame⟩ : ∃ m, Stack.releaseSlotEntry s { r.stack with top := r.stack.top - 1 } =
      { r.stack with top := r.stack.top - 1, managed := m } ∧
      (¬p.OnHeap → m = r.stack.managed) := by
    have hentry (e : Nat) (hp : p.OnHeap) : ∃ m,
        Stack.releaseEntry e { r.stack with top := r.stack.top - 1 } =
          { r.stack with top := r.stack.top - 1, managed := m } ∧
          (¬p.OnHeap → m = r.stack.managed) := by
      unfold Stack.releaseEntry
      split <;> exact ⟨_, rfl, fun h ↦ absurd hp h⟩
    cases hs with
    | field => exact hentry _ trivial
    | item => exact hentry _ trivial
    | _ => exact ⟨_, rfl, fun _ ↦ rfl⟩
  exact ⟨m, Running.onStack_ok (hpop.trans (congrArg _ hm)), hsame⟩

/-- The location holds what a new one does, and the address is still the top operand. -/
structure Refilled (r r' : Running) (t : TypeId) (s : Slot) (p : Spot) : Prop where
  growth : r.domain.Extends r'.domain
  top : r'.stack.top = r.stack.top
  topSlot : r'.stack.topSlot = .ok s
  refers : r'.Refers s p
  shown : ∃ c, r'.domain.Pristine [t] c ∧ ∀ r'', r''.domain = r'.domain →
    r''.stack.slots = r'.stack.slots → (¬p.OnHeap → r''.stack.managed = r'.stack.managed) →
      ∀ n s', r''.Refers s' p → ∃ k, loadThrough n s' r'' = .ok k r'' ∧ r''.Shows k c

/-- Then the address is popped. -/
theorem Refilled.pop (h : Refilled r r' t s p) (ht : r.domain.Makeable fuel t) (hfuel : 1 < fuel) :
    Succeeds (pop : RunM Unit) r' fun _ r'' ↦
      r''.stack.top + 1 = r.stack.top ∧ r''.SetBack fuel t s p := by
  obtain ⟨m, hpop, hm⟩ := pop_address h.refers h.topSlot
  obtain ⟨hpos, -⟩ := topSlot_ok h.topSlot
  obtain ⟨c, hc, hshows⟩ := h.shown
  refine .of_ok hpop ⟨(Nat.sub_add_cancel hpos).trans h.top, ?_, ?_, ?_⟩
  · refine (ht r'.domain h.growth).imp fun v d ⟨hallocates, f, _, hmade⟩ ↦ ⟨hallocates.grown, f, c,
      hmade.writes, hmade.pristine.maps (hc.grown hallocates.grown), ?_⟩
    exact hshows (r'.withStack { r'.stack with top := r'.stack.top - 1, managed := m }) rfl rfl
      hm fuel
  · intro hp
    cases h.refers with
    | cell hslot hblock hheader => exact .cell hslot hblock hheader
    | header hslot => exact .header hslot
    | block hslot => exact .block hslot
    | _ => exact absurd trivial hp
  · rintro b rfl s' hs'
    obtain ⟨fuel, rfl⟩ : ∃ n, fuel = n + 2 := ⟨fuel - 2, by omega⟩
    cases hs' with
    | header h =>
      unfold targetOf
      exact (bind_of_ok (by rw [read, slotAt_of_some h])).trans rfl
    | block h => exact targetOf_block h

/-- What fills a cell is no struct. -/
theorem Filling.not_block {a b : Nat} {x y : Slot} (h : Filling r r' a x c) (hc : c.IsData)
    (hy : r'.stack.slots[a]? = some y) : y ≠ .block b := by
  rintro rfl
  obtain ⟨k, hload, hk⟩ := h.load
  have hblock : loadCarry a r' = .ok (.block b) r' :=
    (bind_of_ok (by rw [read, slotAt_of_some hy])).trans rfl
  obtain ⟨rfl, -⟩ := EStateM.Result.ok.inj (hblock.symm.trans hload)
  cases c with
  | slot => cases hk
  | value v => cases v <;> cases hk
  | _ => exact hc.elim

theorem topSlot_of_within {s' : Stack} {A E : Set Nat} (htop : r.stack.topSlot = .ok s)
    (hw : r.stack.Within A E s') (hA : ∀ x ∈ A, x + 1 ≠ r.stack.top) : s'.topSlot = .ok s := by
  obtain ⟨hpos, hslot⟩ := topSlot_ok htop
  have haddr : s'.topAddr = .ok (r.stack.top - 1) := by
    rw [topAddr, hw.top, if_neg hpos.ne']
  rw [Stack.topSlot, haddr]
  refine slotAt_of_some ((hw.slot _ fun h ↦ ?_).trans hslot)
  exact hA _ h (Nat.sub_add_cancel hpos)

/-- A cell takes what is stored to it. -/
theorem refilled_cell (fuel : Nat) {d : Domain} {a : Nat} (hs : r.Refers s (.cell a))
    (htop : r.stack.topSlot = .ok s)
    (hentry : ∀ i, r.stack.slots[a]? = some (.object i) → i < r.stack.managed.size)
    (hne : a + 1 ≠ r.stack.top) (hallocates : r.domain.Allocates d) (hpristine : d.Pristine [t] f)
    (hc : c.IsData) (hshows : r.Shows c f) : ∃ r',
      storeThrough fuel s c t (r.withDomain d) = .ok true r' ∧ Refilled r r' t s (.cell a) := by
  cases hs with
  | @cell _ x hslot hblock hheader =>
    have hx : x.isHeader = false := by cases x <;> first | rfl | exact absurd rfl (hheader _ _)
    obtain ⟨r₂, hstore, hfilling⟩ := filling_storeInto (r := r.withDomain d) fuel
      hslot hblock (fun i hi _ ↦ hentry i (hi ▸ hslot)) hc
    obtain ⟨y, hy, hyheader⟩ := hfilling.slot
    obtain ⟨k, hload, hk⟩ := hfilling.load
    have hdomain : r₂.domain = d := hfilling.domain
    refine ⟨r₂, (storeThrough_cell (r := r.withDomain d) hslot hx).trans (bind_of_ok hstore), ?_,
      ?_, ?_, ?_, ?_⟩
    · exact hdomain ▸ hallocates.extends
    · exact hfilling.within.top
    · exact topSlot_of_within (r := r.withDomain d) htop hfilling.within
        fun _ h ↦ (Set.mem_singleton_iff.mp h) ▸ hne
    · exact .cell hy (fun b ↦ hfilling.not_block hc hy) fun t n h ↦ by
        rw [h] at hyheader; cases hyheader
    · refine ⟨f, hdomain ▸ hpristine, fun r'' _ hslots hmanaged n s' hs' ↦ ?_⟩
      cases hs' with
      | cell =>
        have hy'' : r''.stack.slots[a]? = some y := by rw [hslots, hy]
        refine ⟨k, (loadThrough_cell hy'' hyheader).trans ?_, shows_congr hshows hc hk⟩
        exact loadCarry_congr (by rw [hslots]) (fun _ _ _ _ _ ↦ by rw [hmanaged not_false]) hload

theorem refers_allocates {d : Domain} (h : r.Refers s p) (hd : r.domain.Allocates d) :
    (r.withDomain d).Refers s p := by
  have hobject {id : ObjectId} {i : Nat} (hi : i < (r.domain.heap.object id).members.size) :
      d.heap.object id = r.domain.heap.object id :=
    hd.object id (Domain.lt_size_of_member (Array.getElem?_eq_getElem hi))
  have hstatics : d.statics = r.domain.statics := by rw [hd.same]
  have hregistry : d.registry = r.domain.registry := by rw [hd.same]
  cases h with
  | cell hslot hblock hheader => exact .cell hslot hblock hheader
  | header hslot => exact .header hslot
  | block hslot => exact .block hslot
  | field hentry ho hi => exact .field hentry ((hobject (by rw [ho]; exact hi)).trans ho) hi
  | item hentry ho hi => exact .item hentry ((hobject (by rw [ho]; exact hi)).trans ho) hi
  | static ht hs hi => exact .static (hregistry ▸ ht) (hstatics ▸ hs) hi

/-- A location on the heap takes what the carry is converted to. -/
theorem refilled_heap (fuel : Nat) {d : Domain} (hs : r.Refers s p) (hp : p.OnHeap)
    (htop : r.stack.topSlot = .ok s) (hallocates : r.domain.Allocates d)
    (hpristine : d.Pristine [t] f) (hc : c.IsData) (hshows : r.Shows c f)
    (hconverted : (Carry.value (c.converted (r.domain.registry.type t).primitive?)).plain =
      c.plain) :
    ∃ r', storeThrough fuel s c t (r.withDomain d) = .ok true r' ∧ Refilled r r' t s p := by
  have hs' := refers_allocates hs hallocates
  have hregistry : d.registry = r.domain.registry := by rw [hallocates.same]
  obtain ⟨w, hw⟩ := exists_at? hs' hp
  have hpreserves := d.preserves_put (c.converted (d.registry.type t).primitive?) p
  refine ⟨_, storeThrough_ok hs' hp (carryValue_data hc), ?_, rfl, htop, hs'.put, f,
    hpristine.preserved hpreserves, fun r'' hdomain _ _ n s' hs'' ↦ ?_⟩
  · exact hallocates.extends.trans hpreserves.toExtends
  · refine ⟨.value (c.converted (d.registry.type t).primitive?), loadThrough_ok hs'' ?_, ?_⟩
    · rw [hdomain]
      exact Domain.at?_put_self hw
    · refine shows_congr hshows hc ?_
      rw [← hconverted, ← hregistry]

/-- A pointer to a block that is stored somewhere is stored with the block. -/
theorem header_mem {st : Stack} {a x b : Nat} {ss : Storage} {c : Content} (h : st.Stored a ss c)
    (hx : x ∈ ss.slots a) (hslot : st.slots[x]? = some (.block b)) : b ∈ ss.slots a := by
  induction h with
  | nil => cases hx
  | number hslot' hbare _ ih =>
    rcases List.mem_cons.mp hx with rfl | hx
    · cases hslot'.symm.trans hslot
      rcases hbare with h | h <;> cases h
    · exact List.mem_cons_of_mem _ (ih hx)
  | null hslot' _ ih =>
    rcases List.mem_cons.mp hx with rfl | hx
    · cases hslot'.symm.trans hslot
    · exact List.mem_cons_of_mem _ (ih hx)
  | entry hslot' _ _ ih =>
    rcases List.mem_cons.mp hx with rfl | hx
    · cases hslot'.symm.trans hslot
    · exact List.mem_cons_of_mem _ (ih hx)
  | @block a d _ inner rest _ _ hslot' hheader _ _ ihi ih =>
    rw [Storage.slots] at hx ⊢
    simp only [List.cons_append, List.mem_cons, List.mem_append] at hx ⊢
    rcases hx with rfl | rfl | hx | hx
    · cases hslot'.symm.trans hslot
      exact .inr (.inl rfl)
    · cases hheader.symm.trans hslot
    · exact .inr (.inr (.inl (ihi hx)))
    · exact .inr (.inr (.inr (ih hx)))

theorem loadThrough_block {n b : Nat} (hs : r.Refers s (.block b)) :
    loadThrough n s r = .ok (.block b) r := by
  cases hs with
  | header hslot =>
    unfold loadThrough
    exact (bind_of_ok (by rw [read, slotAt_of_some hslot])).trans rfl
  | @block a _ hslot =>
    have hload : loadCarry a r = .ok (.block b) r :=
      (bind_of_ok (by rw [read, slotAt_of_some hslot])).trans rfl
    exact (loadThrough_cell hslot rfl).trans hload

/-- A struct on the stack is set back in place. -/
theorem refilled_block {b : Nat} {st : Storage} {i : Content} (hs : r.Refers s (.block b))
    (htop : r.stack.topSlot = .ok s) (hr : r.Struct t b st i)
    (hne : ∀ x ∈ st.cells b, x + 1 ≠ r.stack.top) (hdefaults : r.domain.Defaulting)
    (hdepth : i.depth + 2 < fuel) : ∃ r',
      storeThrough fuel s (.slot .null) t r = .ok true r' ∧ Refilled r r' t s (.block b) := by
  obtain ⟨_, r₂, hrun, ⟨st', c, hr₂, -, hpristine⟩, hwithin, hallocates⟩ :=
    succeeds_resetBlock hr hdefaults hdepth
  have htop₂ := topSlot_of_within htop hwithin fun x hx ↦ hne x (List.mem_cons_of_mem _ hx)
  have hshows (r'' : Running) (hdomain : r''.domain = r₂.domain)
      (hslots : r''.stack.slots = r₂.stack.slots) (hmanaged : r''.stack.managed = r₂.stack.managed)
      (n : Nat) (s' : Slot) (hs' : r''.Refers s' (.block b)) :
      ∃ k, loadThrough n s' r'' = .ok k r'' ∧ r''.Shows k (.block t c .nil) := by
    refine ⟨.block b, loadThrough_block hs', .struct ⟨?_, ?_, hdomain ▸ hr₂.typed, hr₂.distinct,
      hr₂.apart, hdomain ▸ hr₂.lives⟩⟩
    · rw [hslots, hr₂.header]
    · exact hr₂.stored.congr (fun _ _ ↦ by rw [hslots]) fun _ _ ↦ by rw [hmanaged]
  have hrefilled (hrefers : r₂.Refers s (.block b)) : Refilled r r₂ t s (.block b) :=
    ⟨hallocates.extends, hwithin.top, htop₂, hrefers, .block t c .nil, hpristine,
      fun r'' hdomain hslots hmanaged ↦ hshows r'' hdomain hslots (hmanaged not_false)⟩
  cases hs with
  | header hheader =>
    refine ⟨r₂, ?_, hrefilled (.header hr₂.header)⟩
    unfold storeThrough
    exact (bind_of_ok (by rw [read, slotAt_of_some hheader])).trans (bind_of_ok hrun)
  | @block a _ hslot =>
    have hout : a ∉ st.slots (b - 1) := fun h ↦ hr.apart (header_mem hr.stored h hslot)
    refine ⟨r₂, ?_, hrefilled (.block ((hwithin.slot a hout).trans hslot))⟩
    have hstore : storeInto fuel a (.slot .null) r = .ok () r₂ := by
      refine (bind_of_ok (by rw [read, slotAt_of_some hslot])).trans ?_
      exact hrun
    exact (storeThrough_cell hslot rfl).trans (bind_of_ok hstore)

/-- Whatever address leads to a location of the type, setting the location back leaves there what
storing the default of the type would, and the fields of a struct can be reached as before. -/
theorem initObject_setsBack (hs : r.Refers s p) (htop : r.stack.topSlot = .ok s) (hp : r.Houses t p)
    (hdefaults : r.domain.Defaulting) : ∀ᶠ fuel in Filter.atTop, Succeeds (initObject fuel t) r
      fun _ r' ↦ r'.stack.top + 1 = r.stack.top ∧ r'.SetBack fuel t s p := by
  have hset (fuel : Nat) (hmake : r.domain.Makeable fuel t) (hfuel : 1 < fuel) {c : Carry}
      {r₁ r₂ : Running} (hcarry : resetCarry fuel t r = .ok c r₁) (htop : r₁.stack.topSlot = .ok s)
      (hstore : storeThrough fuel s c t r₁ = .ok true r₂) (h : Refilled r r₂ t s p) :
      Succeeds (initObject fuel t) r fun _ r' ↦
        r'.stack.top + 1 = r.stack.top ∧ r'.SetBack fuel t s p := by
    rw [initObject_eq]
    exact .bind_ok hcarry (.read htop (.bind_ok hstore (h.pop hmake hfuel)))
  cases hp with
  | cell ht hstyle hentry hne =>
    filter_upwards [Filter.eventually_gt_atTop 1] with fuel hfuel
    obtain ⟨fuel, rfl⟩ := Nat.exists_eq_succ_of_ne_zero (Nat.ne_zero_of_lt hfuel)
    obtain ⟨c, _, hcarry, d, f, rfl, hallocates, hpristine, hc, hshows, -⟩ :=
      succeeds_resetCarry fuel ht hstyle
    obtain ⟨r₂, hstore, hrefilled⟩ := refilled_cell (fuel + 1) (t := t) hs htop hentry hne
      hallocates hpristine hc hshows
    exact hset _ (Domain.makeable_plain ht hstyle (Nat.succ_pos fuel)) hfuel hcarry htop hstore
      hrefilled
  | @block b st i hr hne =>
    filter_upwards [Filter.eventually_gt_atTop (i.depth + 2)] with fuel hdepth
    obtain ⟨fuel, rfl⟩ := Nat.exists_eq_succ_of_ne_zero (Nat.ne_zero_of_lt hdepth)
    obtain ⟨r₂, hstore, hrefilled⟩ := refilled_block hs htop hr hne hdefaults hdepth
    have hdeep : (Content.block t i .nil).depth < fuel + 1 :=
      Nat.max_lt.mpr ⟨by omega, Nat.succ_pos fuel⟩
    exact hset _ (Domain.makeable hr.typed hdefaults hdeep t List.mem_cons_self) (by omega)
      (resetCarry_inline hr.typed) htop hstore hrefilled
  | heap hp ht hstyle =>
    filter_upwards [Filter.eventually_gt_atTop 1] with fuel hfuel
    obtain ⟨fuel, rfl⟩ := Nat.exists_eq_succ_of_ne_zero (Nat.ne_zero_of_lt hfuel)
    obtain ⟨c, _, hcarry, d, f, rfl, hallocates, hpristine, hc, hshows, hconverted⟩ :=
      succeeds_resetCarry fuel ht hstyle
    obtain ⟨r₂, hstore, hrefilled⟩ := refilled_heap (fuel + 1) hs hp htop hallocates hpristine
      hc hshows hconverted
    exact hset _ (Domain.makeable_plain ht hstyle (Nat.succ_pos fuel)) hfuel hcarry htop hstore
      hrefilled

/-- A struct outside of the stack is not set back: null takes its place. -/
theorem initObject_nulls (fuel : Nat) {i : Content} (hs : r.Refers s p) (hp : p.OnHeap)
    (htop : r.stack.topSlot = .ok s) (ht : r.domain.Typed [t] (.block t i .nil)) :
    Succeeds (initObject (fuel + 1) t) r fun _ r' ↦ r'.domain.at? p = some .null := by
  obtain ⟨w, hw⟩ := exists_at? hs hp
  have hstore : storeThrough (fuel + 1) s (.slot .null) t r = .ok true
      (r.withDomain (r.domain.put .null p)) := storeThrough_ok hs hp rfl
  obtain ⟨m, hpop, -⟩ := pop_address (r := r.withDomain (r.domain.put .null p)) hs.put htop
  rw [initObject_eq]
  refine .bind_ok (resetCarry_inline ht) (.read htop (.bind_ok hstore (.of_ok hpop ?_)))
  exact Domain.at?_put_self hw

end Engine

/-! ### Structs in a local and in a static field -/

/-- Two locals with structs, a static field with the box of one, and an operand. -/
def Running.addressed (s : Slot) : Running :=
  (nests.withDomain { Domain.nests with
    heap := ⟨#[.instance_ ⟨1⟩ #[.null] false]⟩
    statics := Std.HashMap.insert ∅ ⟨3⟩ ⟨#[.object ⟨0⟩], .untouched⟩ }).withStack
      (nests.stack.pushed s)

namespace Running

variable {s : Slot}

theorem defaulting_addressed : (addressed s).domain.Defaulting where
  host _ _ h := nomatch (Domain.binder_of_style? h).symm.trans (Domain.binder_nests _)
  writes _ _ h := nomatch (Domain.binder_of_style? h).symm.trans (Domain.binder_nests _)

theorem typed_addressed {ts : List TypeId} {c : Content} (h : Domain.nests.Typed ts c) :
    (addressed s).domain.Typed ts c := h.extends (.of_eq rfl rfl rfl)

theorem statics_addressed :
    (addressed s).domain.statics[(⟨3⟩ : TypeId)]? = some ⟨#[.object ⟨0⟩], .untouched⟩ :=
  Std.HashMap.getElem?_insert_self

theorem struct_addressed : (addressed s).Struct ⟨2⟩ 18 (.entry 0 (.block 15 (.entry 1 .nil) .nil))
    (.value (.string "a") (.block ⟨1⟩ (.value (.string "b") .nil) .nil)) where
  header := rfl
  stored := .entry rfl rfl (.block rfl rfl (.entry rfl rfl .nil) .nil)
  typed := typed_addressed struct_last.typed
  distinct := struct_last.distinct
  apart := struct_last.apart
  lives := ⟨nofun, ⟨nofun, trivial⟩, trivial⟩

end Running

namespace Engine

/-- The local is set back. -/
theorem initObject_setsBack_local : ∀ᶠ fuel in Filter.atTop, Succeeds (initObject fuel ⟨2⟩)
    (.addressed (.stackRef 0)) fun _ r' ↦ r'.stack.top + 1 = 3 ∧
      r'.SetBack fuel ⟨2⟩ (.stackRef 0) (.block 18) :=
  initObject_setsBack (.block rfl) rfl (.block Running.struct_addressed (by decide))
    Running.defaulting_addressed

/-- The static field is not: the struct is gone. -/
theorem struct_left_null : ¬∀ (r : Running) (s : Slot) (p : Spot) (t : TypeId) (id : ObjectId),
    r.Refers s p → r.stack.topSlot = .ok s → r.domain.at? p = some (.object id) →
    r.domain.heap.type id = t → r.domain.Defaulting → ∀ᶠ fuel in Filter.atTop,
      Succeeds (initObject fuel t) r fun _ r' ↦ ∃ id', r'.domain.at? p = some (.object id') ∧
        r'.domain.heap.type id' = t := by
  intro h
  have hat : (Running.addressed (.staticRef ⟨3⟩ 0)).domain.at? (.static ⟨3⟩ 0) =
      some (.object ⟨0⟩) := by
    rw [Domain.at?, Running.statics_addressed]
    rfl
  have hrefers : (Running.addressed (.staticRef ⟨3⟩ 0)).Refers (.staticRef ⟨3⟩ 0) (.static ⟨3⟩ 0) :=
    .static (by decide) Running.statics_addressed (by decide)
  have htyped : (Running.addressed (.staticRef ⟨3⟩ 0)).domain.Typed [⟨1⟩]
      (.block ⟨1⟩ (.value .null .nil) .nil) :=
    Running.typed_addressed (Domain.typed_inner .null .nil)
  obtain ⟨fuel, hset, hfuel⟩ := ((h _ _ _ ⟨1⟩ ⟨0⟩ hrefers rfl hat rfl
    Running.defaulting_addressed).and (Filter.eventually_gt_atTop 0)).exists
  obtain ⟨fuel, rfl⟩ := Nat.exists_eq_succ_of_ne_zero hfuel.ne'
  obtain ⟨_, r', hrun, id', hobject, -⟩ := hset
  obtain ⟨_, r₂, hrun', hnull⟩ := initObject_nulls fuel hrefers trivial rfl htyped
  obtain ⟨-, rfl⟩ := EStateM.Result.ok.inj (hrun'.symm.trans hrun)
  cases hnull.symm.trans hobject

end Engine

end ManagedMachine
