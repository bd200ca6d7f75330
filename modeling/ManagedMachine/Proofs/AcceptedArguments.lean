import ManagedMachine.Proofs.BindingTables
import ManagedMachine.Proofs.CoreTypes
import ManagedMachine.Proofs.InterpreterReuse
import ManagedMachine.Proofs.Marshaling
import ManagedMachine.Proofs.Resetting

/-!
# Arguments that were accepted

The host's arguments are checked against the parameter types before a call, and converted when they
are pushed. A number that passes the check is converted without loss of a case, a reference always
has a place on the stack, and a struct is written to a block if its fields are what its type has.
The check does not look into an object, so it also lets boxed numbers through, and structs whose
fields do not suit them. Those are found out only while they are pushed.

What the check promises is said by `slotFor_of_fits` and `object_of_fits`: one case for each kind of
value that passes. Pushing is followed in terms of places (`Stack.Places`): each argument takes one
operand slot and what its struct needs at the other end of the stack, so the room that a call needs
is known before the first argument is pushed. The main result (`accepted_arguments_pushed`) says
that arguments which passed are pushed one after the other, and that arguments which did not pass
leave the domain to itself.
-/

set_option autoImplicit false
set_option relaxedAutoImplicit false

namespace ManagedMachine

open Engine

/-! ### Types that nothing derives from -/

namespace Registry

variable {r r' : Registry} {s t : TypeId} {fuel : Nat}

/-- The type is none of the core library's and no interface, and no type is known to derive from
it. -/
structure Sealed (r : Registry) (t : TypeId) : Prop where
  foreign : CoreLibrary.find? (r.typeName t) = none
  closed : (r.type t).isInterface = false
  underived : ∀ s : TypeId, r.facts.bases[s]? ≠ some (some t)

theorem bases_of_baseType {base : Option TypeId} (h : baseType s r = .ok base r') :
    r'.facts.bases[s]? = some base := by
  rw [baseType, ask_bind] at h
  cases hknown : r.facts.bases[s]? with
  | some b =>
    rw [hknown] at h
    cases h
    exact hknown
  | none =>
    rw [hknown] at h
    obtain ⟨d, r₁, -, h⟩ := exists_of_bind h
    obtain ⟨b, r₂, -, h⟩ := exists_of_bind h
    cases h
    exact Std.HashMap.getElem?_insert_self

/-- A walk along the bases that ends at a type has found a type that derives from it. -/
theorem base_of_reaches (ht : r.Has t) (hclosed : (r.type t).isInterface = false)
    (h : reaches t fuel s r = .ok true r') :
    s = t ∧ r' = r ∨ ∃ a : TypeId, r'.facts.bases[a]? = some (some t) := by
  induction fuel generalizing s r with
  | zero => cases h
  | succ fuel ih =>
    unfold reaches at h
    split at h
    · next hst =>
      cases h
      exact .inl ⟨hst, rfl⟩
    · rw [ask_bind, hclosed] at h
      obtain ⟨base, r₁, hbase, h⟩ := exists_of_bind (x := baseType s) h
      cases base with
      | none => cases h
      | some b =>
        have hgrown : r.Extends r₁ := (grows_baseType s).ok hbase
        rcases ih (hgrown.has ht) (hgrown.type_eq ht ▸ hclosed) h with ⟨rfl, rfl⟩ | hderived
        · exact .inr ⟨s, bases_of_baseType hbase⟩
        · exact .inr hderived

/-- Only the type itself is assignable to a type that nothing derives from. -/
theorem Sealed.eq_of_isAssignable (hsealed : r'.Sealed t) (ht : r.Has t)
    (h : isAssignable fuel s t r = .ok true r') : s = t := by
  have hgrown : r.Extends r' := (grows_isAssignable fuel s t).ok h
  have hname : r'.typeName t = r.typeName t := hgrown.typeName_eq ht
  have hclosed : (r.type t).isInterface = false := hgrown.type_eq ht ▸ hsealed.closed
  unfold isAssignable at h
  obtain ⟨r₀, _, hget, h⟩ := exists_of_bind h
  cases hget
  split at h
  · assumption
  · split at h
    · next hobject =>
      have hfind : (CoreLibrary.find? CoreLibrary.objectName).isSome = true := rfl
      rw [← hobject, ← hname, hsealed.foreign] at hfind
      cases hfind
    · rcases base_of_reaches ht hclosed h with ⟨hst, -⟩ | ⟨a, ha⟩
      · exact hst
      · exact absurd ha (hsealed.underived a)

end Registry

/-! ### What the check tells -/

namespace Domain

variable {d d' d₁ : Domain} {v : Value} {t s : TypeId} {fuel : Nat} {p : Primitive}

/-- Operations were run on the registry. Objects and interpreters are what they were. -/
structure Consults (d d' : Domain) : Prop where
  reached : d.registry.Reached → d'.registry.Reached
  heap : d'.heap = d.heap
  pool : d'.pool = d.pool

instance : IsPreorder Domain Consults where
  refl _ := ⟨id, rfl, rfl⟩
  trans _ _ _ h h' := ⟨h'.reached ∘ h.reached, h'.heap.trans h.heap, h'.pool.trans h.pool⟩

theorem consults_inRegistry {α : Type} {x : RegistryM α} (hx : Registry.Operation x) :
    Keeps Consults (inRegistry x) := by
  intro d
  have hend : endState (inRegistry x) d = { d with registry := endState x d.registry } := by
    simp only [endState, inRegistry]
    cases x d.registry <;> rfl
  rw [hend]
  exact ⟨fun h ↦ h.step hx, rfl, rfl⟩

theorem consults_ask {α : Type} (query : Domain → α) : Keeps Consults (ask query) :=
  fun d ↦ refl_of Consults d

theorem consults_typeOfValue (v : Value) : Keeps Consults (typeOfValue v) := by
  cases v with
  | null => exact .pure _
  | object id => exact (consults_ask _).bind fun _ ↦ .pure _
  | _ => exact (consults_inRegistry (.resolveIn _ _)).bind fun _ ↦ .pure _

/-- The check asks the registry, and changes nothing that a later check would see. -/
theorem consults_fits (fuel : Nat) (v : Value) (t : TypeId) : Keeps Consults (fits fuel v t) := by
  unfold fits
  refine (consults_ask _).bind fun expected ↦ ?_
  split
  · exact .pure _
  · split
    · exact .pure _
    · split
      · unfold fitsPrimitive
        split
        all_goals first | exact .pure _ | exact consults_ask _
      · refine (consults_typeOfValue v).bind fun source ↦ ?_
        split
        · exact .pure _
        · exact consults_inRegistry (.isAssignable _ _ _)

theorem consults_checkArguments (fuel : Nat) (args : List Value) (params : List TypeId) :
    Keeps Consults (checkArguments fuel args params) := by
  refine .forM (fun ⟨⟨v, t⟩, i⟩ ↦ (consults_fits fuel v t).bind fun fit ↦ ?_) _
  split
  · exact .pure _
  · exact (consults_ask _).bind fun _ ↦ .throw _

theorem grown_fits {b : Bool} (h : fits fuel v t d = .ok b d') : d.Grown d' := by
  have hextends : d.Extends d' := (grows_fits fuel v t).ok h
  have hheap : d'.heap = d.heap := ((consults_fits fuel v t).ok h).heap
  exact ⟨hextends, hheap ▸ Nat.le_refl _, fun _ _ ↦ by rw [hheap]⟩

/-- Values that are no objects have types of the core library. -/
theorem typeOfValue_ok (hreached : d.registry.Reached)
    (h : typeOfValue v d = .ok (some s) d') :
    (∃ id, v = .object id ∧ d.heap.type id = s) ∨
      (CoreLibrary.find? (d'.registry.typeName s)).isSome = true := by
  have hcore {name : String} (hname : (CoreLibrary.find? name).isSome = true)
      (h : (do return some (← Registry.coreType name) : DomainM (Option TypeId)) d =
        .ok (some s) d') : (CoreLibrary.find? (d'.registry.typeName s)).isSome = true := by
    obtain ⟨type, htype⟩ := Option.isSome_iff_exists.mp hname
    obtain ⟨t, r, ht, hnamed⟩ := hreached.coreType_ok htype
    obtain ⟨t', d₁, hrun, h⟩ := exists_of_bind h
    cases h
    cases (inRegistry_ok hrun).symm.trans ht
    rw [hnamed]
    exact hname
  cases v with
  | null => cases h
  | object id =>
    cases h
    exact .inl ⟨id, rfl, rfl⟩
  | _ => exact .inr (hcore rfl h)

/-- Only structs of the type itself are accepted for a struct that is stored inline. -/
theorem object_of_fits (hreached : d.registry.Reached) {style : Style}
    (hs : d.style? t = some style) (hsealed : d'.registry.Sealed t)
    (h : fits fuel v t d = .ok true d') : ∃ id, v = .object id ∧ d.heap.type id = t := by
  obtain ⟨hstruct, hp⟩ := isStruct_of_style? hs
  have ht : d.registry.Has t := lt_size_of_style? hs
  unfold fits at h
  obtain ⟨expected, _, hask, h⟩ := exists_of_bind h
  cases hask
  split at h
  · cases h
  split at h
  · next hparameter =>
    rw [Descriptor.isParameter] at hparameter
    split at hparameter
    · next hshape =>
      rw [Descriptor.isStruct, Descriptor.native?, Descriptor.typeDef?, hshape] at hstruct
      cases hstruct
    · cases hparameter
  rw [hp] at h
  obtain ⟨source, d₁, htype, h⟩ := exists_of_bind h
  cases source with
  | none =>
    rw [hstruct] at h
    cases h
  | some s =>
    have hassign : Registry.isAssignable fuel s t d₁.registry = .ok true d'.registry :=
      inRegistry_ok h
    have ht₁ : d₁.registry.Has t := ((grows_typeOfValue v).ok htype : d.Extends d₁).registry.has ht
    obtain rfl := hsealed.eq_of_isAssignable ht₁ hassign
    refine (typeOfValue_ok hreached htype).resolve_right fun hcore ↦ ?_
    have hgrown : d₁.registry.Extends d'.registry :=
      (Registry.grows_isAssignable fuel s s).ok hassign
    rw [← hgrown.typeName_eq ht₁, hsealed.foreign] at hcore
    cases hcore

/-- A number that is accepted for a primitive type has a slot of it. -/
theorem slotFor_of_fits (hp : (d.registry.type t).primitive? = some p)
    (hunboxed : ∀ id, v = .object id → (d.typeOf id).primitive? = none)
    (h : fits fuel v t d = .ok true d') : p ≠ .void ∧ ∃ x, v.slotFor p = .ok x := by
  have hfits : fitsPrimitive p v d = .ok true d' := by
    obtain ⟨type, htype⟩ : ∃ type, (d.registry.type t).shape = .native type := by
      rw [Descriptor.primitive?, Descriptor.native?] at hp
      split at hp
      · next type h => exact ⟨type, h⟩
      · cases hp
    unfold fits at h
    obtain ⟨expected, _, hask, h⟩ := exists_of_bind h
    cases hask
    simpa only [Descriptor.isByRef, Descriptor.isParameter, htype, hp, Bool.false_eq_true,
      if_false] using h
  have heq {b : Bool} (h : (pure b : DomainM Bool) d = .ok true d') : b = true := by
    cases h
    rfl
  have hsolid {k : SlotKind} (hk : p.slotKind = k) (hvoid : k ≠ .void) : p ≠ .void := fun hp ↦
    hvoid (hk.symm.trans (congrArg Primitive.slotKind hp))
  cases v with
  | bool x =>
    obtain rfl : p = .boolean := eq_of_beq (heq hfits)
    exact ⟨by decide, _, rfl⟩
  | int32 n =>
    have hk : p.slotKind = .int32 := eq_of_beq (heq hfits)
    have hx : (Value.int32 n).slotFor p = .ok (.int32 (p.narrow n)) := by
      unfold Value.slotFor
      rw [hk]
      rfl
    exact ⟨hsolid hk (by decide), _, hx⟩
  | int64 n =>
    have hk : p.slotKind = .int64 := eq_of_beq (heq hfits)
    have hx : (Value.int64 n).slotFor p = .ok (.int64 n) := by
      unfold Value.slotFor
      rw [hk]
      rfl
    exact ⟨hsolid hk (by decide), _, hx⟩
  | single x =>
    obtain rfl : p = .single := eq_of_beq (heq hfits)
    exact ⟨by decide, _, rfl⟩
  | double x =>
    obtain rfl : p = .double := eq_of_beq (heq hfits)
    exact ⟨by decide, _, rfl⟩
  | null => cases hfits
  | string x => cases hfits
  | object id =>
    have hboxed : ((d.typeOf id).primitive? == some p) = true := by
      injection hfits
    rw [hunboxed id rfl] at hboxed
    cases hboxed

end Domain

/-! ### What the values have to be -/

namespace Domain

variable {d d' : Domain} {v : Value} {t : TypeId} {i : Content}

/-- Structs of the type are stored inline, and the value can be written to one, whose fields are
then the content. -/
structure Storable (d : Domain) (t : TypeId) (v : Value) (i : Content) : Prop where
  laid : d.Laid [t] (.block t i .nil)
  writes : d.Writes [t] [v] (.block t i .nil)
  known : i.All (Value.Known d)

/-- If the value is an object, it is one of the domain and no boxed number, and if it is a struct,
it has the fields of its type. -/
structure WellMade (d : Domain) (v : Value) : Prop where
  known : v.Known d
  unboxed : ∀ id, v = .object id → (d.typeOf id).primitive? = none
  stored : ∀ id, v = .object id → (d.style? (d.heap.type id)).isSome = true →
    ∃ i, d.Storable (d.heap.type id) v i

theorem Storable.grown (h : d.Storable t v i) (hd : d.Grown d') : d'.Storable t v i where
  laid := h.laid.extends hd.toExtends
  writes := h.writes.grown hd
  known := h.known.imp fun _ hv ↦ hd.known hv

/-- An object stays well made while the domain only grows. -/
theorem WellMade.grown (h : d.WellMade v) (hd : d.Grown d') : d'.WellMade v := by
  have htype {id : ObjectId} (hv : v = .object id) : d'.heap.type id = d.heap.type id := by
    rw [Heap.type, Heap.type, hd.object id (h.known id hv).1]
  constructor
  case known => exact hd.known h.known
  case unboxed =>
    intro id hv
    rw [typeOf, htype hv, hd.registry.type_eq (h.known id hv).2]
    exact h.unboxed id hv
  case stored =>
    intro id hv hs
    rw [htype hv] at hs ⊢
    rw [hd.style? (h.known id hv).2] at hs
    obtain ⟨i, hi⟩ := h.stored id hv hs
    exact ⟨i, hi.grown hd⟩

end Domain

/-! ### Room for operands -/

namespace Stack

variable {s s' s'' : Stack} {k k' n n' : Nat}

/-- There is room for so many operands and so many slots of blocks. -/
structure HasRoom (k n : Nat) (s : Stack) : Prop where
  apart : s.top + k + n ≤ s.low
  fits : s.low ≤ s.slots.size

/-- So many operands are new, and blocks for them have taken so many slots at most. All operands and
blocks that were there are as they were. -/
structure Places (k n : Nat) (s s' : Stack) : Prop where
  top : s'.top = s.top + k
  low : s'.low ≤ s.low
  taken : s.low ≤ s'.low + n
  size : s'.slots.size = s.slots.size
  operand : ∀ a < s.top, s'.slots[a]? = s.slots[a]?
  block : ∀ a, s.low ≤ a → s'.slots[a]? = s.slots[a]?

theorem Places.refl (n : Nat) (s : Stack) : s.Places 0 n s :=
  ⟨rfl, Nat.le_refl _, Nat.le_add_right _ _, rfl, fun _ _ ↦ rfl, fun _ _ ↦ rfl⟩

/-- What two pushes take adds up. -/
theorem Places.trans (h : s.Places k n s') (h' : s'.Places k' n' s'') :
    s.Places (k + k') (n + n') s'' where
  top := by rw [h'.top, h.top, Nat.add_assoc]
  low := h'.low.trans h.low
  taken := by
    have htaken := h.taken
    have htaken' := h'.taken
    omega
  size := h'.size.trans h.size
  operand a ha := (h'.operand a (ha.trans_le (h.top ▸ Nat.le_add_right _ _))).trans (h.operand a ha)
  block a ha := (h'.block a (h.low.trans ha)).trans (h.block a ha)

theorem HasRoom.top_lt_low (h : s.HasRoom (k + 1) n) : s.top < s.low := by
  have hapart := h.apart
  omega

/-- After a push there is still the room that was set aside for the rest. -/
theorem HasRoom.after (h : s.HasRoom (k + k') (n + n')) (hplaces : s.Places k n s') :
    s'.HasRoom k' n' where
  apart := by
    have hroom := h.apart
    have htop := hplaces.top
    have htaken := hplaces.taken
    omega
  fits := by
    rw [hplaces.size]
    exact hplaces.low.trans h.fits

/-- What is taken for a block, and the operand for it. -/
theorem Takes.places (h : s.Takes ∅ s') (htaken : s.low ≤ s'.low + n) (hroom : s'.top < s'.low)
    (x : Slot) : s.Places 1 n (s'.pushed x) where
  top := congrArg (· + 1) h.top
  low := h.low
  taken := htaken
  size := (Array.size_setIfInBounds ..).trans h.size
  operand := (h.pushes hroom x).operand
  block := (h.pushes hroom x).block

end Stack

/-! ### Pushing -/

namespace Engine

open Stack

variable {d d' : Domain} {r : Running} {v : Value} {t : TypeId} {i : Content} {fuel n : Nat}

/-- On any later machine with the room for it, the value becomes one operand. -/
def Pushable (d : Domain) (fuel n : Nat) (v : Value) (t : TypeId) : Prop :=
  ∀ r : Running, d.Grown r.domain → r.stack.HasRoom 1 n →
    Succeeds (pushValue fuel v t) r fun _ r' ↦
      r.stack.Places 1 n r'.stack ∧ r.domain.Grown r'.domain

/-- A value that is pushed takes one operand slot and one entry, and no block. -/
theorem succeeds_pushObject (hroom : r.stack.HasRoom 1 n) (v : Value) :
    Succeeds (Running.onStack (Stack.pushObject v)) r fun _ r' ↦
      r.stack.Places 1 n r'.stack ∧ r'.domain = r.domain := by
  have hlt := hroom.top_lt_low
  have htaken : r.stack.low ≤ r.stack.low + n := Nat.le_add_right _ _
  by_cases hnull : v.isNull = true
  · have hpush : Stack.pushObject v r.stack = .ok () (r.stack.pushed .null) := by
      unfold Stack.pushObject
      rw [if_pos hnull]
      exact push_of_lt hlt
    exact .of_stack hpush ⟨(Takes.refl ∅ r.stack).places htaken hlt .null, rfl⟩
  · let s : Stack := { r.stack with managed := r.stack.managed.push v }
    have hpush : Stack.pushObject v r.stack = .ok () (s.pushed (.object r.stack.managed.size)) := by
      unfold Stack.pushObject
      rw [if_neg hnull]
      exact (bind_of_ok rfl).trans (push_of_lt hlt)
    have hentries : r.stack.Takes ∅ s :=
      Takes.of_within (Within.pushEntry v r.stack) fun _ h ↦ h.elim
    exact .of_stack hpush ⟨hentries.places htaken hlt _, rfl⟩

theorem pushable_primitive {p : Primitive} {x : Slot} (hp : (d.registry.type t).primitive? = some p)
    (hvoid : p ≠ .void) (hx : v.slotFor p = .ok x) : Pushable d fuel 0 v t := by
  intro r hd hroom
  have hlt := hroom.top_lt_low
  have hp' : (r.domain.registry.type t).primitive? = some p :=
    hd.registry.type_eq (Domain.lt_size_of_primitive hp) ▸ hp
  have hslot : ofExcept (v.slotFor p) r = .ok x r := by
    rw [hx]
    rfl
  have hpush : pushValue fuel v t r = .ok () (r.withStack (r.stack.pushed x)) := by
    unfold pushValue
    rw [bind_of_ok (descriptor_ok t r), hp']
    cases p with
    | void => exact absurd rfl hvoid
    | _ => exact (bind_of_ok hslot).trans (Running.onStack_ok (push_of_lt hlt))
  exact .of_ok hpush ⟨(Takes.refl ∅ r.stack).places (Nat.le_add_right _ _) hlt x, .refl _⟩

/-- References, and host structs that no binder stores inline, have entries. -/
theorem pushable_object (ht : d.registry.Has t) (hp : (d.registry.type t).primitive? = none)
    (hs : d.style? t = none) : Pushable d (fuel + 1) 0 v t := by
  intro r hd hroom
  have hp' : (r.domain.registry.type t).primitive? = none := hd.registry.type_eq ht ▸ hp
  have hs' : r.domain.style? t = none := (hd.style? ht).trans hs
  have hplaced {w : Value} (r₁ : Running) (hstack : r₁.stack = r.stack)
      (hgrown : r.domain.Grown r₁.domain)
      (hpush : pushValue (fuel + 1) v t r = Running.onStack (Stack.pushObject w) r₁) :
      Succeeds (pushValue (fuel + 1) v t) r fun _ r' ↦
        r.stack.Places 1 0 r'.stack ∧ r.domain.Grown r'.domain := by
    refine .congr hpush ((succeeds_pushObject (hstack ▸ hroom) w).imp fun _ r' h ↦ ?_)
    rw [h.2, ← hstack]
    exact ⟨h.1, hgrown⟩
  cases hstruct : (r.domain.registry.type t).isStruct with
  | false => exact hplaced r rfl (.refl _) (pushValue_object hp' hs' (by rw [hstruct]; rfl))
  | true =>
    obtain ⟨w, d₁, hv, hallocates, -⟩ := Domain.succeeds_sharedOrCopied (d := r.domain) fuel v
    have hpush : pushValue (fuel + 1) v t r =
        Running.onStack (Stack.pushObject w) (r.withDomain d₁) :=
      pushValue_object hp' hs' (by rw [if_pos hstruct]; exact Running.onDomain_ok hv)
    exact hplaced (r.withDomain d₁) rfl hallocates.grown hpush

/-- A struct is written to a block of its own. -/
theorem eventually_pushBlock (h : d.Storable t v i) :
    ∀ᶠ fuel in Filter.atTop, Pushable d fuel (1 + i.length + i.nested) v t := by
  filter_upwards [eventually_allocInline h.laid, eventually_isInline h.laid,
    Filter.eventually_gt_atTop (i.depth + 1)] with fuel halloc hinline hdepth r hd hroom
  have hapart := hroom.apart
  obtain ⟨_, r₁, hinline, rfl, hstack, hgrown⟩ := hinline r hd.toExtends
  have hd₁ := hd.trans hgrown
  obtain ⟨b, r₂, hwritten, st, c, hfresh, hform⟩ :
      Succeeds (materialize fuel v t) r₁ fun b r₂ ↦ ∃ st c, FreshBlock r₁ r₂ t b st c ∧
        c.form = i.form := by
    refine (halloc r₁ hd₁.toExtends (hstack ▸ hroom.fits) (by rw [hstack]; omega)).bind
      fun b r₂ ⟨st, c, htyped, hform, hfresh, _⟩ ↦ ?_
    have hlives : i.All (Value.Lives r₂.domain.heap) :=
      h.known.imp fun v hv ↦ ((hd₁.trans hfresh.grown).known hv).lives
    refine (succeeds_writeBoxed h.writes (hd₁.trans hfresh.grown) hfresh.header hfresh.stored htyped
      hfresh.distinct (fun hb ↦ (hfresh.slots b hb).2.false) hlives hdepth).bind
      fun _ r₃ ⟨st', c', hw⟩ ↦ .pure ?_
    have hform' : c'.form = i.form := hw.maps.form_eq
    exact ⟨st', c', hfresh.written hw.toRewritten (hform'.trans hform.symm), hform'⟩
  have hlow := hfresh.low
  rw [← c.length_form, ← c.nested_form, hform, i.length_form, i.nested_form, hstack] at hlow
  have htakes : r.stack.Takes ∅ r₂.stack := hstack ▸ hfresh.takes
  have htop := htakes.top
  have hlt : r₂.stack.top < r₂.stack.low := by omega
  have hpush : pushValue fuel v t r = .ok () (r₂.withStack (r₂.stack.pushed (.block b))) := by
    obtain ⟨s, hs⟩ := (h.laid.extends hd.toExtends).exists_style
    unfold pushValue
    rw [bind_of_ok (descriptor_ok t r), (Domain.isStruct_of_style? hs).2]
    refine (bind_of_ok hinline).trans ?_
    rw [if_pos rfl]
    exact (bind_of_ok hwritten).trans (Running.onStack_ok (push_of_lt hlt))
  exact .of_ok hpush ⟨htakes.places (by omega) hlt _, hgrown.trans hfresh.grown⟩

/-- A value that was accepted for a type is pushed as one operand of it. -/
theorem eventually_pushable (hreached : d.registry.Reached) (ht : d.registry.Has t)
    (hv : d.WellMade v) (hsealed : (d.style? t).isSome = true → d'.registry.Sealed t)
    (h : Domain.fits fuel v t d = .ok true d') :
    ∃ n, ∀ᶠ fuel in Filter.atTop, Pushable d fuel n v t := by
  cases hp : (d.registry.type t).primitive? with
  | some p =>
    obtain ⟨hvoid, x, hx⟩ := Domain.slotFor_of_fits hp hv.unboxed h
    exact ⟨0, .of_forall fun fuel ↦ pushable_primitive hp hvoid hx⟩
  | none =>
    cases hs : d.style? t with
    | none =>
      refine ⟨0, ?_⟩
      filter_upwards [Filter.eventually_gt_atTop 0] with fuel hpos
      obtain ⟨fuel, rfl⟩ := Nat.exists_eq_add_of_le' hpos
      exact pushable_object ht hp hs
    | some style =>
      obtain ⟨id, rfl, rfl⟩ := Domain.object_of_fits hreached hs (hsealed (hs ▸ rfl)) h
      obtain ⟨i, hi⟩ := hv.stored id rfl (hs ▸ rfl)
      exact ⟨_, eventually_pushBlock hi⟩

/-! ### Lists of arguments -/

/-- The check of arguments from some position on. -/
def checkFrom (fuel i : Nat) (args : List (Value × TypeId)) : DomainM Unit :=
  (args.zipIdx i).forM fun ((v, t), i) ↦ do
    if ← Domain.fits fuel v t then pure ()
    else throw (.argumentType i (← Domain.ask fun d ↦ d.registry.typeName t))

/-- The arguments are checked from the first one on, and the first misfit is the one that is
reported, with its position and the name of the type that was asked for. -/
theorem checkFrom_cons {i : Nat} {args : List (Value × TypeId)} :
    checkFrom fuel i ((v, t) :: args) d = match Domain.fits fuel v t d with
      | .ok true d₁ => checkFrom fuel (i + 1) args d₁
      | .ok false d₁ => .error (.argumentType i (d₁.registry.typeName t)) d₁
      | .error e d₁ => .error e d₁ := by
  have hcons : checkFrom fuel i ((v, t) :: args) = (do
      (do if ← Domain.fits fuel v t then pure ()
          else throw (.argumentType i (← Domain.ask fun d ↦ d.registry.typeName t)))
      checkFrom fuel (i + 1) args) := rfl
  rw [hcons, bind_assoc]
  cases h : Domain.fits fuel v t d with
  | ok b d₁ =>
    rw [bind_of_ok h]
    cases b <;> rfl
  | error e d₁ => rw [bind_of_error h]

/-- Each argument that passes the check becomes an operand, and so they all do. -/
theorem eventually_pushAll {i : Nat} {args : List (Value × TypeId)} (hreached : d.registry.Reached)
    (hargs : ∀ a ∈ args, d.WellMade a.1 ∧ d.registry.Has a.2)
    (hsealed : ∀ k d₁, checkFrom fuel i (args.take k) d = .ok () d₁ → ∀ a ∈ args,
      (d.style? a.2).isSome = true → d₁.registry.Sealed a.2)
    (h : checkFrom fuel i args d = .ok () d') :
    d.Grown d' ∧ ∃ n, ∀ᶠ fuel in Filter.atTop, ∀ r : Running, d'.Grown r.domain →
      r.stack.HasRoom args.length n →
      Succeeds (args.forM fun (v, t) ↦ pushValue fuel v t) r fun _ r' ↦
        r.stack.Places args.length n r'.stack ∧ r.domain.Grown r'.domain := by
  induction args generalizing d i with
  | nil =>
    cases h
    exact ⟨.refl _, 0, .of_forall fun fuel r hr _ ↦ .pure ⟨.refl 0 r.stack, .refl _⟩⟩
  | cons a args ih =>
    obtain ⟨v, t⟩ := a
    obtain ⟨⟨hv, ht⟩, hrest⟩ := List.forall_mem_cons.mp hargs
    rw [checkFrom_cons] at h
    cases hfits : Domain.fits fuel v t d with
    | error e d₁ => simp only [hfits, reduceCtorEq] at h
    | ok b d₁ =>
    cases b with
    | false => simp only [hfits, reduceCtorEq] at h
    | true =>
    simp only [hfits] at h
    have hgrown := Domain.grown_fits hfits
    have hfirst : checkFrom fuel i (List.take 1 ((v, t) :: args)) d = .ok () d₁ := by
      rw [List.take_succ_cons, List.take_zero, checkFrom_cons, hfits]
      rfl
    obtain ⟨n, hpush⟩ := eventually_pushable hreached ht hv
      (hsealed 1 d₁ hfirst (v, t) List.mem_cons_self) hfits
    have hlater : ∀ a ∈ args, d₁.WellMade a.1 ∧ d₁.registry.Has a.2 := fun a ha ↦
      ⟨(hrest a ha).1.grown hgrown, hgrown.registry.has (hrest a ha).2⟩
    have hreached₁ : d₁.registry.Reached :=
      ((Domain.consults_fits fuel v t).ok hfits).reached hreached
    have hsealed₁ : ∀ k d₂, checkFrom fuel (i + 1) (args.take k) d₁ = .ok () d₂ → ∀ a ∈ args,
        (d₁.style? a.2).isSome = true → d₂.registry.Sealed a.2 := by
      intro k d₂ hk a ha hs
      rw [hgrown.style? (hrest a ha).2] at hs
      refine hsealed (k + 1) d₂ ?_ a (List.mem_cons_of_mem _ ha) hs
      rw [List.take_succ_cons, checkFrom_cons, hfits]
      exact hk
    obtain ⟨hgrown', n', hpushes⟩ := ih hreached₁ hlater hsealed₁ h
    refine ⟨hgrown.trans hgrown', n + n', ?_⟩
    filter_upwards [hpush, hpushes] with fuel hpush hpushes r hr hroom
    rw [List.length_cons, Nat.add_comm args.length] at hroom ⊢
    have hd : d.Grown r.domain := (hgrown.trans hgrown').trans hr
    have hroom₁ : r.stack.HasRoom 1 n := by
      have hapart := hroom.apart
      exact ⟨by omega, hroom.fits⟩
    refine .forM_cons ((hpush r hd hroom₁).imp fun _ r₁ ⟨hplaces, hr₁⟩ ↦ ?_)
    refine (hpushes r₁ (hr.trans hr₁) (hroom.after hplaces)).imp fun _ r₂ ⟨hplaces', hr₂⟩ ↦ ?_
    exact ⟨hplaces.trans hplaces', hr₁.trans hr₂⟩

/-- Why arguments are refused: one of them does not fit, or it cannot be told whether it does. -/
inductive Refused (fuel i : Nat) (args : List (Value × TypeId)) (e : Error) (d' : Domain) : Prop
  | mismatch {j : Nat} {v : Value} {t : TypeId} {d : Domain} (ha : args[j]? = some (v, t))
    (h : Domain.fits fuel v t d = .ok false d')
    (he : e = .argumentType (i + j) (d'.registry.typeName t))
  | undecided {v : Value} {t : TypeId} {d : Domain} (ha : (v, t) ∈ args)
    (h : Domain.fits fuel v t d = .error e d')

/-- A check that fails does so at one argument, with all arguments before it accepted. -/
theorem refused_of_checkFrom {i : Nat} {args : List (Value × TypeId)} {e : Error}
    (h : checkFrom fuel i args d = .error e d') : Refused fuel i args e d' := by
  induction args generalizing d i with
  | nil => cases h
  | cons a args ih =>
    obtain ⟨v, t⟩ := a
    rw [checkFrom_cons] at h
    cases hfits : Domain.fits fuel v t d with
    | error e₁ d₁ =>
      simp only [hfits] at h
      cases h
      exact .undecided List.mem_cons_self hfits
    | ok b d₁ =>
    cases b with
    | false =>
      simp only [hfits] at h
      cases h
      exact .mismatch (List.getElem?_cons_zero ..) hfits rfl
    | true =>
      simp only [hfits] at h
      cases ih h with
      | @mismatch j v' t' _ ha hfit he =>
        refine .mismatch (j := j + 1) (List.getElem?_cons_succ.trans ha) hfit ?_
        rw [he, Nat.add_right_comm, Nat.add_assoc]
      | undecided ha hfit => exact .undecided (List.mem_cons_of_mem _ ha) hfit

theorem invoke_of_refused {c : Callees} {id : MethodId} {receiver receiver' : Option Value}
    {args : List Value} {e : Error} (hcount : args.length = (d.registry.method id).params.length)
    (hreceiver : Domain.checkReceiver (d.registry.method id) receiver d = .ok receiver' d)
    (h : Domain.checkArguments fuel args (d.registry.method id).params d = .error e d') :
    Domain.invoke c fuel id receiver args d = .error e d' := by
  have hmethod : Domain.ask (fun d ↦ d.registry.method id) d =
      .ok (d.registry.method id) d := rfl
  unfold Domain.invoke
  rw [bind_of_ok hmethod, if_neg (not_not.mpr hcount)]
  exact (bind_of_ok hreceiver).trans (bind_of_error h)

/-- At no point of the check anything is known to derive from the structs among the types. -/
def KeepsSealed (d : Domain) (fuel : Nat) (args : List Value) (params : List TypeId) : Prop :=
  ∀ k d₁, Domain.checkArguments fuel (args.take k) (params.take k) d = .ok () d₁ → ∀ t ∈ params,
    (d.style? t).isSome = true → d₁.registry.Sealed t

/-- A value that the check of arguments accepts is pushed as one operand, if it is well made, and if
nothing derives from a struct that it is passed for. So calls are refused for their arguments by the
check, before there is an interpreter, or all arguments are pushed. -/
theorem accepted_arguments_pushed (hreached : d.registry.Reached) :
    (∀ fuel v t d', d.WellMade v → d.registry.Has t →
      ((d.style? t).isSome = true → d'.registry.Sealed t) → Domain.fits fuel v t d = .ok true d' →
      ∃ n, ∀ᶠ fuel in Filter.atTop, Pushable d fuel n v t) ∧
    (∀ fuel args params d', (∀ v ∈ args, d.WellMade v) → (∀ t ∈ params, d.registry.Has t) →
      KeepsSealed d fuel args params → Domain.checkArguments fuel args params d = .ok () d' →
      ∃ n, ∀ᶠ fuel in Filter.atTop, ∀ r : Running, d'.Grown r.domain →
        r.stack.HasRoom (args.zip params).length n →
        Succeeds (pushAll fuel args params) r fun _ r' ↦
          r.stack.Places (args.zip params).length n r'.stack ∧ r.domain.Grown r'.domain) ∧
    ∀ fuel args params e d', Domain.checkArguments fuel args params d = .error e d' →
      d'.pool = d.pool ∧ d'.heap = d.heap ∧ Refused fuel 0 (args.zip params) e d' ∧
      ∀ (c : Callees) id receiver receiver', (d.registry.method id).params = params →
        args.length = params.length →
        Domain.checkReceiver (d.registry.method id) receiver d = .ok receiver' d →
        Domain.invoke c fuel id receiver args d = .error e d' := by
  refine ⟨fun fuel v t d' hv ht hsealed h ↦ eventually_pushable hreached ht hv hsealed h, ?_, ?_⟩
  · intro fuel args params d' hargs hparams hsealed h
    have hsealed' : ∀ k d₁, checkFrom fuel 0 ((args.zip params).take k) d = .ok () d₁ →
        ∀ a ∈ args.zip params, (d.style? a.2).isSome = true → d₁.registry.Sealed a.2 := by
      intro k d₁ hk a ha hs
      rw [List.zip, List.take_zipWith] at hk
      exact hsealed k d₁ hk a.2 (List.of_mem_zip ha).2 hs
    exact (eventually_pushAll hreached (fun a ha ↦
      ⟨hargs a.1 (List.of_mem_zip ha).1, hparams a.2 (List.of_mem_zip ha).2⟩) hsealed' h).2
  · intro fuel args params e d' h
    have hconsults := (Domain.consults_checkArguments fuel args params).error h
    refine ⟨hconsults.pool, hconsults.heap, refused_of_checkFrom h, ?_⟩
    rintro c id receiver receiver' rfl hcount hreceiver
    exact invoke_of_refused hcount hreceiver h

end Engine

/-! ### A bound struct and a boxed number -/

/-- A registry in which one host type is in use. -/
def Registry.only (type : HostType) : Registry :=
  { empty with
    types := #[type.descriptor]
    scoped_ := empty.scoped_.insert type.scopedName ⟨0⟩
    names := empty.names.insertIfNew type.fullName ⟨0⟩ }

theorem Registry.reached_only {type : HostType} (h : type.backing = none) :
    (only type).Reached := by
  have hmade : ofHostType type empty = .ok ⟨0⟩ (only type) := by
    have hnew : empty.scoped_[type.scopedName]? = none := Std.HashMap.getElem?_empty
    rw [ofHostType, ask_bind, hnew, h]
    rfl
  exact endState_ok hmade ▸ Reached.empty.step (.ofHostType type)

/-- A domain with a bound struct type that has no fields and a struct of it. -/
def Domain.hollow : Domain :=
  { (default : Domain) with
    registry := .only (.plain .struct "S" "Empty")
    bindings := { Bindings.empty with
      building := { BindingSet.empty with
        binders := BindingSet.empty.binders.insert "S.Empty" Bindings.emptyBinder } }
    heap := ⟨#[.native ⟨0⟩ .unit]⟩ }

theorem Domain.known_hollow : (Value.object ⟨0⟩).Known .hollow := by
  rintro _ ⟨⟩
  exact ⟨Nat.one_pos, Nat.one_pos⟩

theorem Domain.storable_hollow : Domain.hollow.Storable ⟨0⟩ (.object ⟨0⟩) .nil := by
  have hs : Domain.hollow.style? ⟨0⟩ = some (.bound Bindings.emptyBinder) := by
    have hbinder : Domain.hollow.bindings.binder? (Domain.hollow.registry.type ⟨0⟩).name =
        some Bindings.emptyBinder := Std.HashMap.getElem?_insert_self
    unfold style?
    dsimp only
    rw [if_neg (by decide), hbinder]
  exact ⟨.bound hs trivial rfl nofun .nil, .bound hs (.data Nat.one_pos rfl rfl) .nil, trivial⟩

theorem Engine.accepted_arguments_pushed_hollow :
    Domain.fits 1 (.object ⟨0⟩) ⟨0⟩ .hollow = .ok true .hollow ∧
      ∃ n, ∀ᶠ fuel in Filter.atTop, Pushable .hollow fuel n (.object ⟨0⟩) ⟨0⟩ := by
  have hfits : Domain.fits 1 (.object ⟨0⟩) ⟨0⟩ .hollow = .ok true .hollow := rfl
  have hmade : Domain.hollow.WellMade (.object ⟨0⟩) := by
    refine ⟨Domain.known_hollow, ?_, ?_⟩
    · rintro _ ⟨⟩
      rfl
    · rintro _ ⟨⟩ -
      exact ⟨.nil, Domain.storable_hollow⟩
  have hsealed : Domain.hollow.registry.Sealed ⟨0⟩ := by
    refine ⟨rfl, rfl, fun s hs ↦ ?_⟩
    have hnone : Registry.empty.facts.bases[s]? = none := Std.HashMap.getElem?_empty
    cases hnone.symm.trans hs
  have hreached : Domain.hollow.registry.Reached := Registry.reached_only rfl
  obtain ⟨hpushable, -⟩ := accepted_arguments_pushed hreached
  exact ⟨hfits, hpushable 1 _ _ _ hmade Nat.one_pos (fun _ ↦ hsealed) hfits⟩

/-- A domain with an object of the type of 32-bit integers. -/
def Domain.boxed : Domain :=
  { (default : Domain) with
    registry := .only (CoreLibrary.primitiveType .int32)
    heap := ⟨#[.instance_ ⟨0⟩ #[] false]⟩ }

/-- A boxed number is accepted for a parameter of its type and found out when it is pushed. -/
theorem Engine.boxed_number_not_pushed : ¬∀ (d : Domain) (fuel : Nat) (v : Value) (t : TypeId)
    (d' : Domain), d.registry.Reached → d.registry.Has t → v.Known d →
      Domain.fits fuel v t d = .ok true d' →
        ∃ n, ∀ᶠ fuel in Filter.atTop, Pushable d fuel n v t := by
  intro h
  have hknown : (Value.object ⟨0⟩).Known .boxed := by
    rintro _ ⟨⟩
    exact ⟨Nat.one_pos, Nat.one_pos⟩
  obtain ⟨n, hpushable⟩ :=
    h .boxed 1 (.object ⟨0⟩) ⟨0⟩ .boxed (Registry.reached_only rfl) Nat.one_pos
    hknown rfl
  obtain ⟨fuel, hpushable⟩ := hpushable.exists
  have hroom : (Stack.empty (n + 1)).HasRoom 1 n :=
    ⟨(Nat.add_comm ..).le.trans' (by rfl), (Array.size_replicate ..).ge⟩
  obtain ⟨_, _, hpush, -⟩ := hpushable ⟨.boxed, .fresh 0 (n + 1)⟩ (.refl _) hroom
  have hfails : pushValue fuel (.object ⟨0⟩) ⟨0⟩ ⟨.boxed, .fresh 0 (n + 1)⟩ =
      .error (.invalidCast "object" "System.Int32") ⟨.boxed, .fresh 0 (n + 1)⟩ := rfl
  cases hfails.symm.trans hpush

end ManagedMachine
