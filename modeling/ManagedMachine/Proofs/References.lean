import ManagedMachine.Proofs.BlockOwnership
import ManagedMachine.Proofs.Locations

/-!
# References

A reference names a cell of the stack, a field of an object, an element of an array or a static
field, and references that look different may name the same one. Whatever they are, a store through
one of them is seen through all others that name the location, and through no other.

The two laws are proved for the heap and for the stack apart. On the heap a place is a path into an
object, and reading and writing at paths is a matter of arrays (`at?_put_self`, `at?_put_of_ne`). On
the stack, a store fills a cell in its own way (`Filling`), so what a later load gives depends on
what kind of slot the cell has kept.
-/

set_option autoImplicit false
set_option relaxedAutoImplicit false

namespace ManagedMachine

open Engine

/-- What a reference leads to. -/
inductive Spot where
  /-- A local, an argument or a field of a struct, if no struct is kept there. -/
  | cell (a : Nat)
  /-- The struct with this header. -/
  | block (d : Nat)
  /-- A field of an object or an element of an array. -/
  | member (id : ObjectId) (i : Nat)
  | static (type : TypeId) (i : Nat)
  deriving DecidableEq

/-! ### Values on the heap -/

namespace HeapObject

/-- The fields of an instance or the elements of an array. -/
def members : HeapObject → Array Value
  | .instance_ _ values _ => values
  | .array _ items => items
  | .native .. => #[]

/-- The object with one of its members replaced. -/
def setMember (i : Nat) (v : Value) : HeapObject → HeapObject
  | .instance_ t values adapted => .instance_ t (values.setIfInBounds i v) adapted
  | .array t items => .array t (items.setIfInBounds i v)
  | .native t data => .native t data

theorem members_setMember (i : Nat) (v : Value) (o : HeapObject) :
    (o.setMember i v).members = o.members.setIfInBounds i v := by
  cases o with
  | native t data => exact (Array.setIfInBounds_eq_of_size_le (Nat.zero_le i)).symm
  | _ => rfl

end HeapObject

namespace Domain

/-- What is kept outside of the stack at a spot. -/
def at? (d : Domain) : Spot → Option Value
  | .member id i => (d.heap.object id).members[i]?
  | .static t i => d.statics[t]?.bind fun s ↦ s.values[i]?
  | .cell _ | .block _ => none

/-- The domain with another value at a spot. -/
def put (d : Domain) (v : Value) : Spot → Domain
  | .member id i => { d with heap := d.heap.put id ((d.heap.object id).setMember i v) }
  | .static t i =>
    match d.statics[t]? with
    | some s =>
      { d with statics := d.statics.insert t { s with values := s.values.setIfInBounds i v } }
    | none => d
  | .cell _ | .block _ => d

variable {d : Domain} {p q : Spot} {v w : Value} {id : ObjectId} {t : TypeId} {i : Nat}

theorem lt_size_of_member (h : (d.heap.object id).members[i]? = some v) :
    id.index < d.heap.size := by
  by_contra hout
  have hnone : d.heap.objects[id.index]? = none := Array.getElem?_eq_none (Nat.le_of_not_lt hout)
  rw [Heap.object, Array.getD_eq_getD_getElem?, hnone] at h
  exact absurd (Array.getElem?_eq_some_iff.mp h).1 (Nat.not_lt_zero i)

theorem at?_static (h : d.at? (.static t i) = some v) : ∃ s : Statics,
    d.statics[t]? = some s ∧ s.values[i]? = some v := Option.bind_eq_some_iff.mp h

/-- What was written at a place is found there. -/
theorem at?_put_self (h : d.at? p = some w) : (d.put v p).at? p = some v := by
  cases p with
  | cell a => cases h
  | block e => cases h
  | member id i =>
    have hi := (Array.getElem?_eq_some_iff.mp h).1
    simp only [put, at?, Heap.object_put_self _ _ (lt_size_of_member h),
      HeapObject.members_setMember]
    exact Array.getElem?_setIfInBounds_self_of_lt hi
  | static t i =>
    obtain ⟨s, hstatics, hvalue⟩ := at?_static h
    have hi := (Array.getElem?_eq_some_iff.mp hvalue).1
    simp only [put, at?, hstatics, Std.HashMap.getElem?_insert_self]
    exact Array.getElem?_setIfInBounds_self_of_lt hi

theorem put_registry (d : Domain) (v : Value) (p : Spot) : (d.put v p).registry = d.registry := by
  cases p with
  | static t i =>
    simp only [put]
    split <;> rfl
  | _ => rfl

end Domain

/-! ### References to spots -/

/-- The reference leads to the spot. -/
inductive Running.Refers (r : Running) : Slot → Spot → Prop
  | cell {a : Nat} {x : Slot} (hslot : r.stack.slots[a]? = some x) (hblock : ∀ d, x ≠ .block d)
    (hheader : ∀ t n, x ≠ .header t n) : Refers r (.stackRef a) (.cell a)
  | header {d n : Nat} {t : TypeId} (h : r.stack.slots[d]? = some (.header t n)) :
    Refers r (.stackRef d) (.block d)
  | block {a d : Nat} (h : r.stack.slots[a]? = some (.block d)) : Refers r (.stackRef a) (.block d)
  | field {e i : Nat} {id : ObjectId} {t : TypeId} {values : Array Value} {adapted : Bool}
    (hentry : r.stack.managed[e]? = some (.object id))
    (hobject : r.domain.heap.object id = .instance_ t values adapted) (hi : i < values.size) :
    Refers r (.fieldRef e i) (.member id i)
  | item {e i : Nat} {id : ObjectId} {t : TypeId} {items : Array Value}
    (hentry : r.stack.managed[e]? = some (.object id))
    (hobject : r.domain.heap.object id = .array t items) (hi : i < items.size) :
    Refers r (.elementRef e i) (.member id i)
  | static {t : TypeId} {i : Nat} {s : Statics} (ht : t.index < r.domain.registry.types.size)
    (hstatics : r.domain.statics[t]? = some s) (hi : i < s.values.size) :
    Refers r (.staticRef t i) (.static t i)

/-- The spot lies outside of the stack. -/
def Spot.OnHeap : Spot → Prop
  | .member .. | .static .. => True
  | .cell _ | .block _ => False

namespace Engine

open Stack

variable {r r' : Running} {s : Slot} {p : Spot} {v : Value} {fuel : Nat} {c : Carry} {t : TypeId}

/-- A reference into the heap leads to a place at which there is something. -/
theorem exists_at? (h : r.Refers s p) (hp : p.OnHeap) : ∃ v, r.domain.at? p = some v := by
  cases h with
  | cell => exact hp.elim
  | header => exact hp.elim
  | block => exact hp.elim
  | field _ hobject hi =>
    rw [Domain.at?, hobject]
    exact ⟨_, Array.getElem?_eq_getElem hi⟩
  | item _ hobject hi =>
    rw [Domain.at?, hobject]
    exact ⟨_, Array.getElem?_eq_getElem hi⟩
  | static _ hstatics hi =>
    rw [Domain.at?, hstatics]
    exact ⟨_, Array.getElem?_eq_getElem hi⟩

/-- A load from the heap gives what is at the spot. -/
theorem loadThrough_ok (h : r.Refers s p) (hv : r.domain.at? p = some v) :
    loadThrough fuel s r = .ok (.value v) r := by
  cases h with
  | cell => cases hv
  | header => cases hv
  | block => cases hv
  | @field e i id t values adapted hentry hobject hi =>
    rw [Domain.at?, hobject] at hv
    have hread : readHeap fuel (.fieldRef e i) r = .ok v r := by
      unfold readHeap
      refine (bind_of_ok (by rw [read, entry_of_some hentry])).trans ?_
      exact Running.onDomain_ok (field_ok hobject hv)
    exact bind_of_ok hread
  | @item e i id t items hentry hobject hi =>
    rw [Domain.at?, hobject] at hv
    have hread : readHeap fuel (.elementRef e i) r = .ok v r := by
      unfold readHeap
      refine (bind_of_ok (by rw [read, entry_of_some hentry])).trans ?_
      exact bind_of_ok (Running.onDomain_ok (element?_ok hobject hv))
    exact bind_of_ok hread
  | @static t i statics ht hstatics hi =>
    rw [Domain.at?, hstatics] at hv
    have hread : readHeap fuel (.staticRef t i) r = .ok v r :=
      (bind_of_ok (typeAt_of_lt ht)).trans (Running.onDomain_ok (static_ok hstatics hv))
    exact bind_of_ok hread

/-- A store to the heap puts what the carry is converted to at the spot. -/
theorem storeThrough_ok (h : r.Refers s p) (hp : p.OnHeap) (hv : carryValue fuel c t r = .ok v r) :
    storeThrough fuel s c t r = .ok true (r.withDomain (r.domain.put v p)) := by
  cases h with
  | cell => exact hp.elim
  | header => exact hp.elim
  | block => exact hp.elim
  | @field e i id _ values adapted hentry hobject hi =>
    unfold storeThrough
    refine (bind_of_ok hv).trans ((bind_of_ok (by rw [read, entry_of_some hentry])).trans ?_)
    refine (bind_of_ok (Running.onDomain_ok (setField_ok hobject hi v))).trans ?_
    rw [Domain.put, hobject]
    rfl
  | @item e i id _ items hentry hobject hi =>
    unfold storeThrough
    refine (bind_of_ok hv).trans ((bind_of_ok (by rw [read, entry_of_some hentry])).trans ?_)
    refine (Running.onDomain_ok (setElement_ok hobject hi v)).trans ?_
    rw [Domain.put, hobject]
    rfl
  | @static u i statics ht hstatics hi =>
    unfold storeThrough
    refine (bind_of_ok hv).trans ((bind_of_ok (typeAt_of_lt ht)).trans ?_)
    refine (bind_of_ok (Running.onDomain_ok (setStatic_ok hstatics hi v))).trans ?_
    rw [Domain.put, hstatics]
    rfl

end Engine

namespace Running

variable {r : Running} {s : Slot} {p q : Spot} {v : Value}

/-- Objects stay objects of their kind and size when a member is replaced. -/
theorem object_put (d : Domain) (v : Value) (p : Spot) (id : ObjectId) :
    (d.put v p).heap.object id = d.heap.object id ∨
      ∃ i, (d.put v p).heap.object id = (d.heap.object id).setMember i v := by
  cases p with
  | member id' i =>
    by_cases hsame : id = id'
    · subst hsame
      by_cases hid : id.index < d.heap.size
      · exact .inr ⟨i, Heap.object_put_self _ _ hid⟩
      · refine .inl ?_
        simp only [Domain.put, Heap.put, Heap.object]
        rw [Array.setIfInBounds_eq_of_size_le (Nat.le_of_not_lt hid)]
    · exact .inl (Heap.object_put_of_ne _ _ hsame)
  | static t i =>
    refine .inl ?_
    simp only [Domain.put]
    split <;> rfl
  | _ => exact .inl rfl

/-- What references lead to does not depend on the values at heap locations. -/
theorem Refers.put (h : r.Refers s q) : (r.withDomain (r.domain.put v p)).Refers s q := by
  cases h with
  | cell hslot hblock hheader => exact .cell hslot hblock hheader
  | header h => exact .header h
  | block h => exact .block h
  | @field e i id t values adapted hentry hobject hi =>
    rcases object_put r.domain v p id with hput | ⟨j, hput⟩
    · exact .field hentry (hput.trans hobject) hi
    · rw [hobject] at hput
      exact .field hentry hput (hi.trans_eq Array.size_setIfInBounds.symm)
  | @item e i id t items hentry hobject hi =>
    rcases object_put r.domain v p id with hput | ⟨j, hput⟩
    · exact .item hentry (hput.trans hobject) hi
    · rw [hobject] at hput
      exact .item hentry hput (hi.trans_eq Array.size_setIfInBounds.symm)
  | @static t i s ht hstatics hi =>
    have ht' : t.index < (r.domain.put v p).registry.types.size := by rwa [Domain.put_registry]
    cases p with
    | static t' j =>
      by_cases hsame : t = t'
      · subst hsame
        refine .static ht' (s := { s with values := s.values.setIfInBounds j v }) ?_
          (hi.trans_eq Array.size_setIfInBounds.symm)
        simp [Domain.put, hstatics]
      · have hkey : (t' == t) = false := beq_false_of_ne (Ne.symm hsame)
        refine .static ht' (s := s) ?_ hi
        simp only [withDomain_domain, Domain.put]
        split
        · simp [Std.HashMap.getElem?_insert, hkey, hstatics]
        · exact hstatics
    | _ => exact .static ht' hstatics hi

end Running

/-! ### Numbers and references as they are carried -/

namespace Carry

/-- What locations of primitive types and of reference types hold: numbers, null and objects. -/
def IsData : Carry → Prop
  | slot s => s.Bare
  | value _ => True
  | _ => False

/-- Numbers and null as slots, however they are carried. -/
def plain : Carry → Carry
  | value .null => slot .null
  | value v => (v.slot?.map slot).getD (value v)
  | c => c

/-- The value that a heap location of a primitive type, or of another type, takes. -/
def converted (p : Option Primitive) : Carry → Value
  | slot s => s.value p
  | value v => shownAs v p
  | _ => .null

theorem plain_value_of_slot? {v : Value} {s : Slot} (h : v.slot? = some s) :
    (value v).plain = slot s := by
  cases v <;> cases h <;> rfl

end Carry

theorem Stack.entry_ok {s : Stack} {i : Nat} {v : Value} (h : s.entry i = .ok v) :
    s.managed[i]? = some v := by
  unfold entry at h
  split at h
  · next hv =>
    cases h
    exact hv
  · cases h

namespace Engine

open Stack

variable {r r' : Running} {a n fuel : Nat} {x : Slot} {c : Carry} {t : TypeId}

/-- Data are not looked up anywhere. -/
theorem carryValue_data (hc : c.IsData) :
    carryValue fuel c t r = .ok (c.converted (r.domain.registry.type t).primitive?) r := by
  cases c with
  | slot s =>
    rcases hc with rfl | hnum
    · rfl
    · unfold carryValue
      cases s with
      | int32 v => exact bind_of_ok (descriptor_ok t r)
      | int64 v => exact bind_of_ok (descriptor_ok t r)
      | single v => exact bind_of_ok (descriptor_ok t r)
      | double v => exact bind_of_ok (descriptor_ok t r)
      | _ => cases hnum
  | value v => exact bind_of_ok (descriptor_ok t r)
  | _ => exact hc.elim

theorem loadCarry_bare (hslot : r.stack.slots[a]? = some x) (hx : x.Bare) :
    loadCarry a r = .ok (.slot x) r := by
  rcases hx with rfl | hx
  · unfold loadCarry
    exact (bind_of_ok (by rw [read, slotAt_of_some hslot])).trans rfl
  · exact loadCarry_number hslot hx

theorem loadCarry_keeps {v : Value} {own : Option Nat} (h : r.stack.Keeps a v own) :
    ∃ c, loadCarry a r = .ok c r ∧ c.plain = (Carry.value v).plain := by
  cases own with
  | none =>
    obtain ⟨rfl, hslot⟩ := h
    exact ⟨_, loadCarry_bare hslot (.inl rfl), rfl⟩
  | some i =>
    obtain ⟨hslot, hentry⟩ := h
    refine ⟨.value v, ?_, rfl⟩
    refine (bind_of_ok (by rw [read, slotAt_of_some hslot])).trans ?_
    exact bind_of_ok (by rw [read, entry_of_some hentry])

/-- What a store leaves in a cell: the carry, and everything else as it was but the entry that the
cell owned. -/
structure Filling (r r' : Running) (a : Nat) (x : Slot) (c : Carry) : Prop where
  domain : r'.domain = r.domain
  within : r.stack.Within {a} {i | x = .object i} r'.stack
  slot : ∃ y, r'.stack.slots[a]? = some y ∧ y.isHeader = false
  load : ∃ c', loadCarry a r' = .ok c' r' ∧ c'.plain = c.plain

/-- A store that keeps the entry of its cell fills the cell with the value. -/
theorem Filling.of_keeps {v : Value} {o : Option Nat} (hdomain : r'.domain = r.domain)
    (hwithin : r.stack.Within {a} {i | x = .object i} r'.stack) (h : r'.stack.Keeps a v o)
    (hc : c.plain = (Carry.value v).plain) : Filling r r' a x c where
  domain := hdomain
  within := hwithin
  slot := by
    cases o with
    | none => exact ⟨_, h.2, rfl⟩
    | some i => exact ⟨_, h.1, rfl⟩
  load :=
    let ⟨c', hload, hc'⟩ := loadCarry_keeps h
    ⟨c', hload, hc'.trans hc.symm⟩

theorem filling_setSlot {y : Slot} (ha : a < r.stack.slots.size) (hy : y.Bare)
    (hc : c.plain = .slot y) : ∃ r', Running.onStack (Stack.setSlot a y) r = .ok () r' ∧
      Filling r r' a x c := by
  have hself := Array.getElem?_setIfInBounds_self_of_lt (a := y) ha
  refine ⟨_, Running.onStack_ok (setSlot_of_lt ha), rfl, (Within.setSlot a y _).mono (subset_refl _)
    (Set.empty_subset _), ⟨y, hself, ?_⟩, .slot y, loadCarry_bare hself hy, hc.symm⟩
  rcases hy with rfl | hy
  · rfl
  · cases y <;> first | rfl | cases hy

theorem filling_storeObject {v : Value} {own : Option Nat} (hx : Stored.Leaf r.stack a x own) :
    ∃ r', Running.onStack (Engine.storeObject a x v) r = .ok () r' ∧
      Filling r r' a x (.value v) := by
  obtain ⟨s', own', hok, hkeeps, hwithin, -, -⟩ := storeObject_ok hx v
  refine ⟨_, Running.onStack_ok hok, .of_keeps rfl ?_ hkeeps rfl⟩
  exact hwithin.mono (subset_refl _) fun i hi ↦ (hx.owns i).mpr hi

/-- A cell with an entry keeps it, unless a number is stored. -/
theorem storeInto_object {i : Nat} (hslot : r.stack.slots[a]? = some (.object i)) (hc : c.IsData)
    (hnull : ∀ y, c = .slot y → y = .null) :
    storeInto fuel a c r = Running.onStack (Stack.setEntry i (c.converted none)) r := by
  refine (bind_of_ok (by rw [read, slotAt_of_some hslot])).trans ?_
  cases c with
  | value v => rfl
  | slot y =>
    obtain rfl := hnull y rfl
    rfl
  | _ => exact hc.elim

/-- A cell that holds no struct takes every number and every reference. -/
theorem filling_storeInto (fuel : Nat) (hslot : r.stack.slots[a]? = some x)
    (hblock : ∀ d, x ≠ .block d)
    (hlive : ∀ i, x = .object i → (∀ y, c = .slot y → y = .null) → i < r.stack.managed.size)
    (hc : c.IsData) : ∃ r', storeInto fuel a c r = .ok () r' ∧ Filling r r' a x c := by
  have ha := (Array.getElem?_eq_some_iff.mp hslot).1
  by_cases hobject : (∃ i, x = .object i) ∧ ∀ y, c = .slot y → y = .null
  · obtain ⟨⟨i, rfl⟩, hnull⟩ := hobject
    have hi := hlive i rfl hnull
    refine ⟨_, (storeInto_object hslot hc hnull).trans (Running.onStack_ok (setEntry_of_lt hi)),
      .of_keeps (v := c.converted none) (o := some i) rfl ?_ ?_ ?_⟩
    · refine (Within.setEntry i _ _).mono (Set.empty_subset _) ?_
      rintro _ rfl
      rfl
    · exact ⟨hslot, Array.getElem?_setIfInBounds_self_of_lt hi⟩
    · cases c with
      | value v => rfl
      | slot y =>
        obtain rfl := hnull y rfl
        rfl
      | _ => exact hc.elim
  · have hstep : storeInto fuel a c r = _ := bind_of_ok (by rw [read, slotAt_of_some hslot])
    rw [hstep]
    cases c with
    | slot y =>
      have hset : ∃ r', Running.onStack (Stack.setSlot a y) r = .ok () r' ∧
          Filling r r' a x (.slot y) :=
        filling_setSlot ha hc rfl
      cases x with
      | block d => exact absurd rfl (hblock d)
      | object i =>
        cases y with
        | null => exact absurd ⟨⟨i, rfl⟩, fun _ h ↦ (Carry.slot.inj h).symm⟩ hobject
        | _ => exact hset
      | _ => exact hset
    | value v =>
      have hvalue : ∀ y, Carry.value v = .slot y → y = .null := fun y h ↦ Carry.noConfusion h
      have hx : Stored.Leaf r.stack a x none :=
        ⟨hslot, hblock, fun i ↦ ⟨fun hi ↦ absurd ⟨⟨i, hi⟩, hvalue⟩ hobject, (absurd · (by simp))⟩,
          fun _ h ↦ absurd h (by simp)⟩
      cases x with
      | block d => exact absurd rfl (hblock d)
      | object i => exact absurd ⟨⟨i, rfl⟩, hvalue⟩ hobject
      | null => exact filling_storeObject hx
      | _ =>
        simp only [storeValue]
        cases hs : v.slot? with
        | none => exact filling_storeObject hx
        | some y =>
          have hy : y.Bare := by cases v <;> cases hs <;> exact .inr rfl
          exact filling_setSlot ha hy (Carry.plain_value_of_slot? hs)
    | _ => exact hc.elim

/-- A store that succeeds fills the cell, even if the entry that was there is gone. -/
theorem Filling.of_ok {u : Unit} (hslot : r.stack.slots[a]? = some x) (hblock : ∀ d, x ≠ .block d)
    (hc : c.IsData) (h : storeInto fuel a c r = .ok u r') : Filling r r' a x c := by
  have hlive : ∀ i, x = .object i → (∀ y, c = .slot y → y = .null) → i < r.stack.managed.size := by
    rintro i rfl hnull
    by_contra hi
    have hdead : Stack.setEntry i (c.converted none) r.stack =
        .error (.stack (.deadEntry i)) r.stack :=
      if_neg hi
    rw [storeInto_object hslot hc hnull, Running.onStack_error hdead] at h
    cases h
  obtain ⟨r₁, hstore, hfilling⟩ := filling_storeInto fuel hslot hblock hlive hc
  obtain ⟨-, rfl⟩ := EStateM.Result.ok.inj (hstore.symm.trans h)
  exact hfilling

/-- What a slot carries depends on the slot and its entry. -/
theorem loadCarry_congr (hslot : r'.stack.slots[a]? = r.stack.slots[a]?)
    (hentry : ∀ x i, r.stack.slots[a]? = some x → x.entry? = some i → i < r.stack.managed.size →
      r'.stack.managed[i]? = r.stack.managed[i]?)
    (h : loadCarry a r = .ok c r) : loadCarry a r' = .ok c r' := by
  obtain ⟨x, r₁, hread, hload⟩ := exists_of_bind h
  obtain ⟨hx, rfl⟩ := read_ok hread
  replace hx := Stack.slotAt_ok hx
  have hat {i : Nat} {f : Value → Carry} (hi : x.entry? = some i)
      (h : (do return f (← read (·.entry i)) : RunM Carry) r₁ = .ok c r₁) :
      (do return f (← read (·.entry i)) : RunM Carry) r' = .ok c r' := by
    obtain ⟨v, r₂, hread, hv⟩ := exists_of_bind h
    obtain ⟨hv', rfl⟩ := read_ok hread
    cases hv
    have hsome := Stack.entry_ok hv'
    refine bind_of_ok ?_
    rw [read,
      entry_of_some ((hentry x i hx hi (Array.getElem?_eq_some_iff.mp hsome).1).trans hsome)]
  unfold loadCarry
  refine (bind_of_ok (by rw [read, slotAt_of_some (hslot.trans hx)])).trans ?_
  cases x with
  | object i => exact hat (f := .value) rfl hload
  | fieldRef i f => exact hat (f := fun v ↦ .fieldRef v f) rfl hload
  | elementRef i f => exact hat (f := fun v ↦ .elementRef v f) rfl hload
  | header t n => cases hload
  | _ =>
    cases hload
    rfl

end Engine

/-! ### Stores through references -/

/-- No two live slots have one managed entry. -/
def Running.Unshared (r : Running) : Prop := ∀ ⦃a b i : Nat⦄ ⦃x y : Slot⦄, r.Live a → r.Live b →
  r.stack.slots[a]? = some x → r.stack.slots[b]? = some y → x.entry? = some i → y.entry? = some i →
  a = b

/-- A live slot has a reference to the location, which is not one of a struct. -/
structure Running.Addresses (r : Running) (s : Slot) (p : Spot) : Prop where
  refers : r.Refers s p
  holder : ∃ k, r.Live k ∧ r.stack.slots[k]? = some s
  live : ∀ a, p = .cell a → r.Live a
  notBlock : ∀ d, p ≠ .block d

/-- What a location of a primitive type, or of another type, has of a carry that is stored to it. -/
def Spot.stored (p : Spot) (c : Carry) (q : Option Primitive) : Carry :=
  match p with
  | .cell _ | .block _ => c
  | .member .. | .static .. => .value (c.converted q)

namespace Engine

open Stack

variable {r r' : Running} {s : Slot} {p : Spot} {c : Carry} {t : TypeId}

theorem loadThrough_cell {a n : Nat} {y : Slot} (hslot : r.stack.slots[a]? = some y)
    (hy : y.isHeader = false) : loadThrough n (.stackRef a) r = loadCarry a r := by
  unfold loadThrough
  refine (bind_of_ok (by rw [read, slotAt_of_some hslot])).trans ?_
  cases y <;> first | rfl | cases hy

theorem storeThrough_cell {a fuel : Nat} {y : Slot} (hslot : r.stack.slots[a]? = some y)
    (hy : y.isHeader = false) : storeThrough fuel (.stackRef a) c t r =
      (storeInto fuel a c >>= fun _ ↦ pure true : RunM Bool) r := by
  unfold storeThrough
  refine (bind_of_ok (by rw [read, slotAt_of_some hslot])).trans ?_
  cases y <;> first | rfl | cases hy

end Engine

namespace Running

variable {r r' : Running} {s : Slot} {p q : Spot} {a : Nat} {x : Slot} {c : Carry}

/-- An address names a place on the heap or a cell of the stack. -/
theorem Addresses.cases (h : r.Addresses s p) : p.OnHeap ∨ ∃ a x, s = .stackRef a ∧ p = .cell a ∧
    r.stack.slots[a]? = some x ∧ (∀ d, x ≠ .block d) ∧ x.isHeader = false := by
  obtain ⟨hrefers, -, -, hnot⟩ := h
  cases hrefers with
  | @cell a x hslot hblock hheader =>
    refine .inr ⟨a, x, rfl, rfl, hslot, hblock, ?_⟩
    cases x <;> first | rfl | exact absurd rfl (hheader _ _)
  | header => exact absurd rfl (hnot _)
  | block => exact absurd rfl (hnot _)
  | field => exact .inl trivial
  | item => exact .inl trivial
  | static => exact .inl trivial

/-- What references lead to on the heap depends on their entries only. -/
theorem Refers.congr (h : r.Refers s p) (hp : p.OnHeap) (hdomain : r'.domain = r.domain)
    (hentry : ∀ i, s.entry? = some i → i < r.stack.managed.size →
      r'.stack.managed[i]? = r.stack.managed[i]?) : r'.Refers s p := by
  have hkept {e : Nat} {v : Value} (he : s.entry? = some e) (h : r.stack.managed[e]? = some v) :
      r'.stack.managed[e]? = some v :=
    (hentry e he (Array.getElem?_eq_some_iff.mp h).1).trans h
  cases h with
  | cell => exact hp.elim
  | header => exact hp.elim
  | block => exact hp.elim
  | field h hobject hi => exact .field (hkept rfl h) (hdomain ▸ hobject) hi
  | item h hobject hi => exact .item (hkept rfl h) (hdomain ▸ hobject) hi
  | static ht hstatics hi => exact .static (hdomain ▸ ht) (hdomain ▸ hstatics) hi

/-- A store to a cell changes no entry of another live slot. -/
theorem Unshared.entry (hr : r.Unshared) (ha : r.Live a) (hx : r.stack.slots[a]? = some x)
    (h : Engine.Filling r r' a x c) {k i : Nat} {y : Slot} (hk : r.Live k)
    (hy : r.stack.slots[k]? = some y) (hi : y.entry? = some i) (hlt : i < r.stack.managed.size)
    (hne : k ≠ a ∨ y ≠ .object i) : r'.stack.managed[i]? = r.stack.managed[i]? := by
  refine h.within.entry i hlt fun hobject ↦ ?_
  obtain rfl : x = .object i := hobject
  obtain rfl := hr hk ha hy hx hi rfl
  rcases hne with hne | hne
  · exact hne rfl
  · exact hne (Option.some.inj (hy.symm.trans hx))

end Running

namespace Engine

open Stack

variable {r r' : Running} {s : Slot} {p : Spot} {c : Carry} {t : TypeId}

end Engine

/-! ### Two references to a field -/

/-- A number and a reference to it, and two references to the byte of one object, each with an entry
of its own. -/
def Running.references : Running :=
  Running.bytes.withStack { Stack.empty 8 with
    slots := #[.int32 5, .stackRef 0, .fieldRef 0 0, .fieldRef 1 0, .null, .null, .null, .null]
    top := 4
    managed := #[.object ⟨0⟩, .object ⟨0⟩] }

namespace Running

end Running

namespace Engine

end Engine

end ManagedMachine
