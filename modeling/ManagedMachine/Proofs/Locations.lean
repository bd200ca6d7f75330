import ManagedMachine.Engine.Step
import ManagedMachine.Proofs.Marshaling

/-!
# Locations of primitive types

A number that is stored to a location comes back when the location is loaded. Locals and arguments
give back the slot itself. All other locations cut it down to their type: the fields of inline
structs when they are loaded, and what lies on the heap when it is stored.

For each kind of location there are two lemmas, for a store and for a load (`succeeds_storeStatic`,
`succeeds_loadInline` and so on). What lies in between is `Filled`: the location holds the number in
the form that it keeps, and the operands are as they were. `location_shows` puts the two together
for all kinds.
-/

set_option autoImplicit false
set_option relaxedAutoImplicit false

namespace ManagedMachine

open Engine

/-- A location as code reaches it. -/
inductive Location where
  | local_ (n : UInt16)
  | argument (n : UInt16)
  /-- A field of the struct whose block the slot at `addr` points at. -/
  | inline (addr : Nat) (field : Field)
  | object (id : ObjectId) (field : Field)
  | element (array : ObjectId) (i : Int32)
  | static (field : Field)

namespace Location

/-- Pushes the operands of a store and stores the slot. -/
def store (c : Callees) (fuel : Nat) (f : Frame) (s : Slot) : Location → RunM Unit
  | local_ n => do
    push s
    storeTop fuel (← localAddr f n)
  | argument n => do
    push s
    storeTop fuel (← argAddr f n)
  | inline addr field => do
    push (.stackRef addr)
    push s
    storeField c fuel field
  | object id field => do
    Stack.pushObject (.object id)
    push s
    storeField c fuel field
  | element id i => do
    Stack.pushObject (.object id)
    push (.int32 i)
    push s
    storeElement fuel
  | static field => do
    push s
    storeStatic c fuel field
    pop

/-- Pushes the operands of a load and loads the location. -/
def load (c : Callees) (fuel : Nat) (f : Frame) : Location → RunM Unit
  | local_ n => do pushCopy fuel (← localAddr f n)
  | argument n => do pushCopy fuel (← argAddr f n)
  | inline addr field => do
    push (.stackRef addr)
    loadField c fuel field
  | object id field => do
    Stack.pushObject (.object id)
    loadField c fuel field
  | element id i => do
    Stack.pushObject (.object id)
    push (.int32 i)
    loadElement fuel
  | static field => loadStatic c fuel field

/-- What a load gives after a slot was stored. -/
def shown (p : Primitive) (s : Slot) : Location → Slot
  | local_ _ | argument _ => s
  | _ => s.narrowed p

/-- The location is there, its type is the primitive, and it holds the slot. -/
inductive Holds (r : Running) (f : Frame) (p : Primitive) (x : Slot) : Location → Prop
  | local_ {n : UInt16} (hn : n.toNat < f.localCount) (hbelow : f.localBase + n.toNat < r.stack.top)
    (hslot : r.stack.slots[f.localBase + n.toNat]? = some x) : Holds r f p x (local_ n)
  | argument {n : UInt16} (hn : n.toNat < f.argCount) (hbelow : f.argBase + n.toNat < r.stack.top)
    (hslot : r.stack.slots[f.argBase + n.toNat]? = some x) : Holds r f p x (argument n)
  | inline {addr d count : Nat} {t : TypeId} {field : Field}
    (hp : (r.domain.registry.type field.type).primitive? = some p)
    (hinstance : field.isStatic = false)
    (hnative : field.native = none) (hbelow : addr < r.stack.top)
    (hblock : r.stack.slots[addr]? = some (.block d))
    (hheader : r.stack.slots[d]? = some (.header t count)) (hindex : field.index < count)
    (hlow : r.stack.low + field.index < d) (hslot : r.stack.slots[d - 1 - field.index]? = some x) :
    Holds r f p x (inline addr field)
  | object {id : ObjectId} {field : Field} {t : TypeId} {values : Array Value} {adapted : Bool}
    (hp : (r.domain.registry.type field.type).primitive? = some p)
    (hinstance : field.isStatic = false)
    (hnative : field.native = none) (hlt : id.index < r.domain.heap.size)
    (hobject : r.domain.heap.object id = .instance_ t values adapted)
    (hvalue : values[field.index]? = some (x.value (some p))) : Holds r f p x (object id field)
  | element {id : ObjectId} {i : Int32} {t e : TypeId} {values : Array Value}
    (hp : (r.domain.registry.type e).primitive? = some p)
    (harray : (r.domain.registry.type t).isArray = true)
    (helement : (r.domain.registry.type t).element? = some e) (hlt : id.index < r.domain.heap.size)
    (hobject : r.domain.heap.object id = .array t values) (hi : 0 ≤ i)
    (hvalue : values[i.toInt.toNat]? = some (x.value (some p))) : Holds r f p x (element id i)
  | static {field : Field} {statics : Statics}
    (hp : (r.domain.registry.type field.type).primitive? = some p) (hnative : field.native = none)
    (hstatics : r.domain.statics[field.declaring]? = some statics)
    (hstate : statics.state ≠ .untouched)
    (hvalue : statics.values[field.index]? = some (x.value (some p))) : Holds r f p x (static field)

end Location

/-! ### Operands -/

namespace Stack

/-- The second stack is the first one with operands on top, the lowest one first. What lies between
the operands and the blocks does not matter. -/
structure Over (s : Stack) (l : List Slot) (s' : Stack) : Prop where
  top : s'.top = s.top + l.length
  low : s'.low = s.low
  size : s'.slots.size = s.slots.size
  slot : ∀ a, a < s.top ∨ s.low ≤ a → s'.slots[a]? = s.slots[a]?
  operand : ∀ i x, l[i]? = some x → s'.slots[s.top + i]? = some x

namespace Over

variable {s s' : Stack} {l : List Slot} {x y : Slot} {a : Nat}

theorem nil (s : Stack) : Over s [] s := ⟨rfl, rfl, rfl, fun _ _ ↦ rfl, nofun⟩

theorem pushed (h : Over s l s') (hroom : s.top + l.length < s.low) (hfit : s.low ≤ s.slots.size)
    (x : Slot) : Over s (l ++ [x]) (s'.pushed x) := by
  have htop := h.top
  have hsize := h.size
  refine ⟨?_, h.low, Array.size_setIfInBounds.trans hsize, fun a ha ↦ ?_, fun i y hi ↦ ?_⟩
  · rw [List.length_append, List.length_singleton, ← Nat.add_assoc, ← htop]
    rfl
  · exact (Array.getElem?_setIfInBounds_ne (by omega)).trans (h.slot a ha)
  · rcases Nat.lt_trichotomy i l.length with hlt | rfl | hgt
    · rw [List.getElem?_append_left hlt] at hi
      exact (Array.getElem?_setIfInBounds_ne (by omega)).trans (h.operand i y hi)
    · rw [List.getElem?_append_right (Nat.le_refl _), Nat.sub_self] at hi
      cases hi
      rw [← htop]
      exact Array.getElem?_setIfInBounds_self_of_lt (by omega)
    · rw [List.getElem?_eq_none (by rw [List.length_append, List.length_singleton]; omega)] at hi
      cases hi

theorem topAddr (h : Over s (l ++ [x]) s') : s'.topAddr = .ok (s.top + l.length) := by
  have htop := h.top
  rw [List.length_append, List.length_singleton] at htop
  rw [Stack.topAddr, if_neg (by omega), htop]
  rfl

theorem topSlot (h : Over s (l ++ [x]) s') : s'.topSlot = .ok x := by
  rw [Stack.topSlot, h.topAddr]
  exact slotAt_of_some (h.operand _ x (by simp))

theorem peek {m : List Slot} (h : Over s (l ++ y :: m) s') : s'.peek m.length = .ok y := by
  have htop := h.top
  rw [List.length_append, List.length_cons] at htop
  have haddr : s'.top - (m.length + 1) = s.top + l.length := by omega
  rw [Stack.peek, if_neg (by omega), haddr]
  exact slotAt_of_some (h.operand _ y (by simp))

/-- What is popped may give up an entry, but no block. -/
theorem pop (h : Over s (l ++ [x]) s') (hx : ∀ d, x ≠ .block d) :
    ∃ s'', Stack.pop s' = .ok () s'' ∧ Over s l s'' := by
  have hslot : s'.slots[s.top + l.length]? = some x := h.operand _ x (by simp)
  have hget : s'.slots.getD (s.top + l.length) .null = x := by
    rw [Array.getD_eq_getD_getElem?, hslot]
    rfl
  let s₁ : Stack := { s' with top := s.top + l.length }
  have hpop : Stack.pop s' = .ok () (releaseSlotEntry x s₁) := by
    unfold Stack.pop
    rw [h.topAddr]
    dsimp only
    rw [hget]
    unfold release
    cases x with
    | block d => exact absurd rfl (hx d)
    | _ => rfl
  have hgave := gaveUp_releaseSlotEntry (s.top + l.length) s₁
  dsimp only [s₁] at hgave
  rw [hget] at hgave
  refine ⟨_, hpop, hgave.top, hgave.low.trans h.low, ?_, fun a ha ↦ ?_, fun i y hi ↦ ?_⟩
  · rw [hgave.slots]
    exact h.size
  · rw [hgave.slots]
    exact h.slot a ha
  · rw [hgave.slots]
    refine h.operand i y ?_
    rw [List.getElem?_append_left (List.getElem?_eq_some_iff.mp hi).1, hi]

theorem popMany (hx : ∀ x ∈ l, ∀ d, x ≠ .block d) (h : Over s l s') :
    ∃ s'', Stack.popMany l.length s' = .ok () s'' ∧ Over s [] s'' := by
  induction l using List.reverseRecOn generalizing s' with
  | nil => exact ⟨s', rfl, h⟩
  | append_singleton l x ih =>
    obtain ⟨s₁, hpop, h₁⟩ := h.pop (hx x (by simp))
    obtain ⟨s₂, hpopMany, h₂⟩ := ih (fun y hy ↦ hx y (by simp [hy])) h₁
    rw [List.length_append, List.length_singleton]
    exact ⟨s₂, (bind_of_ok hpop).trans hpopMany, h₂⟩

/-- A slot below the operands or in a block is overwritten. -/
theorem setSlot (h : Over s l s') (ha : a < s.top ∨ s.low ≤ a) (hroom : s.top + l.length ≤ s.low)
    (x : Slot) : Over { s with slots := s.slots.setIfInBounds a x } l
      { s' with slots := s'.slots.setIfInBounds a x } where
  top := h.top
  low := h.low
  size := by
    rw [Array.size_setIfInBounds, Array.size_setIfInBounds]
    exact h.size
  slot b hb := by
    rw [Array.getElem?_setIfInBounds, Array.getElem?_setIfInBounds, h.size, h.slot b hb]
  operand i y hi := by
    have hlt := (List.getElem?_eq_some_iff.mp hi).1
    have hne : a ≠ s.top + i := by omega
    exact (Array.getElem?_setIfInBounds_ne hne).trans (h.operand i y hi)

end Over

end Stack

namespace Engine

open Stack

variable {s : Stack} {r : Running} {fuel a : Nat} {l : List Slot} {x : Slot} {t : TypeId}
  {p : Primitive} {c : Callees} {f : Frame}

theorem push_over (h : Over s l r.stack) (hroom : s.top + l.length < s.low) (y : Slot) :
    push y r = .ok () (r.withStack (r.stack.pushed y)) :=
  Running.onStack_ok (push_of_lt (by rw [h.top, h.low]; exact hroom))

/-- An object is pushed with an entry of its own. -/
theorem pushObject_over (id : ObjectId) (h : Over s l r.stack)
    (hroom : s.top + l.length < s.low) (hfit : s.low ≤ s.slots.size) :
    ∃ s' k, Running.onStack (Stack.pushObject (.object id)) r = .ok () (r.withStack s') ∧
      Over s (l ++ [.object k]) s' ∧ s'.managed[k]? = some (.object id) := by
  let s₁ : Stack := { r.stack with managed := r.stack.managed.push (.object id) }
  have h₁ : Over s l s₁ := { h with }
  have hlt : s₁.top < s₁.low := by rw [h₁.top, h₁.low]; exact hroom
  have hpush : Stack.pushObject (.object id) r.stack =
      .ok () (s₁.pushed (.object r.stack.managed.size)) :=
    (bind_of_ok rfl).trans (push_of_lt hlt)
  exact ⟨_, _, Running.onStack_ok hpush, h₁.pushed hroom hfit _, Array.getElem?_push_size⟩

theorem loadCarry_number (h : r.stack.slots[a]? = some x) (hx : x.isNumeric = true) :
    loadCarry a r = .ok (.slot x) r := by
  unfold loadCarry
  refine (bind_of_ok (by rw [read, slotAt_of_some h])).trans ?_
  cases x <;> first | rfl | cases hx

theorem loadTop_number (h : Over s (l ++ [x]) r.stack) (hx : x.isNumeric = true) :
    loadTop r = .ok (.slot x) r := by
  unfold loadTop
  refine (bind_of_ok (by rw [read, h.topAddr])).trans ?_
  exact loadCarry_number (h.operand _ x (by simp)) hx

theorem carryValue_number (hp : (r.domain.registry.type t).primitive? = some p)
    (hx : x.isNumeric = true) :
    carryValue fuel (.slot x) t r = .ok (x.value (some p)) r := by
  have hnull : x ≠ .null := by
    rintro rfl
    cases hx
  unfold carryValue
  cases x with
  | null => exact absurd rfl hnull
  | _ =>
    first
    | exact (bind_of_ok (descriptor_ok t r)).trans (by rw [hp]; rfl)
    | cases hx

/-- A number is stored to a stack location as it is. -/
theorem storeInto_number (ha : a < r.stack.slots.size) (hx : x.isNumeric = true) :
    storeInto fuel a (.slot x) r =
      .ok () (r.withStack { r.stack with slots := r.stack.slots.setIfInBounds a x }) := by
  obtain ⟨y, hy⟩ : ∃ y, r.stack.slots[a]? = some y := ⟨_, Array.getElem?_eq_getElem ha⟩
  unfold storeInto
  refine (bind_of_ok (by rw [read, slotAt_of_some hy])).trans ?_
  refine Eq.trans ?_ (Running.onStack_ok (setSlot_of_lt ha))
  cases x <;> first | (cases y <;> rfl) | cases hx

/-! ### Locals and arguments -/

theorem succeeds_storeTop (h : Over s [x] r.stack) (ha : a < s.top) (hroom : s.top + 1 ≤ s.low)
    (hfit : s.low ≤ s.slots.size) (hx : x.isNumeric = true) :
    Succeeds (storeTop fuel a) r fun _ r' ↦ r'.domain = r.domain ∧
      Over { s with slots := s.slots.setIfInBounds a x } [] r'.stack := by
  have hsize : a < r.stack.slots.size := by rw [h.size]; omega
  have hfree : ∀ d, x ≠ .block d := by
    rintro d rfl
    cases hx
  obtain ⟨s', hpop, hover⟩ := (h.setSlot (.inl ha) hroom x).pop (l := []) hfree
  unfold storeTop
  refine .bind_ok (loadTop_number (l := []) h hx) (.bind_ok (storeInto_number hsize hx) ?_)
  exact .of_ok (Running.onStack_ok hpop) ⟨rfl, hover⟩

theorem pushCopy_number (h : r.stack.slots[a]? = some x) (hx : x.isNumeric = true)
    (hroom : r.stack.top < r.stack.low) :
    pushCopy fuel a r = .ok () (r.withStack (r.stack.pushed x)) := by
  unfold pushCopy
  refine (bind_of_ok (by rw [read, slotAt_of_some h])).trans ?_
  refine Eq.trans ?_ (Running.onStack_ok (push_of_lt hroom))
  cases x <;> first | rfl | cases hx

theorem localAddr_of_lt {n : UInt16} (hn : n.toNat < f.localCount) :
    localAddr f n r = .ok (f.localBase + n.toNat) r := by
  unfold localAddr
  rw [if_pos hn]
  rfl

theorem argAddr_of_lt {n : UInt16} (hn : n.toNat < f.argCount) :
    argAddr f n r = .ok (f.argBase + n.toNat) r := by
  unfold argAddr
  rw [if_pos hn]
  rfl

theorem pop_over (h : Over s (l ++ [x]) r.stack) (hx : ∀ d, x ≠ .block d) :
    ∃ s', (pop : RunM Unit) r = .ok () (r.withStack s') ∧ Over s l s' :=
  let ⟨s', hpop, hover⟩ := h.pop hx
  ⟨s', Running.onStack_ok hpop, hover⟩

theorem popMany_over (h : Over s l r.stack) (hx : ∀ x ∈ l, ∀ d, x ≠ .block d) :
    ∃ s', Running.onStack (Stack.popMany l.length) r = .ok () (r.withStack s') ∧ Over s [] s' :=
  let ⟨s', hpop, hover⟩ := h.popMany hx
  ⟨s', Running.onStack_ok hpop, hover⟩

/-- A location after a store: it holds the slot, and the operands are gone. -/
structure Filled (r r' : Running) (f : Frame) (p : Primitive) (x : Slot) (loc : Location) :
    Prop where
  holds : loc.Holds r' f p x
  top : r'.stack.top = r.stack.top
  low : r'.stack.low = r.stack.low
  size : r'.stack.slots.size = r.stack.slots.size

section Variables

variable {addr : RunM Nat}

/-- What a frame names by a number, a local or an argument, is a slot of its own. -/
theorem succeeds_storeVariable (haddr : ∀ r : Running, addr r = .ok a r) (ha : a < r.stack.top)
    (hroom : r.stack.top < r.stack.low) (hfit : r.stack.low ≤ r.stack.slots.size)
    (hx : x.isNumeric = true) :
    Succeeds (push x >>= fun _ ↦ addr >>= fun a ↦ storeTop fuel a) r fun _ r' ↦
      r'.stack.slots[a]? = some x ∧ r'.stack.top = r.stack.top ∧ r'.stack.low = r.stack.low ∧
        r'.stack.slots.size = r.stack.slots.size := by
  have hover : Over r.stack [x] (r.stack.pushed x) := (Over.nil r.stack).pushed hroom hfit x
  refine .bind_ok (push_over (.nil r.stack) hroom x) (.bind_ok (haddr _) ?_)
  refine (succeeds_storeTop (r := r.withStack (r.stack.pushed x)) hover ha hroom hfit hx).imp
    fun _ r' ⟨_, h⟩ ↦ ⟨?_, h.top, h.low, h.size.trans Array.size_setIfInBounds⟩
  exact (h.slot a (.inl ha)).trans (Array.getElem?_setIfInBounds_self_of_lt (by omega))

theorem succeeds_loadVariable (haddr : ∀ r : Running, addr r = .ok a r)
    (hslot : r.stack.slots[a]? = some x) (hroom : r.stack.top < r.stack.low)
    (hfit : r.stack.low ≤ r.stack.slots.size) (hx : x.isNumeric = true) :
    Succeeds (addr >>= fun a ↦ pushCopy fuel a) r fun _ r' ↦ Over r.stack [x] r'.stack :=
  .bind_ok (haddr r)
    (.of_ok (pushCopy_number hslot hx hroom) ((Over.nil r.stack).pushed hroom hfit x))

end Variables

/-! ### Static fields -/

theorem ensureInitialized_ok {statics : Statics} (h : r.domain.statics[t]? = some statics)
    (hstate : statics.state ≠ .untouched) : ensureInitialized c fuel t r = .ok () r := by
  have hbegin : Domain.beginInitialization fuel t r.domain = .ok false r.domain := by
    refine (bind_of_ok (Domain.staticsOf_of_known h)).trans ?_
    cases hs : statics.state with
    | untouched => exact absurd hs hstate
    | _ => rfl
  exact bind_of_ok (Running.onDomain_ok hbegin)

theorem static_ok {d : Domain} {statics : Statics} {v : Value} {i : Nat}
    (h : d.statics[t]? = some statics) (hv : statics.values[i]? = some v) :
    Domain.static fuel t i d = .ok v d := by
  refine (bind_of_ok (Domain.staticsOf_of_known h)).trans ?_
  rw [hv]
  rfl

theorem setStatic_ok {d : Domain} {statics : Statics} {i : Nat}
    (h : d.statics[t]? = some statics) (hi : i < statics.values.size) (v : Value) :
    Domain.setStatic fuel t i v d = .ok () { d with
      statics := d.statics.insert t
        { statics with values := statics.values.setIfInBounds i v } } := by
  refine (bind_of_ok (Domain.staticsOf_of_known h)).trans ?_
  rw [if_pos hi]
  rfl

theorem notBlock_of_numeric (hx : x.isNumeric = true) : ∀ d, x ≠ .block d := by
  rintro d rfl
  cases hx

theorem ne_void_of_numeric (h : x.Of p) (hx : x.isNumeric = true) : p ≠ .void := by
  rintro rfl
  cases h with
  | null => cases hx
  | int32 h | int64 h | single h | double h => cases h

/-- The slot is cut down on the way back from the heap. -/
theorem succeeds_pushNumber (h : Over s [] r.stack)
    (hp : (r.domain.registry.type t).primitive? = some p) (hx : x.Of p) (hnum : x.isNumeric = true)
    (hroom : s.top < s.low) (hfit : s.low ≤ s.slots.size) :
    Succeeds (pushValue fuel (x.value (some p)) t) r fun _ r' ↦ Over s [x.narrowed p] r'.stack := by
  have hlt : r.stack.top < r.stack.low := by rw [h.top, h.low]; exact hroom
  exact .of_ok (pushValue_number _ hp (ne_void_of_numeric hx hnum) hx hlt) (h.pushed hroom hfit _)

/-- Statics keep the number as the heap does, narrowed. -/
theorem succeeds_storeStatic {field : Field} {y : Slot}
    (h : Location.Holds r f p y (.static field)) (hroom : r.stack.top < r.stack.low)
    (hfit : r.stack.low ≤ r.stack.slots.size) (hx : x.isNumeric = true) :
    Succeeds (Location.store c fuel f x (.static field)) r fun _ r' ↦
      Filled r r' f p x (.static field) := by
  cases h with
  | @static _ statics hp hnative hstatics hstate hvalue =>
    have hi := (Array.getElem?_eq_some_iff.mp hvalue).1
    have hover : Over r.stack [x] (r.stack.pushed x) := (Over.nil r.stack).pushed hroom hfit x
    let d' : Domain := { r.domain with
      statics := r.domain.statics.insert field.declaring { statics with
        values := statics.values.setIfInBounds field.index (x.value (some p)) } }
    let r₁ := (r.withStack (r.stack.pushed x)).withDomain d'
    obtain ⟨s', hpop, hover'⟩ := pop_over (r := r₁) (l := []) hover (notBlock_of_numeric hx)
    refine .bind_ok (push_over (.nil r.stack) hroom x)
      (.bind_ok (a := ()) (t := r₁) ?_ (.of_ok hpop ?_))
    · unfold storeStatic
      rw [hnative]
      let r₂ := r.withStack (r.stack.pushed x)
      refine (bind_of_ok (loadTop_number (r := r₂) (l := []) hover hx)).trans ?_
      refine (bind_of_ok (carryValue_number (r := r₂) hp hx)).trans ?_
      refine (bind_of_ok (ensureInitialized_ok (r := r₂) hstatics hstate)).trans ?_
      exact Running.onDomain_ok (setStatic_ok hstatics hi _)
    · refine ⟨.static hp hnative (Std.HashMap.getElem?_insert_self ..) hstate ?_, hover'.top,
        hover'.low, hover'.size⟩
      exact Array.getElem?_setIfInBounds_self_of_lt hi

theorem succeeds_loadStatic {field : Field} (h : Location.Holds r f p x (.static field))
    (hroom : r.stack.top < r.stack.low) (hfit : r.stack.low ≤ r.stack.slots.size) (hx : x.Of p)
    (hnum : x.isNumeric = true) :
    Succeeds (Location.load c fuel f (.static field)) r fun _ r' ↦
      Over r.stack [x.narrowed p] r'.stack := by
  cases h with
  | static hp hnative hstatics hstate hvalue =>
    change Succeeds (loadStatic c fuel field) r _
    unfold loadStatic
    rw [hnative]
    refine .bind_ok (ensureInitialized_ok hstatics hstate) ?_
    refine .bind_ok (Running.onDomain_ok (static_ok hstatics hvalue)) ?_
    exact succeeds_pushNumber (.nil r.stack) hp hx hnum hroom hfit

/-! ### Fields of inline structs -/

theorem targetOf_block {addr d : Nat} (h : r.stack.slots[addr]? = some (.block d)) :
    targetOf (fuel + 2) (.stackRef addr) r = .ok (.block d) r := by
  unfold targetOf
  refine (bind_of_ok (by rw [read, slotAt_of_some h])).trans ?_
  rfl

theorem fieldAddr_ok {d i n : Nat} (h : r.stack.slots[d]? = some (.header t n)) (hi : i < n) :
    r.stack.fieldAddr d i = .ok (d - 1 - i) := by
  rw [fieldAddr, header_of_some h]
  exact if_neg (Nat.not_le.mpr hi)

/-- A field of a struct on the stack is a slot of its own. -/
theorem succeeds_storeInline {addr : Nat} {field : Field} {y : Slot}
    (h : Location.Holds r f p y (.inline addr field)) (hroom : r.stack.top + 1 < r.stack.low)
    (hfit : r.stack.low ≤ r.stack.slots.size) (hx : x.isNumeric = true) :
    Succeeds (Location.store c (fuel + 2) f x (.inline addr field)) r fun _ r' ↦
      Filled r r' f p x (.inline addr field) := by
  cases h with
  | @inline _ d count t _ hp hinstance hnative hbelow hblock hheader hindex hlow hslot =>
    have hlt := (Array.getElem?_eq_some_iff.mp hslot).1
    have hover : Over r.stack [.stackRef addr] (r.stack.pushed (.stackRef addr)) :=
      (Over.nil r.stack).pushed (by rw [List.length_nil]; omega) hfit _
    let r₁ := r.withStack (r.stack.pushed (.stackRef addr))
    have hover₂ : Over r.stack [.stackRef addr, x] (r₁.stack.pushed x) := hover.pushed hroom hfit x
    let r₂ := r₁.withStack (r₁.stack.pushed x)
    have hblock₂ : r₂.stack.slots[addr]? = some (.block d) :=
      (hover₂.slot addr (.inl hbelow)).trans hblock
    have hheader₂ : r₂.stack.slots[d]? = some (.header t count) :=
      (hover₂.slot d (.inr (by omega))).trans hheader
    have hpeek : r₂.stack.peek 1 = .ok (.stackRef addr) :=
      Over.peek (l := []) (m := [x]) hover₂
    have hset := hover₂.setSlot (a := d - 1 - field.index) (.inr (by omega)) hroom x
    refine .bind_ok (push_over (.nil r.stack) (by rw [List.length_nil]; omega) _) ?_
    refine .bind_ok (push_over (r := r₁) hover hroom x) ?_
    change Succeeds (storeField c (fuel + 2) field) r₂ _
    unfold storeField
    rw [hinstance, hnative]
    refine .read hpeek (.bind_ok (targetOf_block hblock₂) ?_)
    refine .bind_ok (loadTop_number (l := [.stackRef addr]) hover₂ hx) ?_
    refine .read (fieldAddr_ok hheader₂ hindex) ?_
    refine .bind_ok (storeInto_number (hlt.trans_eq hover₂.size.symm) hx) ?_
    let r₃ := r₂.withStack { r₂.stack with
      slots := r₂.stack.slots.setIfInBounds (d - 1 - field.index) x }
    obtain ⟨s', hpop, hover'⟩ := popMany_over (r := r₃) hset (by simp [notBlock_of_numeric hx])
    refine .of_ok hpop ⟨?_, hover'.top, hover'.low, hover'.size.trans Array.size_setIfInBounds⟩
    have hkept (b : Nat) (hb : b < r.stack.top ∨ r.stack.low ≤ b) (hne : d - 1 - field.index ≠ b) :
        s'.slots[b]? = r.stack.slots[b]? :=
      (hover'.slot b hb).trans (Array.getElem?_setIfInBounds_ne hne)
    refine .inline hp hinstance hnative ?_ ((hkept addr (.inl hbelow) (by omega)).trans hblock)
      ((hkept d (.inr (by omega)) (by omega)).trans hheader) hindex ?_ ?_
    · exact hover'.top ▸ hbelow
    · exact hover'.low ▸ hlow
    · refine (hover'.slot _ (.inr ?_)).trans (Array.getElem?_setIfInBounds_self_of_lt hlt)
      change r.stack.low ≤ _
      omega

theorem pushCarry_number (hp : (r.domain.registry.type t).primitive? = some p)
    (hx : x.isNumeric = true) (hroom : r.stack.top < r.stack.low) :
    pushCarry fuel (.slot x) t r = .ok () (r.withStack (r.stack.pushed (x.narrowed p))) := by
  have hpush (y : Slot) :
      Running.onStack (Stack.push y) r = .ok () (r.withStack (r.stack.pushed y)) :=
    Running.onStack_ok (push_of_lt hroom)
  unfold pushCarry
  cases x with
  | int32 v =>
    refine (bind_of_ok (descriptor_ok t r)).trans ?_
    rw [hp]
    exact hpush _
  | int64 v => exact hpush _
  | single v => exact hpush _
  | double v => exact hpush _
  | _ => cases hx

/-- A field of an inline struct holds the whole slot, which is narrowed when it is loaded. -/
theorem succeeds_loadInline {addr : Nat} {field : Field}
    (h : Location.Holds r f p x (.inline addr field)) (hroom : r.stack.top < r.stack.low)
    (hfit : r.stack.low ≤ r.stack.slots.size) (hx : x.isNumeric = true) :
    Succeeds (Location.load c (fuel + 2) f (.inline addr field)) r fun _ r' ↦
      Over r.stack [x.narrowed p] r'.stack := by
  cases h with
  | @inline _ d count t _ hp hinstance hnative hbelow hblock hheader hindex hlow hslot =>
    have hover : Over r.stack [.stackRef addr] (r.stack.pushed (.stackRef addr)) :=
      (Over.nil r.stack).pushed hroom hfit _
    let r₁ := r.withStack (r.stack.pushed (.stackRef addr))
    have hblock₁ : r₁.stack.slots[addr]? = some (.block d) :=
      (hover.slot addr (.inl hbelow)).trans hblock
    have hheader₁ : r₁.stack.slots[d]? = some (.header t count) :=
      (hover.slot d (.inr (by omega))).trans hheader
    have hslot₁ : r₁.stack.slots[d - 1 - field.index]? = some x :=
      (hover.slot _ (.inr (by omega))).trans hslot
    obtain ⟨s', hpop, hover'⟩ := pop_over (r := r₁) (l := []) hover nofun
    have hroom' : s'.top < s'.low := by rw [hover'.top, hover'.low]; exact hroom
    refine .bind_ok (push_over (.nil r.stack) hroom _) ?_
    change Succeeds (loadField c (fuel + 2) field) r₁ _
    unfold loadField
    rw [hinstance, hnative]
    refine .read (Over.topSlot (l := []) hover) (.bind_ok (targetOf_block hblock₁) ?_)
    refine .read (fieldAddr_ok hheader₁ hindex) (.bind_ok (loadCarry_number hslot₁ hx) ?_)
    refine .bind_ok rfl (.bind_ok hpop (.of_ok (pushCarry_number hp hx hroom') ?_))
    exact hover'.pushed hroom hfit _

/-! ### Fields of objects -/

theorem targetOf_object {k : Nat} {id : ObjectId} (h : r.stack.managed[k]? = some (.object id)) :
    targetOf (fuel + 1) (.object k) r = .ok (.object id) r := by
  unfold targetOf
  exact (bind_of_ok (by rw [read, entry_of_some h])).trans rfl

theorem instanceFields_ok {d : Domain} {id : ObjectId} {values : Array Value} {adapted : Bool}
    (h : d.heap.object id = .instance_ t values adapted) :
    Domain.instanceFields id d = .ok values d := by
  have hask : Domain.ask (fun d ↦ d.heap.object id) d = .ok (.instance_ t values adapted) d := by
    rw [Domain.ask, h]
  exact (bind_of_ok hask).trans rfl

theorem field_ok {d : Domain} {id : ObjectId} {values : Array Value} {adapted : Bool} {i : Nat}
    {v : Value} (h : d.heap.object id = .instance_ t values adapted) (hv : values[i]? = some v) :
    Domain.field id i d = .ok v d := by
  refine (bind_of_ok (instanceFields_ok h)).trans ?_
  rw [hv]
  rfl

theorem setField_ok {d : Domain} {id : ObjectId} {values : Array Value} {adapted : Bool} {i : Nat}
    (h : d.heap.object id = .instance_ t values adapted) (hi : i < values.size) (v : Value) :
    Domain.setField id i v d = .ok () { d with
      heap := d.heap.put id (.instance_ t (values.setIfInBounds i v) adapted) } := by
  have hask : Domain.ask (fun d ↦ d.heap.object id) d = .ok (.instance_ t values adapted) d := by
    rw [Domain.ask, h]
  refine (bind_of_ok hask).trans ?_
  dsimp only
  rw [if_pos hi]
  rfl

/-- Fields of objects keep it narrowed. -/
theorem succeeds_storeObject {id : ObjectId} {field : Field} {y : Slot}
    (h : Location.Holds r f p y (.object id field)) (hroom : r.stack.top + 1 < r.stack.low)
    (hfit : r.stack.low ≤ r.stack.slots.size) (hx : x.isNumeric = true) :
    Succeeds (Location.store c (fuel + 2) f x (.object id field)) r fun _ r' ↦
      Filled r r' f p x (.object id field) := by
  cases h with
  | @object _ _ t values adapted hp hinstance hnative hlt hobject hvalue =>
    have hi := (Array.getElem?_eq_some_iff.mp hvalue).1
    have hroom₁ : r.stack.top + ([] : List Slot).length < r.stack.low := by
      rw [List.length_nil]
      omega
    obtain ⟨s₁, k, hpush, hover, hentry⟩ := pushObject_over id (.nil r.stack) hroom₁ hfit
    let r₁ := r.withStack s₁
    have hover₂ : Over r.stack [.object k, x] (r₁.stack.pushed x) := hover.pushed hroom hfit x
    let r₂ := r₁.withStack (r₁.stack.pushed x)
    have hpeek : r₂.stack.peek 1 = .ok (.object k) := Over.peek (l := []) (m := [x]) hover₂
    let values' := values.setIfInBounds field.index (x.value (some p))
    let d' : Domain :=
      { r.domain with heap := r.domain.heap.put id (.instance_ t values' adapted) }
    obtain ⟨s', hpop, hover'⟩ := popMany_over (r := r₂.withDomain d') hover₂
      (by simp [notBlock_of_numeric hx])
    refine .bind_ok hpush (.bind_ok (push_over (r := r₁) hover hroom x) ?_)
    change Succeeds (storeField c (fuel + 2) field) r₂ _
    unfold storeField
    rw [hinstance, hnative]
    refine .read hpeek (.bind_ok (targetOf_object hentry) ?_)
    refine .bind_ok (loadTop_number (l := [.object k]) hover₂ hx) ?_
    refine .bind_ok (carryValue_number hp hx) ?_
    refine .bind_ok (Running.onDomain_ok (setField_ok hobject hi _)) ?_
    refine .of_ok hpop ⟨.object hp hinstance hnative ?_ (Heap.object_put_self _ _ hlt) ?_,
      hover'.top, hover'.low, hover'.size⟩
    · simpa [d', Heap.put, Heap.size] using hlt
    · exact Array.getElem?_setIfInBounds_self_of_lt hi

theorem succeeds_loadObject {id : ObjectId} {field : Field}
    (h : Location.Holds r f p x (.object id field)) (hroom : r.stack.top < r.stack.low)
    (hfit : r.stack.low ≤ r.stack.slots.size) (hx : x.Of p) (hnum : x.isNumeric = true) :
    Succeeds (Location.load c (fuel + 2) f (.object id field)) r fun _ r' ↦
      Over r.stack [x.narrowed p] r'.stack := by
  cases h with
  | object hp hinstance hnative hlt hobject hvalue =>
    obtain ⟨s₁, k, hpush, hover, hentry⟩ := pushObject_over id (.nil r.stack) hroom hfit
    let r₁ := r.withStack s₁
    obtain ⟨s', hpop, hover'⟩ := pop_over (r := r₁) (l := []) hover nofun
    refine .bind_ok hpush ?_
    change Succeeds (loadField c (fuel + 2) field) r₁ _
    unfold loadField
    rw [hinstance, hnative]
    refine .read (Over.topSlot (l := []) hover) (.bind_ok (targetOf_object hentry) ?_)
    refine .bind_ok (Running.onDomain_ok (field_ok hobject hvalue)) (.bind_ok hpop ?_)
    exact succeeds_pushNumber (r := r₁.withStack s') hover' hp hx hnum hroom hfit

/-! ### Elements of arrays -/

theorem arrayAt_ok {n k : Nat} {id : ObjectId} {values : Array Value}
    (hpeek : r.stack.peek n = .ok (.object k)) (hentry : r.stack.managed[k]? = some (.object id))
    (hobject : r.domain.heap.object id = .array t values)
    (harray : (r.domain.registry.type t).isArray = true) : arrayAt n r = .ok id r := by
  have hreference : referenceValue (.object k) r = .ok (.object id) r := by
    change read (·.entry k) r = _
    rw [read, entry_of_some hentry]
  have htype : r.domain.typeOf id = r.domain.registry.type t := by
    rw [Domain.typeOf, Heap.type, hobject]
    rfl
  have hask : (Running.onDomain (Domain.ask fun d ↦ d) : RunM Domain) r = .ok r.domain r := rfl
  unfold arrayAt
  refine (bind_of_ok (a := .object k) (by rw [peek, read, hpeek])).trans ?_
  refine (bind_of_ok hreference).trans ((bind_of_ok hask).trans ?_)
  rw [htype, harray]
  rfl

theorem elementType_ok {e : TypeId} {id : ObjectId} {values : Array Value}
    (hobject : r.domain.heap.object id = .array t values)
    (helement : (r.domain.registry.type t).element? = some e) : elementType id r = .ok e r := by
  have htype : r.domain.typeOf id = r.domain.registry.type t := by
    rw [Domain.typeOf, Heap.type, hobject]
    rfl
  have hask : (Running.onDomain (Domain.ask fun d ↦ d.typeOf id) : RunM Descriptor) r =
      .ok (r.domain.registry.type t) r := by
    rw [← htype]
    rfl
  unfold elementType
  refine (bind_of_ok hask).trans ?_
  rw [helement]
  rfl

theorem elementIndex_ok {i : Int32} (hi : 0 ≤ i) :
    ofExcept (elementIndex (.int32 i)) r = .ok (some i.toInt.toNat) r := by
  have hnonneg : ¬i < 0 := Int32.not_lt.mpr hi
  rw [elementIndex, if_neg hnonneg]
  rfl

theorem element?_ok {d : Domain} {id : ObjectId} {values : Array Value} {i : Nat} {v : Value}
    (h : d.heap.object id = .array t values) (hv : values[i]? = some v) :
    Domain.element? id i d = .ok (some v) d := by
  have hask : Domain.ask (fun d ↦ d.heap.object id) d = .ok (.array t values) d := by
    rw [Domain.ask, h]
  have hitems : Domain.arrayItems id d = .ok values d := (bind_of_ok hask).trans rfl
  refine (bind_of_ok hitems).trans ?_
  rw [hv]
  rfl

theorem setElement_ok {d : Domain} {id : ObjectId} {values : Array Value} {i : Nat}
    (h : d.heap.object id = .array t values) (hi : i < values.size) (v : Value) :
    Domain.setElement id i v d = .ok true { d with
      heap := d.heap.put id (.array t (values.setIfInBounds i v)) } := by
  have hask : Domain.ask (fun d ↦ d.heap.object id) d = .ok (.array t values) d := by
    rw [Domain.ask, h]
  refine (bind_of_ok hask).trans ?_
  dsimp only
  rw [if_pos hi]
  rfl

/-- So do the elements of arrays, once the index is found to be inside. -/
theorem succeeds_storeElement {id : ObjectId} {i : Int32} {y : Slot}
    (h : Location.Holds r f p y (.element id i)) (hroom : r.stack.top + 2 < r.stack.low)
    (hfit : r.stack.low ≤ r.stack.slots.size) (hx : x.isNumeric = true) :
    Succeeds (Location.store c (fuel + 2) f x (.element id i)) r fun _ r' ↦
      Filled r r' f p x (.element id i) := by
  cases h with
  | @element _ _ t e values hp harray helement hlt hobject hi hvalue =>
    have hsize := (Array.getElem?_eq_some_iff.mp hvalue).1
    have hroom₁ : r.stack.top + ([] : List Slot).length < r.stack.low := by
      rw [List.length_nil]
      omega
    obtain ⟨s₁, k, hpush, hover, hentry⟩ := pushObject_over id (.nil r.stack) hroom₁ hfit
    have hroom₂ : r.stack.top + [Slot.object k].length < r.stack.low := by
      rw [List.length_singleton]
      omega
    let r₁ := r.withStack s₁
    have hover₂ : Over r.stack [.object k, .int32 i] (r₁.stack.pushed (.int32 i)) :=
      hover.pushed hroom₂ hfit _
    let r₂ := r₁.withStack (r₁.stack.pushed (.int32 i))
    have hover₃ : Over r.stack [.object k, .int32 i, x] (r₂.stack.pushed x) :=
      hover₂.pushed hroom hfit x
    let r₃ := r₂.withStack (r₂.stack.pushed x)
    have hpeek : r₃.stack.peek 1 = .ok (.int32 i) :=
      Over.peek (l := [.object k]) (m := [x]) hover₃
    have hpeek₂ : r₃.stack.peek 2 = .ok (.object k) :=
      Over.peek (l := []) (m := [.int32 i, x]) hover₃
    let values' := values.setIfInBounds i.toInt.toNat (x.value (some p))
    let d' : Domain := { r.domain with heap := r.domain.heap.put id (.array t values') }
    obtain ⟨s', hpop, hover'⟩ := popMany_over (r := r₃.withDomain d') hover₃
      (by simp [notBlock_of_numeric hx])
    refine .bind_ok hpush (.bind_ok (push_over (r := r₁) hover hroom₂ _) ?_)
    refine .bind_ok (push_over (r := r₂) hover₂ hroom x) ?_
    change Succeeds (storeElement (fuel + 2)) r₃ _
    unfold storeElement
    refine .read hpeek (.bind_ok (arrayAt_ok hpeek₂ hentry hobject harray) ?_)
    refine .bind_ok (elementType_ok hobject helement) ?_
    refine .bind_ok (loadTop_number (l := [.object k, .int32 i]) hover₃ hx) ?_
    refine .bind_ok (carryValue_number hp hx) (.bind_ok (elementIndex_ok hi) ?_)
    refine .bind_ok (Running.onDomain_ok (setElement_ok hobject hsize _)) ?_
    refine .of_ok hpop ⟨.element hp harray helement ?_ (Heap.object_put_self _ _ hlt) hi ?_,
      hover'.top, hover'.low, hover'.size⟩
    · simpa [d', Heap.put, Heap.size] using hlt
    · exact Array.getElem?_setIfInBounds_self_of_lt hsize

/-- What an element gives back is narrowed already. -/
theorem succeeds_loadElement {id : ObjectId} {i : Int32}
    (h : Location.Holds r f p x (.element id i)) (hroom : r.stack.top + 1 < r.stack.low)
    (hfit : r.stack.low ≤ r.stack.slots.size) (hx : x.Of p) (hnum : x.isNumeric = true) :
    Succeeds (Location.load c (fuel + 2) f (.element id i)) r fun _ r' ↦
      Over r.stack [x.narrowed p] r'.stack := by
  cases h with
  | element hp harray helement hlt hobject hi hvalue =>
    have hroom₁ : r.stack.top + ([] : List Slot).length < r.stack.low := by
      rw [List.length_nil]
      omega
    obtain ⟨s₁, k, hpush, hover, hentry⟩ := pushObject_over id (.nil r.stack) hroom₁ hfit
    let r₁ := r.withStack s₁
    have hover₂ : Over r.stack [.object k, .int32 i] (r₁.stack.pushed (.int32 i)) :=
      hover.pushed hroom hfit _
    let r₂ := r₁.withStack (r₁.stack.pushed (.int32 i))
    have hpeek : r₂.stack.peek 1 = .ok (.object k) :=
      Over.peek (l := []) (m := [.int32 i]) hover₂
    obtain ⟨s', hpop, hover'⟩ := popMany_over (r := r₂) hover₂ (by simp)
    refine .bind_ok hpush (.bind_ok (push_over (r := r₁) hover hroom _) ?_)
    change Succeeds (loadElement (fuel + 2)) r₂ _
    unfold loadElement
    refine .read (Over.topSlot (l := [.object k]) hover₂) ?_
    refine .bind_ok (arrayAt_ok hpeek hentry hobject harray) ?_
    refine .bind_ok (elementType_ok hobject helement) (.bind_ok (elementIndex_ok hi) ?_)
    refine .bind_ok (Running.onDomain_ok (element?_ok hobject hvalue)) (.bind_ok hpop ?_)
    exact succeeds_pushNumber (r := r₂.withStack s') hover' hp hx hnum hroom₁ hfit

/-! ### Locations of all kinds -/

theorem succeeds_store {loc : Location} {y : Slot} (h : loc.Holds r f p y)
    (hroom : r.stack.top + 2 < r.stack.low) (hfit : r.stack.low ≤ r.stack.slots.size)
    (hx : x.isNumeric = true) :
    Succeeds (loc.store c (fuel + 2) f x) r fun _ r' ↦ Filled r r' f p x loc := by
  have hroom₁ : r.stack.top < r.stack.low := by omega
  cases loc with
  | local_ n =>
    cases h with
    | local_ hn hbelow _ =>
      refine (succeeds_storeVariable (fun r ↦ localAddr_of_lt (r := r) hn) hbelow hroom₁ hfit
        hx).imp ?_
      rintro _ r' ⟨hslot, htop, hlow, hsize⟩
      exact ⟨.local_ hn (htop ▸ hbelow) hslot, htop, hlow, hsize⟩
  | argument n =>
    cases h with
    | argument hn hbelow _ =>
      refine (succeeds_storeVariable (fun r ↦ argAddr_of_lt (r := r) hn) hbelow hroom₁ hfit
        hx).imp ?_
      rintro _ r' ⟨hslot, htop, hlow, hsize⟩
      exact ⟨.argument hn (htop ▸ hbelow) hslot, htop, hlow, hsize⟩
  | inline addr field => exact succeeds_storeInline h (by omega) hfit hx
  | object id field => exact succeeds_storeObject h (by omega) hfit hx
  | element id i => exact succeeds_storeElement h hroom hfit hx
  | static field => exact succeeds_storeStatic h hroom₁ hfit hx

theorem succeeds_load {loc : Location} (h : loc.Holds r f p x)
    (hroom : r.stack.top + 1 < r.stack.low) (hfit : r.stack.low ≤ r.stack.slots.size) (hx : x.Of p)
    (hnum : x.isNumeric = true) :
    Succeeds (loc.load c (fuel + 2) f) r fun _ r' ↦ Over r.stack [loc.shown p x] r'.stack := by
  have hroom₁ : r.stack.top < r.stack.low := by omega
  cases loc with
  | local_ n =>
    cases h with
    | local_ hn _ hslot =>
      exact succeeds_loadVariable (fun r ↦ localAddr_of_lt (r := r) hn) hslot hroom₁ hfit hnum
  | argument n =>
    cases h with
    | argument hn _ hslot =>
      exact succeeds_loadVariable (fun r ↦ argAddr_of_lt (r := r) hn) hslot hroom₁ hfit hnum
  | inline addr field => exact succeeds_loadInline h hroom₁ hfit hnum
  | object id field => exact succeeds_loadObject h hroom₁ hfit hx hnum
  | element id i => exact succeeds_loadElement h hroom hfit hx hnum
  | static field => exact succeeds_loadStatic h hroom₁ hfit hx hnum

/-! ### Structs that are boxed and unboxed -/

section Boxes

variable {d : Domain} {z : Nat} {st : Storage} {i : Content}

/-- A struct that has been in a box shows the numbers that it showed before. -/
theorem eventually_rebox (hlaid : d.Laid [t] (.block t i .nil))
    (hreadable : (Content.block t i .nil).Readable d) (hknown : i.All (Value.Known d)) :
    ∀ᶠ fuel in Filter.atTop, ∀ r : Running, r.domain = d → r.Struct t z st i →
      r.stack.low ≤ r.stack.slots.size → r.stack.top + (1 + i.length + i.nested) ≤ r.stack.low →
      Succeeds (snapshot fuel z >>= fun w ↦ materialize fuel w t) r fun b r' ↦ ∃ st' i',
        FreshBlock r r' t b st' i' ∧
          d.Shows (fun _ _ ↦ True) [t] (.block t i .nil) (.block t i' .nil) := by
  filter_upwards [eventually_materialize hlaid, Filter.eventually_gt_atTop (2 * i.depth + 1)]
    with fuel hmaterialize hdepth r hr hstruct hfit hroom
  subst hr
  refine (succeeds_snapshot (n := 0) hstruct.typed (.refl _) hreadable (Nat.zero_le _)
    hstruct.header
    hstruct.stored hstruct.lives hdepth).bind fun w r₁ ⟨c, h⟩ ↦ ?_
  obtain ⟨i₁, rfl⟩ := h.shows.exists_block
  have hform : i₁.form = i.form := by
    injection h.shows.form_eq
  have hgrown := h.allocates.grown
  have hknown₁ : (Content.block t i₁ .nil).All (Value.Known r₁.domain) :=
    h.shows.all (P := Value.Known r.domain) ⟨hknown, trivial⟩ fun _ _ hv hclone ↦
    hclone.known hgrown hv
  refine (hmaterialize r₁ 0 w i₁ hgrown h.boxed hform hknown₁.1 (by rwa [h.stack])
    (by rwa [h.stack])).imp fun b r' ⟨st', i', hfresh, _, hmaps⟩ ↦ ?_
  exact ⟨st', i', hfresh.after h.stack hgrown, h.shows.maps (.block hmaps .nil)⟩

end Boxes

/-- A number that is stored to a location of its type and loaded again is what the location
shows. -/
theorem succeeds_store_load {loc : Location} {y : Slot} (h : loc.Holds r f p y) (hx : x.Of p)
    (hnum : x.isNumeric = true) (hfit : r.stack.low ≤ r.stack.slots.size)
    (hroom : r.stack.top + 2 < r.stack.low) :
    Succeeds (loc.store c (fuel + 2) f x >>= fun _ ↦ loc.load c (fuel + 2) f) r fun _ r' ↦
      r'.stack.top = r.stack.top + 1 ∧ r'.stack.topSlot = .ok (loc.shown p x) := by
  refine (succeeds_store h hroom hfit hnum).bind fun _ r₁ ⟨hholds, htop, hlow, hsize⟩ ↦ ?_
  have hroom₁ : r₁.stack.top + 1 < r₁.stack.low := by omega
  refine (succeeds_load hholds hroom₁ (by omega) hx hnum).imp fun _ r' hover ↦ ?_
  exact ⟨htop ▸ hover.top, Over.topSlot (l := []) hover⟩

/-- What the places of one primitive type have in common. A number that is stored to one and loaded
again is what the location shows: locals and arguments keep all of it, and every other location cuts
it down to the type. And a struct that is boxed and written to a block again shows the same
numbers. -/
theorem location_shows (c : Callees) (p : Primitive) :
    (∀ (fuel : Nat) (r : Running) (f : Frame) (x y : Slot) (loc : Location),
      loc.Holds r f p y → x.Of p → x.isNumeric = true →
      r.stack.low ≤ r.stack.slots.size → r.stack.top + 2 < r.stack.low →
      Succeeds (loc.store c (fuel + 2) f x >>= fun _ ↦ loc.load c (fuel + 2) f) r fun _ r' ↦
        r'.stack.top = r.stack.top + 1 ∧ r'.stack.topSlot = .ok (loc.shown p x)) ∧
    ∀ (d : Domain) (t : TypeId) (z : Nat) (st : Storage) (i : Content),
      d.Laid [t] (.block t i .nil) → (Content.block t i .nil).Readable d → i.All (Value.Known d) →
      ∀ᶠ fuel in Filter.atTop, ∀ r : Running, r.domain = d → r.Struct t z st i →
        r.stack.low ≤ r.stack.slots.size → r.stack.top + (1 + i.length + i.nested) ≤ r.stack.low →
        Succeeds (snapshot fuel z >>= fun w ↦ materialize fuel w t) r fun b r' ↦ ∃ st' i',
          FreshBlock r r' t b st' i' ∧
            d.Shows (fun _ _ ↦ True) [t] (.block t i .nil) (.block t i' .nil) :=
  ⟨fun _ _ _ _ _ _ h hx hnum hfit hroom ↦ succeeds_store_load h hx hnum hfit hroom,
    fun _ _ _ _ _ hlaid hreadable hknown ↦ eventually_rebox hlaid hreadable hknown⟩

end Engine

/-! ### A byte -/

/-- A frame with one local. -/
def Frame.ofLocal : Frame := ⟨⟨0⟩, default, default, ⟨0⟩, 0, 0, 0, 1, 1, [], []⟩

/-- A byte in a local and a byte in an object. -/
def Running.bytes : Running where
  domain := { Domain.boxes with
    registry := { Domain.boxes.registry with
      types := Domain.boxes.registry.types.push
        ⟨"Byte", .native (CoreLibrary.primitiveType .byte), [], none⟩ }
    heap := ⟨#[.instance_ ⟨4⟩ #[.int32 0] false]⟩ }
  interpreter := { Interpreter.fresh 0 8 with stack := (Stack.empty 8).pushed (.int32 0) }

/-- A pair on a stack with room for another one. -/
def Running.pair : Running :=
  Running.pairs.withStack { Running.pairs.stack with low := 9 }

namespace Location

def byteField : Location := .object ⟨0⟩ ⟨⟨4⟩, "", 0, false, ⟨6⟩, none⟩

theorem holds_local : (local_ 0).Holds Running.bytes .ofLocal .byte (.int32 0) :=
  .local_ (by decide) (by decide) rfl

theorem holds_byteField : byteField.Holds Running.bytes .ofLocal .byte (.int32 0) :=
  .object rfl rfl rfl (by decide) rfl rfl

end Location

namespace Engine

/-- Without host code and calls. -/
def silent : Callees := ⟨fun _ _ ↦ pure none, fun _ ↦ throw .outOfFuel⟩

/-- For a field of type `System.Byte`, with 300 stored to it. -/
theorem location_shows_byte :
    (∀ fuel, Succeeds (Location.byteField.store silent (fuel + 2) .ofLocal (.int32 300) >>= fun _ ↦
      Location.byteField.load silent (fuel + 2) .ofLocal) Running.bytes
      fun _ r' ↦ r'.stack.top = 2 ∧ r'.stack.topSlot = .ok (.int32 44)) ∧
    ∃ fuel, Succeeds (snapshot fuel 15 >>= fun w ↦ materialize fuel w ⟨3⟩) Running.pair
      fun b _ ↦ b = 8 := by
  have hplain (t : TypeId) (b : StructBinder) : Domain.pairs.style? t ≠ some (.bound b) := by
    intro h
    cases (Domain.binder_of_style? h).symm.trans Std.HashMap.getElem?_empty
  have hknown (v : Value) (h : v.object?.all fun id ↦ id.index < 2) : v.Known Domain.pairs := by
    rintro ⟨id⟩ rfl
    have hid : id < 2 := of_decide_eq_true h
    interval_cases id <;> decide
  obtain ⟨hheader, hcells, htyped, hdistinct, hapart, hlives⟩ := Running.struct_pairs.1
  have hstruct : Running.pair.Struct ⟨3⟩ 15 _ _ :=
    ⟨hheader, hcells.congr (fun _ _ ↦ rfl) fun _ _ ↦ rfl, htyped, hdistinct, hapart, hlives⟩
  obtain ⟨hstored, hboxed⟩ := location_shows silent .byte
  have hbyte (fuel : Nat) := hstored fuel Running.bytes .ofLocal (.int32 300) _ _
    Location.holds_byteField (.int32 rfl 300) rfl (by decide) (by decide)
  have hpair := hboxed Domain.pairs ⟨3⟩ 15
    (Storage.entry 0 (.entry 1 (.block 10 Storage.nil.plain .nil))).plain _
    (htyped.laid fun t b h ↦ absurd h (hplain t b))
    ⟨fun b h ↦ absurd h (hplain _ b), ⟨fun b h ↦ absurd h (hplain _ b), trivial, trivial⟩, trivial⟩
    ⟨hknown _ rfl, hknown _ rfl, ⟨hknown _ rfl, trivial⟩, trivial⟩
  obtain ⟨fuel, hfuel⟩ := hpair.exists
  refine ⟨hbyte, fuel, (hfuel Running.pair rfl hstruct (by decide) (by decide)).imp ?_⟩
  rintro b _ ⟨_, _, hfresh, _⟩
  exact Nat.succ.inj hfresh.here

/-- The local keeps what does not fit into a byte, and the field of the object does not. -/
theorem location_shows_local :
    Location.Holds Running.bytes .ofLocal .byte (.int32 0) (.local_ 0) ∧
    Location.Holds Running.bytes .ofLocal .byte (.int32 0) .byteField ∧
    (∃ r', ((Location.local_ 0).store silent 2 .ofLocal (.int32 300) >>= fun _ ↦
      (Location.local_ 0).load silent 2 .ofLocal) Running.bytes = .ok () r' ∧
        r'.stack.topSlot = .ok (.int32 300)) ∧
    ∃ r', (Location.byteField.store silent 2 .ofLocal (.int32 300) >>= fun _ ↦
      Location.byteField.load silent 2 .ofLocal) Running.bytes = .ok () r' ∧
        r'.stack.topSlot = .ok (.int32 44) :=
  ⟨Location.holds_local, Location.holds_byteField, ⟨_, rfl, rfl⟩, ⟨_, rfl, rfl⟩⟩

end Engine

end ManagedMachine
