import ManagedMachine.Proofs.BlockAllocation

/-!
# Boxes

A struct on the stack and its box on the heap meet at what they hold. `Domain.Boxed` says that
values are the boxed form of the content of a block: numbers are cut down to their type, inner
structs are boxes of their own, and a bound struct is the data that its binder reads from the slots.
Writing a box to a block leaves that content there, and taking a box of a block gives new boxes that
read as the block does.

What is boxed, and what comes back, is the content of the block, so the two directions need not be
compared slot by slot. A number that was cut down once is not changed by cutting it down again,
which is why boxing and writing back are inverse to each other on what has been stored before. Both
directions are shown for one kind of field after the other, and along the fields of a struct.
-/

set_option autoImplicit false
set_option relaxedAutoImplicit false

namespace ManagedMachine

open Engine

/-! ### Numbers in and out of slots -/

theorem Primitive.narrow_narrow (p : Primitive) (v : Int32) :
    p.narrow (p.narrow v) = p.narrow v := by
  cases p with
  | boolean =>
    simp only [narrow]
    split <;> simp_all
  | sbyte => simp [narrow]
  | int16 => simp [narrow]
  | byte => simp [narrow, Int32.and_assoc]
  | uint16 => simp [narrow, Int32.and_assoc]
  | char => simp [narrow, Int32.and_assoc]
  | _ => rfl

namespace Slot

/-- The slot cut down to the width of a primitive. -/
def narrowed (p : Primitive) : Slot → Slot
  | int32 v => int32 (p.narrow v)
  | x => x

/-- What locations of the primitive hold. -/
inductive Of (p : Primitive) : Slot → Prop
  | int32 (h : p.slotKind = .int32) (v : Int32) : Of p (.int32 v)
  | int64 (h : p.slotKind = .int64) (v : Int64) : Of p (.int64 v)
  | single (h : p.slotKind = .single) (v : Float32) : Of p (.single v)
  | double (h : p.slotKind = .double) (v : Float) : Of p (.double v)
  | null (h : p.slotKind = .void) : Of p .null

variable {x : Slot} {p : Primitive}

theorem of_kind (hx : x.kind = (zero p).kind) : Of p x := by
  unfold zero at hx
  cases h : p.slotKind <;> simp only [h] at hx <;> cases x <;> simp [kind] at hx
  · exact .int32 h _
  · exact .int64 h _
  · exact .single h _
  · exact .double h _
  · exact .null h

theorem Of.kind_eq (h : Of p x) : x.kind = (zero p).kind := by
  cases h with
  | int32 h => rw [zero, h]; rfl
  | int64 h => rw [zero, h]; rfl
  | single h => rw [zero, h]; rfl
  | double h => rw [zero, h]; rfl
  | null h => rw [zero, h]

theorem Of.bare (h : Of p x) : x.Bare := by
  cases h with
  | null => exact .inl rfl
  | _ => exact .inr rfl

theorem narrowed_narrowed (p : Primitive) (x : Slot) :
    (x.narrowed p).narrowed p = x.narrowed p := by
  cases x with
  | int32 v => exact congrArg int32 (p.narrow_narrow v)
  | _ => rfl

theorem Of.narrowed (h : Of p x) : Of p (x.narrowed p) := by
  cases h with
  | int32 h v => exact .int32 h _
  | int64 h v => exact .int64 h v
  | single h v => exact .single h v
  | double h v => exact .double h v
  | null h => exact .null h

/-- A number that is written to a location of its type is cut down to the type. -/
theorem Of.slotFor_value (h : Of p x) : (x.value (some p)).slotFor p = .ok (x.narrowed p) := by
  cases h with
  | int32 h v =>
    cases p with
    | boolean =>
      simp only [Value.slotFor, h, value, Slot.narrowed, Primitive.narrow, Value.toInt32,
        Except.map]
      by_cases hv : v = 0 <;> simp [hv]
    | int64 => cases h
    | uint64 => cases h
    | single => cases h
    | double => cases h
    | void => cases h
    | _ =>
      simp only [Value.slotFor, h, value, Slot.narrowed, Value.toInt32, Except.map,
        Primitive.narrow_narrow]
  | int64 h v => cases p <;> cases h <;> rfl
  | single h v =>
    cases p <;> cases h
    rfl
  | double h v =>
    cases p <;> cases h
    rfl
  | null h => simp only [Value.slotFor, h, Slot.narrowed]

theorem Of.value_narrowed (h : Of p x) : (x.narrowed p).value (some p) = x.value (some p) := by
  cases h with
  | int32 h v =>
    cases p with
    | boolean =>
      simp only [value, Slot.narrowed, Primitive.narrow]
      by_cases hv : v = 0 <;> simp [hv]
    | int64 => cases h
    | uint64 => cases h
    | single => cases h
    | double => cases h
    | void => cases h
    | _ => simp only [value, Slot.narrowed, Primitive.narrow_narrow]
  | _ => rfl

end Slot

/-! ### Boxes of blocks -/

namespace Domain

/-- The values, at locations of the types, are the boxed form of the content. The boxes are objects
from number `n` on. -/
inductive Boxed (d : Domain) (n : Nat) : List TypeId → List Value → Content → Prop
  | nil : Boxed d n [] [] .nil
  | number {t : TypeId} {p : Primitive} {x : Slot} {ts : List TypeId} {vs : List Value}
    {c : Content} (hp : (d.registry.type t).primitive? = some p) (hx : x.Of p)
    (hnarrow : x.narrowed p = x) (h : Boxed d n ts vs c) :
    Boxed d n (t :: ts) (x.value (some p) :: vs) (.number x c)
  | value {t : TypeId} {v : Value} {ts : List TypeId} {vs : List Value} {c : Content}
    (ht : t.index < d.registry.types.size) (hp : (d.registry.type t).primitive? = none)
    (hs : d.style? t = none) (h : Boxed d n ts vs c) : Boxed d n (t :: ts) (v :: vs) (.value v c)
  | bound {t : TypeId} {b : StructBinder} {id : ObjectId} {data : HostData} {slots : List Slot}
    {ts : List TypeId} {vs : List Value} {c : Content} (hs : d.style? t = some (.bound b))
    (hid : n ≤ id.index) (hlt : id.index < d.heap.size)
    (hobject : d.heap.object id = .native t data) (hwrite : b.write data = .ok slots)
    (hread : b.read slots = .ok data) (h : Boxed d n ts vs c) :
    Boxed d n (t :: ts) (.object id :: vs) (.block t (.ofSlots slots) c)
  | struct {t : TypeId} {l : FieldLayout} {id : ObjectId} {fields : Array Value} {adapted : Bool}
    {i : Content} {ts : List TypeId} {vs : List Value} {c : Content}
    (hs : d.style? t = some .fields) (hl : d.registry.Lays t l) (hid : n ≤ id.index)
    (hlt : id.index < d.heap.size) (hobject : d.heap.object id = .instance_ t fields adapted)
    (hi : Boxed d n (l.instance_.map Field.type) fields.toList i) (h : Boxed d n ts vs c) :
    Boxed d n (t :: ts) (.object id :: vs) (.block t i c)

variable {d d' : Domain} {n : Nat} {ts : List TypeId} {vs : List Value} {c : Content}

/-- Boxes stay what they are while the domain grows. -/
theorem Boxed.grown (h : d.Boxed n ts vs c) (hd : d.Grown d') : d'.Boxed n ts vs c := by
  have hstyle {t : TypeId} {s : Style} (hs : d.style? t = some s) : d'.style? t = some s :=
    (hd.style? (lt_size_of_style? hs)).trans hs
  induction h with
  | nil => exact .nil
  | number hp hx hnarrow _ ih =>
    exact .number (hd.registry.type_eq (lt_size_of_primitive hp) ▸ hp) hx hnarrow ih
  | value ht hp hs _ ih =>
    exact .value (ht.trans_le hd.size_le) (hd.registry.type_eq ht ▸ hp) ((hd.style? ht).trans hs) ih
  | bound hs hid hlt hobject hwrite hread _ ih =>
    exact .bound (hstyle hs) hid (hlt.trans_le hd.size) ((hd.object _ hlt).trans hobject) hwrite
      hread ih
  | struct hs hl hid hlt hobject _ _ ihi ih =>
    exact .struct (hstyle hs) (hl.extends hd.registry) hid (hlt.trans_le hd.size)
      ((hd.object _ hlt).trans hobject) ihi ih

/-- What a box holds is content for a block of its type. -/
theorem Boxed.typed {cd : Content} (h : d.Boxed n ts vs c) (h' : d.Typed ts cd) : d.Typed ts c := by
  induction h generalizing cd with
  | nil => exact .nil
  | number hp hx _ _ ih =>
    cases h' with
    | number _ _ h' => exact .number hp hx.kind_eq (ih h')
    | value _ hnone => cases hp.symm.trans hnone
    | bound hs => cases (style?_of_primitive hp).symm.trans hs
    | struct hs => cases (style?_of_primitive hp).symm.trans hs
  | value ht hp hs _ ih =>
    cases h' with
    | number hsome => cases hsome.symm.trans hp
    | value _ _ _ h' => exact .value ht hp hs (ih h')
    | bound hs' => cases hs.symm.trans hs'
    | struct hs' => cases hs.symm.trans hs'
  | @bound _ b _ _ slots _ _ _ hs _ _ _ hwrite _ _ ih =>
    cases h' with
    | number hp => cases (style?_of_primitive hp).symm.trans hs
    | value _ _ hs' => cases hs.symm.trans hs'
    | bound _ _ _ h' =>
      have hlength := (Content.length_ofSlots slots).trans (b.length_write hwrite)
      exact .bound hs (Content.numeric_ofSlots slots) hlength (ih h')
    | struct hs' => cases hs.symm.trans hs'
  | struct hs hl _ _ _ _ _ ihi ih =>
    cases h' with
    | number hp => cases (style?_of_primitive hp).symm.trans hs
    | value _ _ hs' => cases hs.symm.trans hs'
    | bound hs' => cases hs.symm.trans hs'
    | struct _ hl' hi' h' =>
      obtain rfl := hl.unique (.of_known hl')
      exact .struct hs hl' (ihi hi') (ih h')

end Domain

/-! ### What writing values gives -/

namespace Domain

/-- Writing the value to a block of the bound type puts the slots there. -/
inductive Binds (d : Domain) (b : StructBinder) (t : TypeId) : Value → List Slot → Prop
  | data {id : ObjectId} {data : HostData} {slots : List Slot} (hlt : id.index < d.heap.size)
    (hobject : d.heap.object id = .native t data) (hwrite : b.write data = .ok slots) :
    Binds d b t (.object id) slots
  | null {slots : List Slot} (h : d.Resets b t slots) : Binds d b t .null slots

/-- Writing the values to locations of the types puts the content there. -/
inductive Writes (d : Domain) : List TypeId → List Value → Content → Prop
  | nil : Writes d [] [] .nil
  | number {t : TypeId} {p : Primitive} {v : Value} {x : Slot} {ts : List TypeId} {vs : List Value}
    {c : Content} (hp : (d.registry.type t).primitive? = some p) (hslot : v.slotFor p = .ok x)
    (hx : x.Bare) (h : Writes d ts vs c) : Writes d (t :: ts) (v :: vs) (.number x c)
  | value {t : TypeId} {v : Value} {ts : List TypeId} {vs : List Value} {c : Content}
    (ht : t.index < d.registry.types.size) (hp : (d.registry.type t).primitive? = none)
    (hs : d.style? t = none) (h : Writes d ts vs c) : Writes d (t :: ts) (v :: vs) (.value v c)
  | bound {t : TypeId} {b : StructBinder} {v : Value} {slots : List Slot} {ts : List TypeId}
    {vs : List Value} {c : Content} (hs : d.style? t = some (.bound b)) (hv : d.Binds b t v slots)
    (h : Writes d ts vs c) : Writes d (t :: ts) (v :: vs) (.block t (.ofSlots slots) c)
  | struct {t : TypeId} {l : FieldLayout} {id : ObjectId} {fields : Array Value} {adapted : Bool}
    {i : Content} {ts : List TypeId} {vs : List Value} {c : Content}
    (hs : d.style? t = some .fields) (hl : d.registry.Lays t l) (hlt : id.index < d.heap.size)
    (hobject : d.heap.object id = .instance_ t fields adapted)
    (hi : Writes d (l.instance_.map Field.type) fields.toList i) (h : Writes d ts vs c) :
    Writes d (t :: ts) (.object id :: vs) (.block t i c)

variable {d d' : Domain} {n : Nat} {ts : List TypeId} {vs : List Value} {c : Content}

theorem Boxed.writes (h : d.Boxed n ts vs c) : d.Writes ts vs c := by
  induction h with
  | nil => exact .nil
  | number hp hx hnarrow _ ih => exact .number hp (by rw [hx.slotFor_value, hnarrow]) hx.bare ih
  | value ht hp hs _ ih => exact .value ht hp hs ih
  | bound hs _ hlt hobject hwrite _ _ ih => exact .bound hs (.data hlt hobject hwrite) ih
  | struct hs hl _ hlt hobject _ _ ihi ih => exact .struct hs hl hlt hobject ihi ih

/-- Slots that a binder writes for a value, or reads it from, do not depend on what else there is.
-/
theorem Binds.grown {b : StructBinder} {t : TypeId} {v : Value} {slots : List Slot}
    (h : d.Binds b t v slots) (hd : d.Grown d') (ht : t.index < d.registry.types.size) :
    d'.Binds b t v slots := by
  cases h with
  | data hlt hobject hwrite =>
    exact .data (hlt.trans_le hd.size) ((hd.object _ hlt).trans hobject) hwrite
  | null h =>
    refine .null ?_
    rwa [Resets, hd.registry.type_eq ht]

theorem Binds.length_eq {b : StructBinder} {t : TypeId} {v : Value} {slots : List Slot}
    (h : d.Binds b t v slots) : slots.length = b.fields.length := by
  cases h with
  | data _ _ hwrite => exact b.length_write hwrite
  | null h =>
    rcases h with ⟨data, -, hwrite⟩ | ⟨-, rfl⟩
    · exact b.length_write hwrite
    · exact List.length_map ..

end Domain

/-! ### Writing boxes -/

namespace Storage

/-- No field is below the first slot. -/
theorem le_of_nodup_plains {a n : Nat} (h : ((plains n).slots a).Nodup) : n ≤ a + 1 := by
  induction n generalizing a with
  | zero => exact Nat.zero_le _
  | succ n ih =>
    obtain ⟨ha, hrest⟩ := List.nodup_cons.mp h
    cases n with
    | zero => exact Nat.succ_le_succ (Nat.zero_le _)
    | succ n =>
      have hle := ih hrest
      have hne : a ≠ 0 := by
        rintro rfl
        exact ha List.mem_cons_self
      omega

end Storage

theorem Content.Numeric.stored {s : Stack} {a : Nat} {st : Storage} {c : Content} (h : c.Numeric)
    (hst : s.Stored a st c) : st = .plains c.length := by
  induction hst with
  | nil => rfl
  | number _ _ _ ih => exact congrArg Storage.plain (ih h)
  | _ => cases h

theorem Content.Numeric.maps {R : Value → Value → Prop} {c : Content} (h : c.Numeric) :
    c.Maps R c := by
  induction c with
  | nil => exact .nil
  | number _ _ ih => exact .number (ih h)
  | _ => cases h

namespace Engine

open Stack

variable {r : Running} {fuel a n : Nat} {t : TypeId} {box : Nat → Value → RunM Unit} {v : Value}
  {y : Slot} {own : Option Nat}

theorem typeAt_of_lt (ht : t.index < r.domain.registry.types.size) : typeAt t r = .ok t r := by
  have hlookup : r.domain.registry.typeAt t.index = .ok t := if_pos ht
  have hlift : Domain.inRegistry (Registry.lift fun r ↦ r.typeAt t.index) r.domain =
      .ok t r.domain := by simp only [Domain.inRegistry, Registry.lift, hlookup]
  exact Running.onDomain_ok hlift

theorem checkBox_ok {id : ObjectId} (h : r.domain.heap.type id = t) :
    checkBox t id r = .ok () r := by
  have hask : (Running.onDomain (Domain.ask fun d ↦ d) : RunM Domain) r = .ok r.domain r := rfl
  unfold checkBox
  refine (bind_of_ok hask).trans ?_
  rw [if_neg (by simp [h])]
  rfl

theorem writeLocation_block {d : Nat} (h : r.stack.slots[a]? = some (.block d)) :
    writeLocation box fuel a v t r = box d v r := by
  unfold writeLocation
  exact (bind_of_ok (by rw [read, slotAt_of_some h])).trans rfl

theorem writeLocation_leaf (h : Stored.Leaf r.stack a y own) :
    writeLocation box fuel a v t r = (match (r.domain.registry.type t).primitive? with
      | some p => ofExcept (v.slotFor p) >>= fun x ↦ Running.onStack (Stack.setSlot a x)
      | none => Running.onDomain (sharedOrCopied fuel v) >>= fun v ↦
          Running.onStack (storeObject a y v) : RunM Unit) r := by
  unfold writeLocation
  refine (bind_of_ok (by rw [read, slotAt_of_some h.slot])).trans ?_
  cases y with
  | block d => exact absurd rfl (h.notBlock d)
  | _ => exact bind_of_ok (descriptor_ok t r)

theorem succeeds_writeNumber {p : Primitive} {x : Slot}
    (hp : (r.domain.registry.type t).primitive? = some p) (hv : v.slotFor p = .ok x) (hx : x.Bare)
    (h : Stored.Leaf r.stack a y none) :
    Succeeds (writeLocation box fuel a v t) r fun _ r' ↦
      Copied r r' a (.plain .nil) (.plain .nil) (.number x .nil) (.number x .nil) := by
  have ha := (Array.getElem?_eq_some_iff.mp h.slot).1
  refine .congr (writeLocation_leaf h) ?_
  simp only [hp]
  refine .bind_ok (a := x) (t := r) (by rw [hv]; rfl) ?_
  exact .of_ok (Running.onStack_ok (setSlot_of_lt ha))
    (.number hx (Array.getElem?_setIfInBounds_self_of_lt ha) (.setSlot _ x _) rfl rfl)

theorem succeeds_writeValue (hp : (r.domain.registry.type t).primitive? = none)
    (h : Stored.Leaf r.stack a y own) :
    Succeeds (writeLocation box (fuel + 1) a v t) r fun _ r' ↦ ∃ v' own',
      Copied r r' a (.field own .nil) (.field own' .nil) (.value v .nil) (.value v' .nil) := by
  refine .congr (writeLocation_leaf h) ?_
  simp only [hp]
  obtain ⟨v', d', hv, hallocates, hclone⟩ := Domain.succeeds_sharedOrCopied (d := r.domain) fuel v
  obtain ⟨s', own', hok, hkeeps, hwithin, hown, hkept⟩ := storeObject_ok h v'
  refine .bind_ok (Running.onDomain_ok hv) (.of_ok (Running.onStack_ok hok) ⟨v', own', ?_⟩)
  exact .value hkeeps hclone hallocates hwithin hown hkept

/-- A bound struct is written to its block by the binder, all slots at once. -/
theorem succeeds_writeBound {b : StructBinder} {slots : List Slot}
    {z : Nat} {inner : Storage} {i : Content} (hs : r.domain.style? t = some (.bound b))
    (hv : r.domain.Binds b t v slots) (hheader : r.stack.slots[z]? = some (.header t inner.length))
    (htarget : r.stack.Stored (z - 1) inner i) (hi : i.Numeric)
    (hlength : i.length = b.fields.length) (hdistinct : inner.Distinct (z - 1))
    (hz : z ∉ inner.slots (z - 1)) :
    Succeeds (writeBoxed (fuel + 1) z v) r fun _ r' ↦ ∃ st',
      Copied r r' (z - 1) inner st' (.ofSlots slots) (.ofSlots slots) := by
  have hsize := (Array.getElem?_eq_some_iff.mp hheader).1
  have hcount := hv.length_eq
  have hinner : inner = .plains slots.length := by rw [hi.stored htarget, hlength, hcount]
  subst hinner
  have hroom : slots.length ≤ z := by
    have hle := Storage.le_of_nodup_plains hdistinct.slots
    rcases Nat.eq_zero_or_pos z with rfl | hpos
    · have hout := mt (Storage.mem_slots_plains hle).mpr hz
      omega
    · omega
  have hcopied {r' : Running} (hdomain : r'.domain = r.domain)
      (hmanaged : r'.stack.managed = r.stack.managed)
      (hstored : r'.stack.Stored (z - 1) (.plains slots.length) (.ofSlots slots))
      (hwithin : r.stack.Within {x | x ∈ (Storage.plains slots.length).slots (z - 1)} ∅ r'.stack) :
      Copied r r' (z - 1) (.plains slots.length) (.plains slots.length) (.ofSlots slots)
        (.ofSlots slots) :=
    { stored := hstored
      maps := (Content.numeric_ofSlots slots).maps
      length := rfl
      slots := rfl
      entries := by simp [Storage.entries_plains]
      nodup := by simp [Storage.entries_plains]
      within := hwithin.mono (subset_refl _) (Set.empty_subset _)
      allocates := hdomain ▸ .refl _
      kept := fun _ ↦ ⟨rfl, congrArg Array.size hmanaged⟩ }
  have hkind : inlineKind fuel t r = .ok (some (.bound b)) r := by rw [inlineKind_eq, hs]
  unfold writeBoxed
  refine .read (header_of_some hheader) (.bind_ok (typeAt_of_lt (Domain.lt_size_of_style? hs)) ?_)
  refine .bind_ok hkind ?_
  cases hv with
  | @data id data _ hlt hobject hwrite =>
    have hask : (Running.onDomain (Domain.ask fun d ↦ d) : RunM Domain) r = .ok r.domain r := rfl
    have hslots : boundSlots b t id r = .ok slots r := by
      have hdata : r.domain.heap.data? id = some data := by rw [Heap.data?, hobject]; rfl
      unfold boundSlots
      refine (bind_of_ok hask).trans ?_
      simp only [hdata, hwrite]
      rfl
    have htype : r.domain.heap.type id = t := by rw [Heap.type, hobject]; rfl
    refine .bind_ok (checkBox_ok htype) (.bind_ok hslots ?_)
    refine (succeeds_writeFields (b.primitive_write hwrite) hsize hroom).imp ?_
    rintro _ r' ⟨hdomain, hmanaged, hstored, hwithin⟩
    exact ⟨_, hcopied hdomain hmanaged hstored hwithin⟩
  | null hresets =>
    have hdefault : ∀ data, (r.domain.registry.type t).native?.bind HostType.default = some data →
        ∃ slots, b.write data = .ok slots := by
      intro data hdata
      rcases hresets with ⟨data', hdata', hwrite⟩ | ⟨hnone, -⟩
      · exact ⟨slots, Option.some.inj (hdata'.symm.trans hdata) ▸ hwrite⟩
      · cases hnone.symm.trans hdata
    refine (succeeds_resetBound hsize (hcount ▸ hroom) hdefault).imp ?_
    rintro _ r' ⟨slots', _, hresets', hdomain, hmanaged, hstored, hwithin⟩
    refine ⟨.plains slots.length, ?_⟩
    obtain rfl := hresets'.unique hresets
    rw [← hcount] at hstored hwithin
    exact hcopied hdomain hmanaged hstored hwithin

/-- The fields of a struct are written one by one. -/
theorem writeStruct_eq {l : FieldLayout} {id : ObjectId} {fields : Array Value} {adapted : Bool}
    {z : Nat} (hs : r.domain.style? t = some .fields)
    (hl : r.domain.registry.facts.layouts[t]? = some l)
    (hobject : r.domain.heap.object id = .instance_ t fields adapted)
    (hheader : r.stack.slots[z]? = some (.header t l.instance_.length)) :
    writeBoxed (fuel + 2) z (.object id) r = (l.instance_.zipIdx.forM fun p ↦
      writeLocation (writeBoxed (fuel + 1)) (fuel + 1) (z - 1 - p.2) (fields.getD p.2 .null)
        p.1.type) r := by
  have htype : r.domain.heap.type id = t := by rw [Heap.type, hobject]; rfl
  have hfields : (Running.onDomain (Domain.instanceFields id) : RunM (Array Value)) r =
      .ok fields r := by
    have hinstance : Domain.instanceFields id r.domain = .ok fields r.domain := by
      have hask : Domain.ask (fun d ↦ d.heap.object id) r.domain =
          .ok (.instance_ t fields adapted) r.domain := by rw [Domain.ask, hobject]
      exact (bind_of_ok hask).trans rfl
    exact Running.onDomain_ok hinstance
  have hread : read (·.header z) r = .ok (t, l.instance_.length) r := by
    rw [read, header_of_some hheader]
  unfold writeBoxed
  refine (bind_of_ok hread).trans
    ((bind_of_ok (typeAt_of_lt (Domain.lt_size_of_style? hs))).trans ?_)
  refine (bind_of_ok (inlineKind_known hs hl)).trans ?_
  refine (bind_of_ok (checkBox_ok htype)).trans ((bind_of_ok hfields).trans ?_)
  rw [List.take_length]
  rfl

/-- The fields at `a` are of the types and can take the content. -/
structure Overwrites (r : Running) (ts : List TypeId) (c : Content) (a : Nat) (sd : Storage)
    (cd : Content) : Prop where
  target : r.stack.Stored a sd cd
  typed : r.domain.Typed ts cd
  distinct : sd.Distinct a
  lives : c.All (Value.Lives r.domain.heap)

/-- Once the first field is written, the others can be. -/
theorem Overwrites.next {r₁ : Running} {ts : List TypeId} {c cd f f' : Content}
    {first first' sd : Storage} (h : Copied r r₁ a first first' f f') (hlength : first.length = 1)
    (htarget : r.stack.Stored (a - 1) sd cd) (htyped : r.domain.Typed ts cd)
    (hdistinct : (first ++ sd).Distinct a) (hlives : c.All (Value.Lives r.domain.heap)) :
    Overwrites r₁ ts c (a - 1) sd cd where
  target := h.rest hlength htarget hdistinct
  typed := htyped.extends h.allocates.extends
  distinct := hlength ▸ hdistinct.right
  lives := hlives.imp fun _ hv id hid ↦ (hv id hid).trans_le h.allocates.size

theorem getD_of_drop {values : Array Value} {vs : List Value} {k : Nat}
    (h : values.toList.drop k = v :: vs) :
    values.getD k .null = v ∧ values.toList.drop (k + 1) = vs := by
  have hk : k < values.toList.length := by
    by_contra hout
    rw [List.drop_of_length_le (Nat.le_of_not_lt hout)] at h
    cases h
  rw [List.drop_eq_getElem_cons hk] at h
  injection h with hv hvs
  refine ⟨?_, hvs⟩
  rw [Array.getD_eq_getD_getElem?, ← Array.getElem?_toList, List.getElem?_eq_getElem hk, hv]
  rfl

/-- The value is written to one field wherever the field can take it. -/
def WritesField (d : Domain) (t : TypeId) (v : Value) (f : Content) (fuel : Nat) : Prop :=
  ∀ (r : Running) (a : Nat) (sd : Storage) (cd : Content), d.Grown r.domain →
    Overwrites r [t] f a sd cd →
    Succeeds (writeLocation (writeBoxed fuel) fuel a v t) r fun _ r' ↦ ∃ st' f',
      Copied r r' a sd st' f f'

/-- The values are written to fields one by one. -/
def WritesFields (d : Domain) (ts : List TypeId) (vs : List Value) (c : Content) (fuel : Nat) :
    Prop :=
  ∀ (r : Running) (fs : List Field) (values : Array Value) (b k : Nat) (sd : Storage)
    (cd : Content), d.Grown r.domain → fs.map Field.type = ts → values.toList.drop k = vs →
    Overwrites r ts c (b - 1 - k) sd cd →
    Succeeds ((fs.zipIdx k).forM fun p ↦ writeLocation (writeBoxed fuel) fuel (b - 1 - p.2)
      (values.getD p.2 .null) p.1.type) r fun _ r' ↦ ∃ st' c',
        Copied r r' (b - 1 - k) sd st' c c'

variable {d : Domain}

theorem writesField_number {p : Primitive} {x : Slot} (hp : (d.registry.type t).primitive? = some p)
    (hv : v.slotFor p = .ok x) (hx : x.Bare) : WritesField d t v (.number x .nil) fuel := by
  intro r a sd cd hd ⟨htarget, htyped, _, _⟩
  have hp' : (r.domain.registry.type t).primitive? = some p :=
    hd.registry.type_eq (Domain.lt_size_of_primitive hp) ▸ hp
  cases htyped with
  | value _ hnone => cases hp'.symm.trans hnone
  | bound ht => cases (Domain.style?_of_primitive hp').symm.trans ht
  | struct ht => cases (Domain.style?_of_primitive hp').symm.trans ht
  | number _ _ hrest =>
    cases hrest
    cases htarget with
    | number hslot hbare hrest =>
      cases hrest
      exact (succeeds_writeNumber hp' hv hx (.of_bare hslot hbare)).imp fun _ r' h ↦ ⟨_, _, h⟩

/-- A field of a reference type takes the value itself. -/
theorem writesField_value (ht : t.index < d.registry.types.size)
    (hp : (d.registry.type t).primitive? = none) (hs : d.style? t = none) (hfuel : 0 < fuel) :
    WritesField d t v (.value v .nil) fuel := by
  intro r a sd cd hd ⟨htarget, htyped, _, _⟩
  obtain ⟨fuel, rfl⟩ := Nat.exists_eq_succ_of_ne_zero hfuel.ne'
  have hp' : (r.domain.registry.type t).primitive? = none := hd.registry.type_eq ht ▸ hp
  have hs' : r.domain.style? t = none := (hd.style? ht).trans hs
  cases htyped with
  | number hsome => cases hp'.symm.trans hsome
  | bound ht => cases hs'.symm.trans ht
  | struct ht => cases hs'.symm.trans ht
  | value _ _ _ hrest =>
    cases hrest
    obtain ⟨own, sd, rfl, hkeeps, hrest⟩ := htarget.exists_keeps
    cases hrest
    obtain ⟨y, hleaf⟩ := hkeeps.leaf
    exact (succeeds_writeValue hp' hleaf).imp fun _ r' ⟨v', own', h⟩ ↦ ⟨_, _, h⟩

/-- A field of a bound struct type takes the slots that the binder writes for the data. -/
theorem writesField_bound {b : StructBinder} {slots : List Slot}
    (hs : d.style? t = some (.bound b)) (hv : d.Binds b t v slots) (hfuel : 0 < fuel) :
    WritesField d t v (.block t (.ofSlots slots) .nil) fuel := by
  intro r a sd cd hd ⟨htarget, htyped, hdistinct, _⟩
  obtain ⟨fuel, rfl⟩ := Nat.exists_eq_succ_of_ne_zero hfuel.ne'
  have ht := Domain.lt_size_of_style? hs
  have hs' : r.domain.style? t = some (.bound b) := (hd.style? ht).trans hs
  cases htyped with
  | number hsome => cases (Domain.style?_of_primitive hsome).symm.trans hs'
  | value _ _ hnone => cases hnone.symm.trans hs'
  | struct ht => cases ht.symm.trans hs'
  | bound ht' hi hlength hrest =>
    cases ht'.symm.trans hs'
    cases hrest
    cases htarget with
    | @block _ z _ inner _ _ _ hslot hheader hinner hrest =>
      cases hrest
      obtain ⟨hdistinct', hnotin, hz⟩ := hdistinct.inner
      refine .congr (writeLocation_block hslot) ((succeeds_writeBound hs' (hv.grown hd ht) hheader
        hinner hi hlength hdistinct' hz).imp fun _ r' ⟨st', h⟩ ↦ ?_)
      exact ⟨_, _, .block hslot hheader h hnotin hz⟩

/-- A field of an interpreted struct type takes the fields of the box, each in its own way. -/
theorem writesField_struct {l : FieldLayout} {id : ObjectId} {fields : Array Value} {adapted : Bool}
    {i : Content} (hs : d.style? t = some .fields) (hl : d.registry.Lays t l)
    (hlt : id.index < d.heap.size) (hobject : d.heap.object id = .instance_ t fields adapted)
    (hi : WritesFields d (l.instance_.map Field.type) fields.toList i (fuel + 1)) :
    WritesField d t (.object id) (.block t i .nil) (fuel + 2) := by
  intro r a sd cd hd ⟨htarget, htyped, hdistinct, hlives⟩
  have hs' : r.domain.style? t = some .fields := (hd.style? (Domain.lt_size_of_style? hs)).trans hs
  cases htyped with
  | number hsome => cases (Domain.style?_of_primitive hsome).symm.trans hs'
  | value _ _ hnone => cases hnone.symm.trans hs'
  | bound ht => cases ht.symm.trans hs'
  | @struct _ l' i' _ _ ht hl' hi' hrest =>
    obtain rfl : l' = l := (hl.extends hd.registry).unique (.of_known hl')
    cases hrest
    cases htarget with
    | @block _ z _ inner _ _ _ hslot hheader hinner hrest =>
      cases hrest
      obtain ⟨hdistinct', hnotin, hz⟩ := hdistinct.inner
      have hlength : inner.length = l'.instance_.length := by
        rw [hinner.length_eq, hi'.length_eq, List.length_map]
      refine .congr (writeLocation_block hslot) (.congr (writeStruct_eq hs' hl'
        ((hd.object _ hlt).trans hobject) (hlength ▸ hheader)) ?_)
      refine (hi r l'.instance_ fields z 0 inner i' hd rfl rfl
        ⟨hinner, hi', hdistinct', hlives.1⟩).imp fun _ r' ⟨st', i'', h⟩ ↦ ?_
      exact ⟨_, _, .block hslot hheader h hnotin hz⟩

theorem Content.all_append {P : Value → Prop} {c d : Content} :
    (c ++ d).All P ↔ c.All P ∧ d.All P := by
  induction c with
  | nil => exact (true_and _).to_iff.symm
  | number x c ih => exact ih
  | value v c ih => exact (and_congr_right' ih).trans and_assoc.symm
  | block t i c _ ih => exact (and_congr_right' ih).trans and_assoc.symm

/-- The first of some fields and the others. -/
theorem exists_first {s : Stack} {ts : List TypeId} {c : Content} {st : Storage}
    (h : d.Typed (t :: ts) c) (hst : s.Stored a st c) : ∃ first rest f c', st = first ++ rest ∧
      c = f ++ c' ∧ first.length = 1 ∧ s.Stored a first f ∧ d.Typed [t] f ∧
      s.Stored (a - 1) rest c' ∧ d.Typed ts c' := by
  cases h with
  | number hp hx h =>
    cases hst with
    | number hslot hbare hrest =>
      exact ⟨.plain .nil, _, .number _ .nil, _, rfl, rfl, rfl, .number hslot hbare .nil,
        .number hp hx .nil, hrest, h⟩
  | value ht hp hs h =>
    cases hst with
    | null hslot hrest =>
      exact ⟨.plain .nil, _, .value _ .nil, _, rfl, rfl, rfl, .null hslot .nil,
        .value ht hp hs .nil, hrest, h⟩
    | entry hslot hentry hrest =>
      exact ⟨.entry _ .nil, _, .value _ .nil, _, rfl, rfl, rfl, .entry hslot hentry .nil,
        .value ht hp hs .nil, hrest, h⟩
  | bound hs hi hlength h =>
    cases hst with
    | block hslot hheader hinner hrest =>
      exact ⟨.block _ _ .nil, _, .block _ _ .nil, _, rfl, rfl, rfl,
        .block hslot hheader hinner .nil, .bound hs hi hlength .nil, hrest, h⟩
  | struct hs hl hi h =>
    cases hst with
    | block hslot hheader hinner hrest =>
      exact ⟨.block _ _ .nil, _, .block _ _ .nil, _, rfl, rfl, rfl,
        .block hslot hheader hinner .nil, .struct hs hl hi .nil, hrest, h⟩

theorem WritesFields.nil : WritesFields d [] [] .nil fuel := by
  intro r fs values b k sd cd _ hfs _ ⟨htarget, htyped, _, _⟩
  obtain rfl := List.map_eq_nil_iff.mp hfs
  cases htyped
  cases htarget
  exact .pure ⟨.nil, .nil, .nil⟩

/-- The other fields are written in a state in which the first one is done. -/
theorem WritesFields.cons {ts : List TypeId} {vs : List Value} {f c : Content}
    (h : WritesField d t v f fuel) (h' : WritesFields d ts vs c fuel) :
    WritesFields d (t :: ts) (v :: vs) (f ++ c) fuel := by
  intro r fs values b k sd cd hd hfs hvs hr
  obtain ⟨field, fs, rfl, rfl, hfields⟩ := List.map_eq_cons_iff.mp hfs
  obtain ⟨hv, hvs⟩ := getD_of_drop hvs
  obtain ⟨hlives, hlives'⟩ := Content.all_append.mp hr.lives
  obtain ⟨first, rest, fd, cd', rfl, rfl, hone, hfirst, htyped, hrest, htyped'⟩ :=
    exists_first hr.typed hr.target
  refine .forM_cons ?_
  dsimp only
  rw [hv]
  refine (h r _ first fd hd ⟨hfirst, htyped, hr.distinct.left, hlives⟩).imp
    fun _ r₁ ⟨first', f', hcopied⟩ ↦ ?_
  refine hcopied.andThen hone rfl hr.distinct hrest hlives' ?_
  exact h' r₁ fs values b (k + 1) rest cd' (hd.trans hcopied.allocates.grown) hfields hvs
    (.next hcopied hone hrest htyped' hr.distinct hlives')

/-- By induction on the values. The blocks in the fields are overwritten in place. -/
theorem succeeds_writeLocations {ts : List TypeId} {vs : List Value} {c : Content}
    (h : d.Writes ts vs c) (hdepth : c.depth < fuel) : WritesFields d ts vs c fuel := by
  induction h generalizing fuel with
  | nil => exact .nil
  | @number t p v x ts vs c hp hslot hx _ ih =>
    exact .cons (f := .number x .nil) (writesField_number hp hslot hx) (ih hdepth)
  | @value t v ts vs c ht hp hs _ ih =>
    exact .cons (f := .value v .nil) (writesField_value ht hp hs (Nat.zero_lt_of_lt hdepth))
      (ih hdepth)
  | @bound t b v slots ts vs c hs hv _ ih =>
    exact .cons (f := .block t (.ofSlots slots) .nil)
      (writesField_bound hs hv (Nat.zero_lt_of_lt hdepth))
      (ih ((Nat.le_max_right _ _).trans_lt hdepth))
  | @struct t l id fields adapted i ts vs c hs hl hlt hobject _ _ ihi ih =>
    have hdeep : i.depth + 1 < fuel := (Nat.le_max_left _ _).trans_lt hdepth
    obtain ⟨fuel, rfl⟩ : ∃ m, fuel = m + 2 := ⟨fuel - 2, by omega⟩
    exact .cons (f := .block t i .nil)
      (writesField_struct hs hl hlt hobject (ihi (by omega)))
      (ih ((Nat.le_max_right _ _).trans_lt hdepth))

/-- A box is written to a block of its type, whose fields keep their slots and entries. -/
theorem succeeds_writeBoxed {i cd : Content} {z : Nat} {sd : Storage}
    (h : d.Writes [t] [v] (.block t i .nil)) (hd : d.Grown r.domain)
    (hheader : r.stack.slots[z]? = some (.header t sd.length))
    (htarget : r.stack.Stored (z - 1) sd cd) (htyped : r.domain.Typed [t] (.block t cd .nil))
    (hdistinct : sd.Distinct (z - 1)) (hz : z ∉ sd.slots (z - 1))
    (hlives : i.All (Value.Lives r.domain.heap)) (hdepth : i.depth + 1 < fuel) :
    Succeeds (writeBoxed fuel z v) r fun _ r' ↦ ∃ st' c', Copied r r' (z - 1) sd st' i c' := by
  obtain ⟨fuel, rfl⟩ : ∃ m, fuel = m + 2 := ⟨fuel - 2, by omega⟩
  cases h with
  | bound hs hv _ =>
    have ht := Domain.lt_size_of_style? hs
    have hs' := (hd.style? ht).trans hs
    cases htyped with
    | struct ht => cases ht.symm.trans hs'
    | bound ht' hi hlength _ =>
      cases ht'.symm.trans hs'
      exact (succeeds_writeBound hs' (hv.grown hd ht) hheader htarget hi hlength hdistinct hz).imp
        fun _ r' ⟨st', h⟩ ↦ ⟨st', _, h⟩
  | struct hs hl hlt hobject hi _ =>
    have hs' := (hd.style? (Domain.lt_size_of_style? hs)).trans hs
    cases htyped with
    | bound ht => cases ht.symm.trans hs'
    | @struct _ l' _ _ _ ht hl' hi' _ =>
      obtain rfl := (hl.extends hd.registry).unique (.of_known hl')
      have hlength := htarget.length_eq.trans (hi'.length_eq.trans (List.length_map ..))
      refine .congr
        (writeStruct_eq hs' hl' ((hd.object _ hlt).trans hobject) (hlength ▸ hheader)) ?_
      exact succeeds_writeLocations hi (by omega) r _ _ z 0 sd cd hd rfl rfl
        ⟨htarget, hi', hdistinct, hlives⟩

end Engine

/-! ### New blocks with the content of boxes -/

/-- If the value is an object, the object and its type are there. -/
def Value.Known (d : Domain) (v : Value) : Prop := ∀ id, v = .object id →
  id.index < d.heap.size ∧ (d.heap.type id).index < d.registry.types.size

theorem Value.Known.lives {d : Domain} {v : Value} (h : v.Known d) : v.Lives d.heap :=
  fun id hid ↦ (h id hid).1

namespace Domain

variable {d d' d'' : Domain} {v v' : Value} {id : ObjectId}

theorem Grown.known (h : d.Grown d') (hv : v.Known d) : v.Known d' := by
  intro id hid
  obtain ⟨hlt, ht⟩ := hv id hid
  rw [Heap.type, h.object id hlt]
  exact ⟨hlt.trans_le h.size, ht.trans_le h.size_le⟩

theorem Grown.cloneData? (h : d.Grown d') (hid : id.index < d.heap.size)
    (ht : (d.heap.type id).index < d.registry.types.size) :
    d'.cloneData? id = d.cloneData? id := by
  have htype : d'.heap.type id = d.heap.type id := by rw [Heap.type, Heap.type, h.object id hid]
  have hdata : d'.heap.data? id = d.heap.data? id := by rw [Heap.data?, Heap.data?, h.object id hid]
  have hdescriptor : d'.typeOf id = d.typeOf id := by
    rw [Domain.typeOf, Domain.typeOf, htype, h.registry.type_eq ht]
  rw [Domain.cloneData?, Domain.cloneData?, hdescriptor, hdata]

theorem CloneOf.known (h : d.CloneOf d' v v') (hd : d.Grown d') (hv : v.Known d) : v'.Known d' := by
  cases h with
  | shared => exact hd.known hv
  | @clone id _ _ _ hmade =>
    rintro _ ⟨⟩
    refine ⟨hmade.there, ?_⟩
    rw [Heap.type, hmade.object]
    exact (hv id rfl).2.trans_le hd.size_le

/-- A clone that was made later is a clone for those who knew the value earlier. -/
theorem CloneOf.before (h : d'.CloneOf d'' v v') (hd : d.Grown d') (hv : v.Known d) :
    d.CloneOf d'' v v' := by
  cases h with
  | shared h =>
    refine .shared fun id hid ↦ ?_
    obtain ⟨hlt, ht⟩ := hv id hid
    exact hd.cloneData? hlt ht ▸ h id hid
  | clone h hmade =>
    obtain ⟨hlt, ht⟩ := hv _ rfl
    refine .clone (hd.cloneData? hlt ht ▸ h) ⟨hd.size.trans hmade.new, hmade.there, ?_⟩
    rw [hmade.object, Heap.type, Heap.type, hd.object _ hlt]

end Domain

/-- What the code of a block that is new writes to it shows in the block only. -/
theorem Stack.Takes.within {s s₁ s' : Stack} {A E : Set Nat} (h : s.Takes ∅ s₁)
    (hw : s₁.Within A E s') (hA : ∀ a ∈ A, s₁.low ≤ a ∧ a < s.low)
    (hE : ∀ i ∈ E, s.managed.size ≤ i) : s.Takes ∅ s' where
  size := hw.size.trans h.size
  top := hw.top.trans h.top
  low := hw.low ▸ h.low
  base := hw.base.trans h.base
  floor := hw.floor.trans h.floor
  slot a _ hout := by
    rw [hw.low] at hout
    refine (hw.slot a fun ha ↦ ?_).trans (h.slot a (Set.notMem_empty a) hout)
    have hbounds := hA a ha
    omega
  grows := h.grows.trans hw.grows
  entry i hi := by
    refine (hw.entry i (hi.trans_le h.grows) fun hi' ↦ ?_).trans (h.entry i hi)
    exact Nat.not_lt.mpr (hE i hi') hi

/-- A new block that is written to is a new block with that content. -/
theorem FreshBlock.written {r r₁ r' : Running} {t : TypeId} {b : Nat} {st st' : Storage}
    {c c' : Content} (h : FreshBlock r r₁ t b st c) (hw : Rewritten r₁ r' (b - 1) st st' c')
    (hform : c'.form = c.form) : FreshBlock r r' t b st' c' where
  header := by
    rw [hw.within.slot b fun hb ↦ (h.slots b hb).2.false, h.header, hw.length]
  stored := hw.stored
  here := h.here
  slots := by
    rw [hw.slots, hw.within.low]
    exact h.slots
  entries j hj := (hw.entries j hj).elim (h.entries j) h.takes.grows.trans
  distinct := ⟨hw.slots ▸ h.distinct.slots, hw.nodup⟩
  takes := by
    have hhere := h.here
    refine h.takes.within hw.within (fun x hx ↦ ?_) h.entries
    have hx := h.slots x hx
    omega
  low := by
    rw [hw.within.low, ← c'.length_form, ← c'.nested_form, hform, c.length_form, c.nested_form]
    exact h.low
  grown := h.grown.trans hw.allocates.grown

namespace Engine

variable {d : Domain} {t : TypeId} {i : Content}

/-- A block for a boxed struct is made, and the box is written to it. -/
theorem eventually_materialize (hlaid : d.Laid [t] (.block t i .nil)) :
    ∀ᶠ fuel in Filter.atTop, ∀ (r : Running) (n : Nat) (v : Value) (c : Content),
      d.Grown r.domain → r.domain.Boxed n [t] [v] (.block t c .nil) → c.form = i.form →
      c.All (Value.Known r.domain) → r.stack.low ≤ r.stack.slots.size →
      r.stack.top + (1 + i.length + i.nested) ≤ r.stack.low →
      Succeeds (materialize fuel v t) r fun b r' ↦ ∃ st c', FreshBlock r r' t b st c' ∧
        r'.domain.Typed [t] (.block t c' .nil) ∧ c.Maps (r.domain.CloneOf r'.domain) c' := by
  filter_upwards [eventually_allocInline hlaid, Filter.eventually_gt_atTop (i.depth + 1)]
    with fuel halloc hdepth r n v c hd hboxed hform hknown hfit hroom
  refine (halloc r hd.toExtends hfit hroom).bind fun b r₁ ⟨st, c₁, htyped, hform₁, hfresh, _⟩ ↦ ?_
  have hlives : c.All (Value.Lives r₁.domain.heap) :=
    hknown.imp fun v hv ↦ (hfresh.grown.known hv).lives
  have hdepth' : c.depth = i.depth := by rw [← c.depth_form, hform, i.depth_form]
  refine (succeeds_writeBoxed hboxed.writes hfresh.grown hfresh.header hfresh.stored htyped
    hfresh.distinct
    (fun hb ↦ (hfresh.slots b hb).2.false) hlives (by rwa [hdepth'])).bind
    fun _ r' ⟨st', c', hw⟩ ↦ .pure ?_
  have hform' : c'.form = c₁.form := hw.maps.form_eq.trans (hform.trans hform₁.symm)
  refine ⟨st', c', hfresh.written hw.toRewritten hform', ?_, ?_⟩
  · have htyped' := (hboxed.grown hfresh.grown).typed htyped
    exact (htyped'.maps (.block hw.maps .nil)).extends hw.allocates.extends
  · exact hw.maps.imp_of_all hknown fun v v' hv hclone ↦ hclone.before hfresh.grown hv

end Engine

end ManagedMachine
