import ManagedMachine.Proofs.Snapshots
import ManagedMachine.Proofs.StructCopies

/-!
# Values of the host on the stack

A value that the host pushes as an operand of some type is read back as it was. Structs are written
to blocks and boxed again, so the boxes that come back are new ones.

What has to hold of a value for this is `Domain.Suits`: it has the form that the type wants, all the
way down, and bound structs in it are read as they are written. It has everything that boxing and
laying out need (`Suits.boxed`, `Suits.laid`), so both halves of the round trip start from it.
-/

set_option autoImplicit false
set_option relaxedAutoImplicit false

namespace ManagedMachine

open Engine

theorem Content.ofSlots_injective : Function.Injective Content.ofSlots := by
  intro slots slots' h
  induction slots generalizing slots' with
  | nil =>
    cases slots' with
    | nil => rfl
    | cons => cases h
  | cons x slots ih =>
    cases slots' with
    | nil => cases h
    | cons y slots' =>
      injection h with hx hrest
      rw [hx, ih hrest]

namespace Domain

/-! ### Values of types -/

/-- If the value is a host struct that can be cloned, the clone has the same data. -/
def ClonesFaithfully (d : Domain) (v : Value) : Prop :=
  ∀ id data, v = .object id → d.cloneData? id = some data → d.heap.data? id = some data

/-- The values are well typed for locations of the types, and the content is what blocks for them
hold. -/
inductive Suits (d : Domain) : List TypeId → List Value → Content → Prop
  | nil : Suits d [] [] .nil
  | number {t : TypeId} {p : Primitive} {x : Slot} {ts : List TypeId} {vs : List Value}
    {c : Content} (hp : (d.registry.type t).primitive? = some p) (hx : x.Of p)
    (hnarrow : x.narrowed p = x) (h : Suits d ts vs c) :
    Suits d (t :: ts) (x.value (some p) :: vs) (.number x c)
  | reference {t : TypeId} {v : Value} {ts : List TypeId} {vs : List Value} {c : Content}
    (ht : t.index < d.registry.types.size) (hp : (d.registry.type t).primitive? = none)
    (hstruct : (d.registry.type t).isStruct = false) (hv : v.Known d)
      (hclone : d.ClonesFaithfully v)
    (h : Suits d ts vs c) : Suits d (t :: ts) (v :: vs) (.value v c)
  /-- A host struct without a binder. -/
  | host {t : TypeId} {id : ObjectId} {data : HostData} {ts : List TypeId} {vs : List Value}
    {c : Content} (hstruct : (d.registry.type t).isStruct = true)
    (hp : (d.registry.type t).primitive? = none) (hs : d.style? t = none)
    (hlt : id.index < d.heap.size) (hobject : d.heap.object id = .native t data)
    (hcopy : ((d.registry.type t).native?.bind HostType.copy).bind (· data) = some data)
    (h : Suits d ts vs c) : Suits d (t :: ts) (.object id :: vs) (.value (.object id) c)
  /-- A host struct whose binder reads back what it writes. -/
  | bound {t : TypeId} {b : StructBinder} {id : ObjectId} {data : HostData} {slots : List Slot}
    {ts : List TypeId} {vs : List Value} {c : Content} (hs : d.style? t = some (.bound b))
    (hlt : id.index < d.heap.size) (hobject : d.heap.object id = .native t data)
    (hwrite : b.write data = .ok slots) (hread : b.read slots = .ok data)
    (hdefault : ∀ data, (d.registry.type t).native?.bind HostType.default = some data →
      ∃ slots, b.write data = .ok slots)
    (h : Suits d ts vs c) : Suits d (t :: ts) (.object id :: vs) (.block t (.ofSlots slots) c)
  | struct {t : TypeId} {l : FieldLayout} {id : ObjectId} {fields : Array Value} {adapted : Bool}
    {i : Content} {ts : List TypeId} {vs : List Value} {c : Content}
    (hs : d.style? t = some .fields) (hl : d.registry.Lays t l) (hlt : id.index < d.heap.size)
    (hobject : d.heap.object id = .instance_ t fields adapted)
    (hi : Suits d (l.instance_.map Field.type) fields.toList i) (h : Suits d ts vs c) :
    Suits d (t :: ts) (.object id :: vs) (.block t i c)

/-- The value is well typed as an operand of the type: any reference if the type is none of structs
and numbers. -/
inductive Passable (d : Domain) (t : TypeId) (v : Value) : Content → Prop
  | reference (hp : (d.registry.type t).primitive? = none)
    (hstruct : (d.registry.type t).isStruct = false) : Passable d t v .nil
  | typed {c : Content} (hvoid : (d.registry.type t).primitive? ≠ some .void)
    (h : d.Suits [t] [v] c) : Passable d t v c

variable {d d' d₁ d₂ : Domain} {ts : List TypeId} {t : TypeId} {vs ws : List Value} {v w : Value}
  {c c' c₁ c₂ : Content} {id : ObjectId}

theorem style?_of_not_struct (h : (d.registry.type t).isStruct = false) : d.style? t = none := by
  rw [style?]
  simp [h]

/-- A value that suits a type is a box of it. -/
theorem Suits.boxed (h : d.Suits ts vs c) : d.Boxed 0 ts vs c := by
  induction h with
  | nil => exact .nil
  | number hp hx hnarrow _ ih => exact .number hp hx hnarrow ih
  | reference ht hp hstruct _ _ _ ih => exact .value ht hp (style?_of_not_struct hstruct) ih
  | host hstruct hp hs _ _ _ _ ih => exact .value (lt_size_of_isStruct hstruct) hp hs ih
  | bound hs hlt hobject hwrite hread _ _ ih =>
    exact .bound hs (Nat.zero_le _) hlt hobject hwrite hread ih
  | struct hs hl hlt hobject _ _ ihi ih =>
    exact .struct hs hl (Nat.zero_le _) hlt hobject ihi ih

/-- Its content has the form of the fields. -/
theorem Suits.laid (h : d.Suits ts vs c) : d.Laid ts c := by
  induction h with
  | nil => exact .nil
  | number hp _ _ _ ih => exact .number hp ih
  | reference ht hp hstruct _ _ _ ih => exact .value ht hp (style?_of_not_struct hstruct) ih
  | host hstruct hp hs _ _ _ _ ih => exact .value (lt_size_of_isStruct hstruct) hp hs ih
  | @bound _ b _ _ slots _ _ _ hs _ _ hwrite _ hdefault _ ih =>
    have hlength := (Content.length_ofSlots slots).trans (b.length_write hwrite)
    exact .bound hs (Content.numeric_ofSlots slots) hlength hdefault ih
  | struct hs hl _ _ _ _ ihi ih => exact .struct hs hl ihi ih

theorem known_native {data : HostData} (hstruct : (d.registry.type t).isStruct = true)
    (hlt : id.index < d.heap.size) (hobject : d.heap.object id = .native t data) :
    (Value.object id).Known d := by
  rintro _ ⟨⟩
  refine ⟨hlt, ?_⟩
  rw [Heap.type, hobject]
  exact lt_size_of_isStruct hstruct

theorem Suits.known (h : d.Suits ts vs c) : c.All (Value.Known d) := by
  induction h with
  | nil => trivial
  | number _ _ _ _ ih => exact ih
  | reference _ _ _ hv _ _ ih => exact ⟨hv, ih⟩
  | host hstruct _ _ hlt hobject _ _ ih => exact ⟨known_native hstruct hlt hobject, ih⟩
  | bound _ _ _ _ _ _ _ ih => exact ⟨(Content.numeric_ofSlots _).all, ih⟩
  | struct _ _ _ _ _ _ ihi ih => exact ⟨ihi, ih⟩

/-! ### Values that are alike -/

/-- The same reference, or a clone of a host struct with the same data. -/
inductive Refers (d d' : Domain) : Value → Value → Prop
  | same {v : Value} : Refers d d' v v
  | clone {id id' : ObjectId} {t : TypeId} {data : HostData}
    (hobject : d.heap.object id = .native t data) (hobject' : d'.heap.object id' = .native t data) :
    Refers d d' (.object id) (.object id')

/-- Values of the first domain and values of the second one, at locations of the types, that are
structurally equal. The structs among the latter are objects that the first domain does not have. -/
inductive Alike (d d' : Domain) : List TypeId → List Value → List Value → Prop
  | nil : Alike d d' [] [] []
  | number {t : TypeId} {p : Primitive} {v : Value} {ts : List TypeId} {vs ws : List Value}
    (hp : (d.registry.type t).primitive? = some p) (h : Alike d d' ts vs ws) :
    Alike d d' (t :: ts) (v :: vs) (v :: ws)
  | reference {t : TypeId} {v w : Value} {ts : List TypeId} {vs ws : List Value}
    (hstruct : (d.registry.type t).isStruct = false) (hv : Refers d d' v w)
    (h : Alike d d' ts vs ws) : Alike d d' (t :: ts) (v :: vs) (w :: ws)
  | host {t : TypeId} {id id' : ObjectId} {data : HostData} {ts : List TypeId}
    {vs ws : List Value} (hobject : d.heap.object id = .native t data)
    (hobject' : d'.heap.object id' = .native t data) (hnew : d.heap.size ≤ id'.index)
    (h : Alike d d' ts vs ws) : Alike d d' (t :: ts) (.object id :: vs) (.object id' :: ws)
  | struct {t : TypeId} {l : FieldLayout} {id id' : ObjectId} {fields fields' : Array Value}
    {adapted adapted' : Bool} {ts : List TypeId} {vs ws : List Value}
    (hs : d.style? t = some .fields) (hl : d.registry.Lays t l)
    (hobject : d.heap.object id = .instance_ t fields adapted)
    (hobject' : d'.heap.object id' = .instance_ t fields' adapted') (hnew : d.heap.size ≤ id'.index)
    (hi : Alike d d' (l.instance_.map Field.type) fields.toList fields'.toList)
    (h : Alike d d' ts vs ws) : Alike d d' (t :: ts) (.object id :: vs) (.object id' :: ws)

theorem data?_eq_some {data : HostData} (h : d.heap.data? id = some data) :
    d.heap.object id = .native (d.heap.type id) data := by
  rw [Heap.type]
  rw [Heap.data?] at h
  cases hobject : d.heap.object id with
  | native t data' =>
    rw [hobject] at h
    cases h
    rfl
  | _ =>
    rw [hobject] at h
    cases h

theorem cloneData?_native {data : HostData} (hstruct : (d.registry.type t).isStruct = true)
    (hobject : d.heap.object id = .native t data) : d.cloneData? id =
      ((d.registry.type t).native?.bind HostType.copy).bind (· data) := by
  have htype : d.typeOf id = d.registry.type t := by rw [typeOf, Heap.type, hobject]; rfl
  rw [cloneData?, htype, if_pos hstruct, Heap.data?, hobject]
  rfl

/-- A clone of a clone has the data that the first struct has. -/
theorem CloneOf.refers {v₁ : Value} (h : d.CloneOf d₁ v v₁) (h' : d₁.CloneOf d₂ v₁ w)
    (hd : d.Grown d₁) (hd' : d₁.Grown d₂) (hv : v.Known d) (hclone : d.ClonesFaithfully v) :
    Refers d d₂ v w := by
  cases h with
  | shared h =>
    cases h' with
    | shared => exact .same
    | @clone id _ _ h' =>
      obtain ⟨hlt, ht⟩ := hv id rfl
      rw [hd.cloneData? hlt ht, h id rfl] at h'
      cases h'
  | @clone id id₁ data h hmade =>
    have hdata := hclone id data rfl h
    have hobject := data?_eq_some hdata
    cases h' with
    | shared => exact .clone hobject ((hd'.object _ hmade.there).trans hmade.object)
    | clone h' hmade' =>
      have htype : d₁.heap.type id₁ = d.heap.type id := by rw [Heap.type, hmade.object]; rfl
      have hdata' : d₁.heap.data? id₁ = some data := by rw [Heap.data?, hmade.object]; rfl
      have hsame : d₁.cloneData? id₁ = d.cloneData? id := by
        rw [cloneData?, cloneData?, typeOf, htype, hd.registry.type_eq (hv id rfl).2, hdata', hdata]
        rfl
      cases (hsame.symm.trans h').symm.trans h
      exact .clone hobject (htype ▸ hmade'.object)

/-- The clone of a host struct is a new one with the same data. -/
theorem CloneOf.exists_native {data : HostData} (h : d.CloneOf d' (.object id) w)
    (hstruct : (d.registry.type t).isStruct = true) (hobject : d.heap.object id = .native t data)
    (hcopy : ((d.registry.type t).native?.bind HostType.copy).bind (· data) = some data) :
    ∃ id', w = .object id' ∧ d.heap.size ≤ id'.index ∧ d'.heap.object id' = .native t data := by
  have hcloned := (cloneData?_native hstruct hobject).trans hcopy
  cases h with
  | shared h => cases (h id rfl).symm.trans hcloned
  | @clone _ id' _ h hmade =>
    cases h.symm.trans hcloned
    refine ⟨id', rfl, hmade.new, ?_⟩
    rw [hmade.object, Heap.type, hobject]
    rfl

/-- Values that were written to blocks, and the boxes that are taken of the blocks. -/
theorem Suits.alike (h : d.Suits ts vs c) (hmaps : c.Maps (d.CloneOf d₁) c₁) (hd : d.Grown d₁)
    (hshows : d₁.Shows (d₁.CloneOf d₂) ts c₁ c₂) (hd' : d₁.Grown d₂)
    (hboxed : d₂.Boxed d.heap.size ts ws c₂) : d.Alike d₂ ts vs ws := by
  have hgrown := hd.trans hd'
  induction h generalizing c₁ c₂ ws with
  | nil =>
    cases hmaps
    cases hshows
    cases hboxed
    exact .nil
  | @number t p x ts vs c hp hx hnarrow _ ih =>
    cases hmaps with
    | number hmaps =>
      cases hshows with
      | number hp₁ hshows =>
        rw [hd.registry.type_eq (lt_size_of_primitive hp)] at hp₁
        cases hp₁.symm.trans hp
        rw [hnarrow] at hboxed
        cases hboxed with
        | number hp₂ _ _ hboxed =>
          rw [hgrown.registry.type_eq (lt_size_of_primitive hp)] at hp₂
          cases hp₂.symm.trans hp
          exact .number hp (ih hmaps hshows hboxed)
  | reference _ _ hstruct hv hclone _ ih =>
    cases hmaps with
    | value hv₁ hmaps =>
      cases hshows with
      | value _ _ hv₂ hshows =>
        cases hboxed with
        | value _ _ _ hboxed =>
          exact .reference hstruct (hv₁.refers hv₂ hd hd' hv hclone) (ih hmaps hshows hboxed)
  | host hstruct _ _ _ hobject hcopy _ ih =>
    cases hmaps with
    | value hv₁ hmaps =>
      cases hshows with
      | value _ _ hv₂ hshows =>
        cases hboxed with
        | value _ _ _ hboxed =>
          obtain ⟨id₁, rfl, hnew₁, hobject₁⟩ := hv₁.exists_native hstruct hobject hcopy
          have htype := hd.registry.type_eq (lt_size_of_isStruct hstruct)
          obtain ⟨id₂, rfl, hnew₂, hobject₂⟩ :=
            hv₂.exists_native (htype ▸ hstruct) hobject₁ (htype ▸ hcopy)
          exact .host hobject hobject₂ (hd.size.trans hnew₂) (ih hmaps hshows hboxed)
  | @bound t b id data slots ts vs c hs hlt hobject hwrite hread _ _ ih =>
    have ht := lt_size_of_style? hs
    have hs₁ := (hd.style? ht).trans hs
    have hs₂ := (hgrown.style? ht).trans hs
    cases hmaps with
    | block hi hmaps =>
      cases hi.numeric (Content.numeric_ofSlots slots)
      cases hshows with
      | struct hs' => cases hs'.symm.trans hs₁
      | bound _ _ hshows =>
        -- The content is named so that the slots of the box can be compared with it.
        generalize hslots : Content.ofSlots slots = i at hboxed
        cases hboxed with
        | struct hs' => cases hs'.symm.trans hs₂
        | bound hs' hnew _ hobject₂ hwrite' hread' hboxed =>
          cases hs'.symm.trans hs₂
          cases Content.ofSlots_injective hslots
          cases hread'.symm.trans hread
          exact .host hobject hobject₂ hnew (ih hmaps hshows hboxed)
  | @struct t l id fields adapted i ts vs c hs hl hlt hobject _ _ ihi ih =>
    have ht := lt_size_of_style? hs
    have hs₁ := (hd.style? ht).trans hs
    have hs₂ := (hgrown.style? ht).trans hs
    cases hmaps with
    | block hi hmaps =>
      cases hshows with
      | bound hs' => cases hs'.symm.trans hs₁
      | struct _ hl₁ hi₁ hshows =>
        obtain rfl := (hl.extends hd.registry).unique hl₁
        cases hboxed with
        | bound hs' => cases hs'.symm.trans hs₂
        | struct _ hl₂ hnew _ hobject₂ hi₂ hboxed =>
          obtain rfl := (hl.extends hgrown.registry).unique hl₂
          exact .struct hs hl hobject hobject₂ hnew (ihi hi hi₁ hi₂) (ih hmaps hshows hboxed)

end Domain

/-! ### Pushing and reading back -/

namespace Stack

/-- One operand is new. All slots below it, all blocks and all entries are as they were. -/
structure Pushes (s s' : Stack) : Prop where
  top : s'.top = s.top + 1
  low : s'.low ≤ s.low
  operand : ∀ a < s.top, s'.slots[a]? = s.slots[a]?
  block : ∀ a, s.low ≤ a → s'.slots[a]? = s.slots[a]?
  entry : ∀ i < s.managed.size, s'.managed[i]? = s.managed[i]?

variable {s s₁ : Stack}

/-- An operand on top of what was taken for it. -/
theorem Takes.pushes (h : s.Takes ∅ s₁) (hroom : s₁.top < s₁.low) (x : Slot) :
    s.Pushes (s₁.pushed x) where
  top := congrArg (· + 1) h.top
  low := h.low
  operand a ha := by
    have htop := h.top
    refine (Array.getElem?_setIfInBounds_ne (by omega)).trans ?_
    exact h.slot a (Set.notMem_empty a) (by omega)
  block a ha := by
    have hlow := h.low
    refine (Array.getElem?_setIfInBounds_ne (by omega)).trans ?_
    exact h.slot a (Set.notMem_empty a) (.inr ha)
  entry := h.entry

end Stack

namespace Engine

open Stack

/-- Pushes a value and reads the operand. -/
def passValue (fuel : Nat) (v : Value) (t : TypeId) : RunM Value := do
  pushValue fuel v t
  readValue fuel (← read (·.topSlot)) t

/-- The value comes back in the same form, and nothing else changes on the stack. -/
structure Passes (r r' : Running) (t : TypeId) (v w : Value) : Prop where
  alike : r.domain.Alike r'.domain [t] [v] [w]
  stack : r.stack.Pushes r'.stack
  grown : r.domain.Grown r'.domain

variable {d : Domain} {r : Running} {fuel : Nat} {t : TypeId} {v : Value} {c i : Content}

theorem succeeds_passPushed (r₁ : Running) {x : Slot} {Q : Value → Running → Prop}
    (hpush : pushValue fuel v t r = .ok () (r₁.withStack (r₁.stack.pushed x)))
    (hsize : r₁.stack.top < r₁.stack.slots.size)
    (h : Succeeds (readValue fuel x t) (r₁.withStack (r₁.stack.pushed x)) Q) :
    Succeeds (passValue fuel v t) r Q := .bind_ok hpush (.read (topSlot_pushed hsize) h)

theorem succeeds_passNumber {p : Primitive} {x : Slot}
    (hp : (r.domain.registry.type t).primitive? = some p) (hvoid : p ≠ .void) (hx : x.Of p)
    (hnarrow : x.narrowed p = x) (hroom : r.stack.top < r.stack.low)
    (hfit : r.stack.low ≤ r.stack.slots.size) :
    Succeeds (passValue (fuel + 1) (x.value (some p)) t) r fun w r' ↦
      Passes r r' t (x.value (some p)) w := by
  have hpush := pushValue_number (fuel + 1) hp hvoid hx hroom
  rw [hnarrow] at hpush
  refine succeeds_passPushed r hpush (hroom.trans_le hfit) (.of_ok (readValue_number hp hx) ?_)
  exact ⟨.number hp .nil, (Takes.refl ∅ r.stack).pushes hroom x, .refl _⟩

/-- A value with an entry of its own, or null. -/
theorem succeeds_passObject {r₁ : Running} {w : Value}
    (hp : (r₁.domain.registry.type t).primitive? = none)
    (hpush : pushValue (fuel + 1) v t r = Running.onStack (Stack.pushObject w) r₁)
    (hroom : r₁.stack.top < r₁.stack.low) (hsize : r₁.stack.top < r₁.stack.slots.size) :
    Succeeds (passValue (fuel + 1) v t) r fun w' r' ↦ w' = w ∧ r₁.stack.Pushes r'.stack ∧
      r'.domain = r₁.domain := by
  by_cases hnull : w.isNull = true
  · obtain rfl : w = .null := by cases w <;> first | rfl | cases hnull
    have hpush' := hpush.trans (Running.onStack_ok (push_of_lt (x := .null) hroom))
    refine succeeds_passPushed _ hpush' hsize (.pure ⟨rfl, ?_, rfl⟩)
    exact (Takes.refl ∅ r₁.stack).pushes hroom .null
  · let s : Stack := { r₁.stack with managed := r₁.stack.managed.push w }
    have hobject : Stack.pushObject w r₁.stack =
        .ok () (s.pushed (.object r₁.stack.managed.size)) := by
      unfold Stack.pushObject
      rw [if_neg hnull]
      exact (bind_of_ok rfl).trans (push_of_lt hroom)
    let r₂ := r₁.withStack (s.pushed (.object r₁.stack.managed.size))
    have hentry : r₂.stack.managed[r₁.stack.managed.size]? = some w := Array.getElem?_push_size
    have hread : readValue (fuel + 1) (.object r₁.stack.managed.size) t r₂ = .ok w r₂ := by
      unfold readValue
      refine (bind_of_ok (a := w) (by rw [read, entry_of_some hentry])).trans ?_
      have hdescriptor : descriptor t r₂ = .ok (r₁.domain.registry.type t) r₂ := rfl
      refine (bind_of_ok hdescriptor).trans ?_
      rw [hp]
      rfl
    have hpush' := hpush.trans (Running.onStack_ok hobject)
    refine succeeds_passPushed (r₁.withStack s) hpush' hsize (.of_ok hread ⟨rfl, ?_, rfl⟩)
    have hentries := Takes.of_within (Within.pushEntry w r₁.stack) fun _ h ↦ h.elim
    exact hentries.pushes hroom _

/-- A value that is no struct is pushed as it is. -/
theorem pushValue_object {w : Value} {r₁ : Running}
    (hp : (r.domain.registry.type t).primitive? = none)
    (hs : r.domain.style? t = none)
    (hv : (if (r.domain.registry.type t).isStruct then Running.onDomain (sharedOrCopied fuel v)
      else pure v : RunM Value) r = .ok w r₁) :
    pushValue fuel v t r = Running.onStack (Stack.pushObject w) r₁ := by
  have hinline : isInline fuel t r = .ok false r := by
    unfold isInline
    refine bind_of_ok (a := none) (t := r) ?_
    rw [inlineKind_eq, hs]
  unfold pushValue
  refine (bind_of_ok (descriptor_ok t r)).trans ?_
  rw [hp]
  refine (bind_of_ok hinline).trans ?_
  split at hv
  · next hstruct =>
    rw [if_neg Bool.false_ne_true, if_pos hstruct]
    exact bind_of_ok hv
  · next hstruct =>
    rw [if_neg Bool.false_ne_true, if_neg hstruct]
    cases hv
    rfl

theorem succeeds_passReference (hp : (r.domain.registry.type t).primitive? = none)
    (hstruct : (r.domain.registry.type t).isStruct = false) (hroom : r.stack.top < r.stack.low)
    (hfit : r.stack.low ≤ r.stack.slots.size) :
    Succeeds (passValue (fuel + 1) v t) r fun w r' ↦ Passes r r' t v w := by
  have hpush : pushValue (fuel + 1) v t r = Running.onStack (Stack.pushObject v) r :=
    pushValue_object hp (Domain.style?_of_not_struct hstruct) (by rw [hstruct]; rfl)
  refine (succeeds_passObject hp hpush hroom (hroom.trans_le hfit)).imp ?_
  rintro _ r' ⟨rfl, hpushes, hdomain⟩
  refine ⟨.reference hstruct .same .nil, hpushes, ?_⟩
  rw [hdomain]
  exact .refl _

/-- Data of the host are copied on the way in, and shared on the way out. -/
theorem succeeds_passHost {id : ObjectId} {data : HostData}
    (hstruct : (r.domain.registry.type t).isStruct = true)
    (hp : (r.domain.registry.type t).primitive? = none) (hs : r.domain.style? t = none)
    (hobject : r.domain.heap.object id = .native t data)
    (hcopy : ((r.domain.registry.type t).native?.bind HostType.copy).bind (· data) = some data)
    (hroom : r.stack.top < r.stack.low) (hfit : r.stack.low ≤ r.stack.slots.size) :
    Succeeds (passValue (fuel + 1) (.object id) t) r fun w r' ↦ Passes r r' t (.object id) w := by
  obtain ⟨w, d', hv, hallocates, hclone⟩ :=
    Domain.succeeds_sharedOrCopied (d := r.domain) fuel (.object id)
  obtain ⟨id', rfl, hnew, hobject'⟩ := hclone.exists_native hstruct hobject hcopy
  have hpush : pushValue (fuel + 1) (.object id) t r =
      Running.onStack (Stack.pushObject (.object id')) (r.withDomain d') :=
    pushValue_object hp hs (by rw [if_pos hstruct]; exact Running.onDomain_ok hv)
  have hp' : (d'.registry.type t).primitive? = none :=
    hallocates.extends.registry.type_eq (Domain.lt_size_of_isStruct hstruct) ▸ hp
  refine (succeeds_passObject hp' hpush hroom (hroom.trans_le hfit)).imp ?_
  rintro _ r' ⟨rfl, hpushes, hdomain⟩
  refine ⟨?_, hpushes, ?_⟩
  · rw [hdomain]
    exact .host hobject hobject' hnew .nil
  · rw [hdomain]
    exact hallocates.grown

theorem eventually_isInline (hlaid : d.Laid [t] (.block t i .nil)) :
    ∀ᶠ fuel in Filter.atTop, ∀ r : Running, d.Extends r.domain →
      Succeeds (isInline fuel t) r fun inline r' ↦ inline = true ∧ r'.stack = r.stack ∧
        r.domain.Grown r'.domain := by
  cases hlaid with
  | @bound _ b _ _ _ hs _ _ _ _ =>
    refine .of_forall fun fuel r hr ↦ ?_
    have hkind : inlineKind fuel t r = .ok (some (.bound b)) r := by
      rw [inlineKind_eq, (hr.style? (Domain.lt_size_of_style? hs)).trans hs]
    exact .bind_ok hkind (.pure ⟨rfl, rfl, .refl _⟩)
  | struct hs hl _ _ =>
    filter_upwards [eventually_inlineKind hs hl] with fuel hkind r hr
    refine (hkind r hr).bind ?_
    rintro _ r' ⟨rfl, hstack, hgrown, -⟩
    exact .pure ⟨rfl, hstack, hgrown⟩

/-- What a block holds is boxed once the block has been pushed. -/
theorem succeeds_readBlock {r₁ : Running} {b n : Nat} {st : Storage}
    (h : FreshBlock r r₁ t b st c) (htyped : r₁.domain.Typed [t] (.block t c .nil))
    (hreadable : (Content.block t c .nil).Readable r₁.domain)
    (hlives : c.All (Value.Lives r₁.domain.heap)) (hn : n ≤ r₁.domain.heap.size)
    (hroom : r₁.stack.top < r₁.stack.low) (hdepth : 2 * c.depth + 1 < fuel) :
    Succeeds (readValue (fuel + 1) (.block b) t) (r₁.withStack (r₁.stack.pushed (.block b)))
      fun w r' ↦ ∃ c', Taken r₁.domain (r₁.withStack (r₁.stack.pushed (.block b))) r' n [t] [w]
        (.block t c .nil) c' := by
  have hslot (x : Nat) (hx : r₁.stack.low ≤ x) :
      (r₁.stack.pushed (.block b)).slots[x]? = r₁.stack.slots[x]? :=
    Array.getElem?_setIfInBounds_ne (by omega)
  have hhere := h.here
  have hlow := h.low
  refine succeeds_snapshot htyped (.refl _) hreadable hn ((hslot b (by omega)).trans h.header) ?_
    hlives hdepth
  exact h.stored.congr (fun x hx ↦ hslot x (h.slots x hx).1) fun _ _ ↦ rfl

/-- The value is written to a block, and a box is made of the block. -/
theorem eventually_passBlock (hv : d.Suits [t] [v] (.block t i .nil)) :
    ∀ᶠ fuel in Filter.atTop, ∀ r : Running, r.domain = d → r.stack.low ≤ r.stack.slots.size →
      r.stack.top + (1 + i.length + i.nested) < r.stack.low →
      Succeeds (passValue fuel v t) r fun w r' ↦ Passes r r' t v w := by
  filter_upwards [eventually_materialize hv.laid, eventually_isInline hv.laid,
    Filter.eventually_gt_atTop (2 * i.depth + 2)] with fuel hmaterialize hinline hdepth r hr
      hfit hroom
  subst hr
  obtain ⟨fuel, rfl⟩ : ∃ m, fuel = m + 1 := ⟨fuel - 1, by omega⟩
  obtain ⟨_, r₁, hinline, rfl, hstack, hgrown⟩ := hinline r (.refl _)
  have hknown : i.All (Value.Known r₁.domain) := hv.known.1.imp fun _ hv ↦ hgrown.known hv
  obtain ⟨b, r₂, hmaterialize, st, c, hfresh, htyped, hmaps⟩ := hmaterialize r₁ 0 v i hgrown
    (hv.boxed.grown hgrown) rfl hknown (by rwa [hstack]) (by rw [hstack]; exact hroom.le)
  have hform : c.form = i.form := hmaps.form_eq
  have hlow := hfresh.low
  have htop := hfresh.takes.top
  have hsize := hfresh.takes.size
  rw [← c.length_form, ← c.nested_form, hform, i.length_form, i.nested_form, hstack] at hlow
  rw [hstack] at htop hsize
  have hroom' : r₂.stack.top < r₂.stack.low := by omega
  have hpush : pushValue (fuel + 1) v t r =
      .ok () (r₂.withStack (r₂.stack.pushed (.block b))) := by
    obtain ⟨s, hs⟩ := hv.laid.exists_style
    unfold pushValue
    refine (bind_of_ok (descriptor_ok t r)).trans ?_
    rw [(Domain.isStruct_of_style? hs).2]
    refine (bind_of_ok hinline).trans ?_
    rw [if_pos rfl]
    exact (bind_of_ok hmaterialize).trans (Running.onStack_ok (push_of_lt hroom'))
  have hreadable := (hv.boxed.grown (hgrown.trans hfresh.grown)).readable
  have hlives : c.All (Value.Lives r₂.domain.heap) :=
    hmaps.all hknown fun _ _ hv hclone ↦ hclone.lives hfresh.grown.size hv.lives
  have hdepth' : c.depth = i.depth := by rw [← c.depth_form, hform, i.depth_form]
  refine succeeds_passPushed _ hpush (by omega) ((succeeds_readBlock hfresh htyped
    ((Content.Maps.block hmaps .nil).readable hreadable) hlives
    (hgrown.trans hfresh.grown).size hroom'
    (by omega)).imp fun w r' ⟨c', h⟩ ↦ ?_)
  have hmaps' := hmaps.imp_of_all hv.known.1 fun _ _ hv hclone ↦ hclone.before hgrown hv
  refine ⟨hv.alike (.block hmaps' .nil) (hgrown.trans hfresh.grown) h.shows h.allocates.grown
    h.boxed, ?_, (hgrown.trans hfresh.grown).trans h.allocates.grown⟩
  rw [h.stack, ← hstack]
  exact hfresh.takes.pushes hroom' _

/-- A value that is well typed for a type passes over the stack: pushed as an operand of the type
and read back, it is structurally the same, its structs are new ones, and nothing that was on the
stack has changed. -/
theorem eventually_passValue (hv : d.Passable t v c) :
    ∀ᶠ fuel in Filter.atTop, ∀ r : Running, r.domain = d → r.stack.low ≤ r.stack.slots.size →
      r.stack.top + c.nested < r.stack.low →
      Succeeds (passValue fuel v t) r fun w r' ↦ Passes r r' t v w := by
  -- All but structs that are stored inline take no more than one step.
  have hplain (h : ∀ (fuel : Nat) (r : Running), r.domain = d →
      r.stack.low ≤ r.stack.slots.size → r.stack.top < r.stack.low →
      Succeeds (passValue (fuel + 1) v t) r fun w r' ↦ Passes r r' t v w) :
      ∀ᶠ fuel in Filter.atTop, ∀ r : Running, r.domain = d →
        r.stack.low ≤ r.stack.slots.size → r.stack.top + c.nested < r.stack.low →
        Succeeds (passValue fuel v t) r fun w r' ↦ Passes r r' t v w := by
    filter_upwards [Filter.eventually_gt_atTop 0] with fuel hpos r hr hfit hroom
    obtain ⟨fuel, rfl⟩ := Nat.exists_eq_add_of_le' hpos
    exact h fuel r hr hfit ((Nat.le_add_right _ _).trans_lt hroom)
  cases hv with
  | reference hp hstruct =>
    refine hplain fun fuel r hr hfit hroom ↦ ?_
    subst hr
    exact succeeds_passReference hp hstruct hroom hfit
  | typed hvoid hv =>
    cases hv with
    | number hp hx hnarrow _ =>
      refine hplain fun fuel r hr hfit hroom ↦ ?_
      subst hr
      exact succeeds_passNumber hp (fun h ↦ hvoid (h ▸ hp)) hx hnarrow hroom hfit
    | reference _ hp hstruct _ _ _ =>
      refine hplain fun fuel r hr hfit hroom ↦ ?_
      subst hr
      exact succeeds_passReference hp hstruct hroom hfit
    | host hstruct hp hs _ hobject hcopy _ =>
      refine hplain fun fuel r hr hfit hroom ↦ ?_
      subst hr
      exact succeeds_passHost hstruct hp hs hobject hcopy hroom hfit
    | bound hs hlt hobject hwrite hread hdefault h =>
      cases h
      exact eventually_passBlock (.bound hs hlt hobject hwrite hread hdefault .nil)
    | struct hs hl hlt hobject hi h =>
      cases h
      exact eventually_passBlock (.struct hs hl hlt hobject hi .nil)

end Engine

/-! ### A pair and a boxed struct -/

/-- A domain with a pair of a number, a text, a point and a struct that holds a text in turn. -/
def Domain.boxes : Domain :=
  { Domain.pairs with
    registry := { Domain.pairs.registry with
      types := Domain.pairs.registry.types.push
        ⟨"Object", .native (.plain .class_ "" "Object"), [], none⟩ }
    heap := ⟨#[.native ⟨2⟩ (.point 1 2), .instance_ ⟨4⟩ #[.string "b"] false,
      .instance_ ⟨3⟩ #[.int32 5, .string "a", .object ⟨0⟩, .object ⟨1⟩] false]⟩ }

def Running.boxes : Running := ⟨.boxes, .fresh 0 16⟩

/-- In the sample, a struct with a number, a text, an object and a struct. -/
theorem Domain.suits_boxes : Domain.boxes.Suits [⟨3⟩] [.object ⟨2⟩]
    (.block ⟨3⟩ (.number (.int32 5) (.value (.string "a") (.value (.object ⟨0⟩)
      (.block ⟨4⟩ (.value (.string "b") .nil) .nil)))) .nil) := by
  have hbinder (name : String) : Domain.boxes.bindings.binder? name = none :=
    Std.HashMap.getElem?_empty
  have hpair : Domain.boxes.registry.facts.layouts[(⟨3⟩ : TypeId)]? =
      some (.ofTypes [⟨0⟩, ⟨1⟩, ⟨2⟩, ⟨4⟩]) := by
    rw [Domain.boxes, Domain.pairs, Std.HashMap.getElem?_insert, if_neg (by decide),
      Std.HashMap.getElem?_insert_self]
  have hinner : Domain.boxes.registry.facts.layouts[(⟨4⟩ : TypeId)]? =
      some (.ofTypes [⟨1⟩]) := by
    rw [Domain.boxes, Domain.pairs, Std.HashMap.getElem?_insert_self]
  have htext (s : String) {ts : List TypeId} {vs : List Value} {c : Content}
      (h : Domain.boxes.Suits ts vs c) :
      Domain.boxes.Suits (⟨1⟩ :: ts) (.string s :: vs) (.value (.string s) c) :=
    .reference (by decide) rfl rfl (fun _ h ↦ by cases h) (fun _ _ h ↦ by cases h) h
  refine .struct (style?_of_interpreted rfl rfl (hbinder _)) (.of_known hpair) (by decide)
    rfl ?_ .nil
  refine .number (t := ⟨0⟩) (p := .int32) (x := .int32 5) rfl (.int32 rfl 5) rfl (htext "a" ?_)
  refine .host rfl rfl (style?_of_unbound rfl (hbinder _)) (by decide) rfl rfl ?_
  exact .struct (style?_of_interpreted rfl rfl (hbinder _)) (.of_known hinner) (by decide) rfl
    (htext "b" .nil) .nil

theorem Engine.eventually_passValue_boxes : ∃ fuel, Succeeds (passValue fuel (.object ⟨2⟩) ⟨3⟩)
    Running.boxes fun w r' ↦ Passes Running.boxes r' ⟨3⟩ (.object ⟨2⟩) w :=
  let ⟨fuel, h⟩ := (eventually_passValue (.typed (by decide) Domain.suits_boxes)).exists
  ⟨fuel, h Running.boxes rfl (by decide) (by decide)⟩

/-- A boxed struct behind a reference is not copied. -/
theorem Engine.passValue_boxes_reference :
    ∃ r', (Running.boxes.domain.typeOf ⟨1⟩).isStruct = true ∧
      passValue 1 (.object ⟨1⟩) ⟨5⟩ Running.boxes = .ok (.object ⟨1⟩) r' := ⟨_, rfl, rfl⟩

end ManagedMachine
