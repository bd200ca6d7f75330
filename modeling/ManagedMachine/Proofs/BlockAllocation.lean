import ManagedMachine.Proofs.StackOperations
import ManagedMachine.Proofs.StructTypes

/-!
# New structs

A new block takes the free slots just below the lowest one, and the blocks of its fields take those
below it. Its fields own entries that are new. Everything that was on the stack before stays as it
was.

Setting up a block of a type is followed along the type. `Laid` says that content has the form of
the types of the fields, `Numbered` that the entries of new storage are counted up from the end of
the table, and `AllocatesBlock` and `AllocatesField` say what making one block, or one field, comes
to. Each kind of type has its lemma, and the content of any depth is put together of them; the fuel
that this takes is only said to exist, as it depends on how deep the structs nest.
-/

set_option autoImplicit false
set_option relaxedAutoImplicit false

namespace ManagedMachine

open Engine

/-! ### How much is taken -/

namespace Content

/-- The slots that the blocks in the fields take. -/
def nested : Content → Nat
  | nil => 0
  | number _ rest => rest.nested
  | value _ rest => rest.nested
  | block _ inner rest => 1 + inner.length + inner.nested + rest.nested

theorem nested_form (c : Content) : c.form.nested = c.nested := by
  induction c with
  | nil => rfl
  | number _ _ ih => exact ih
  | value _ _ ih => exact ih
  | block t i c ihi ih => rw [form, nested, nested, ihi, ih, length_form]

theorem depth_form (c : Content) : c.form.depth = c.depth := by
  induction c with
  | nil => rfl
  | number _ _ ih => exact ih
  | value _ _ ih => exact ih
  | block _ _ _ ihi ih => rw [form, depth, depth, ihi, ih]

theorem form_append (c d : Content) : (c ++ d).form = c.form ++ d.form := by
  induction c with
  | nil => rfl
  | number _ _ ih => exact congrArg (number .null) ih
  | value _ _ ih => exact congrArg (value .null) ih
  | block t i c _ ih => exact congrArg (block t i.form) ih

theorem nested_append (c d : Content) : (c ++ d).nested = c.nested + d.nested := by
  induction c with
  | nil => exact (Nat.zero_add _).symm
  | number _ _ ih => exact ih
  | value _ _ ih => exact ih
  | block t i c _ ih =>
    rw [block_append, nested, nested, ih]
    omega

theorem Numeric.nested_eq {c : Content} (h : c.Numeric) : c.nested = 0 := by
  induction c with
  | nil => rfl
  | number _ _ ih => exact ih h
  | _ => cases h

theorem numeric_ofSlots (slots : List Slot) : (ofSlots slots).Numeric := by
  induction slots with
  | nil => trivial
  | cons x slots ih => exact ih

theorem length_ofSlots (slots : List Slot) : (ofSlots slots).length = slots.length := by
  induction slots with
  | nil => rfl
  | cons x slots ih => exact congrArg (· + 1) ih

end Content

namespace Domain

/-- Objects and what follows from types may have come in. -/
structure Grown (d d' : Domain) : Prop extends Extends d d' where
  size : d.heap.size ≤ d'.heap.size
  object : ∀ id, id.index < d.heap.size → d'.heap.object id = d.heap.object id

variable {d d' d'' : Domain} {ts : List TypeId} {t : TypeId} {c : Content}

theorem Grown.refl (d : Domain) : d.Grown d := ⟨.refl d, Nat.le_refl _, fun _ _ ↦ rfl⟩

theorem Grown.trans (h : d.Grown d') (h' : d'.Grown d'') : d.Grown d'' where
  toExtends := h.toExtends.trans h'.toExtends
  size := h.size.trans h'.size
  object id hid := (h'.object id (hid.trans_le h.size)).trans (h.object id hid)

theorem Allocates.grown (h : d.Allocates d') : d.Grown d' := ⟨h.extends, h.size, h.object⟩

/-- The types are there, and structs of them can be made with fields like those of the content. -/
inductive Laid (d : Domain) : List TypeId → Content → Prop
  | nil : Laid d [] .nil
  | number {t : TypeId} {p : Primitive} {x : Slot} {ts : List TypeId} {c : Content}
    (hp : (d.registry.type t).primitive? = some p) (h : Laid d ts c) :
    Laid d (t :: ts) (.number x c)
  | value {t : TypeId} {v : Value} {ts : List TypeId} {c : Content}
    (ht : t.index < d.registry.types.size) (hp : (d.registry.type t).primitive? = none)
    (hs : d.style? t = none) (h : Laid d ts c) : Laid d (t :: ts) (.value v c)
  | bound {t : TypeId} {b : StructBinder} {i : Content} {ts : List TypeId} {c : Content}
    (hs : d.style? t = some (.bound b)) (hi : i.Numeric) (hlength : i.length = b.fields.length)
    (hdefault : ∀ data, (d.registry.type t).native?.bind HostType.default = some data →
      ∃ slots, b.write data = .ok slots)
    (h : Laid d ts c) : Laid d (t :: ts) (.block t i c)
  | struct {t : TypeId} {l : FieldLayout} {i : Content} {ts : List TypeId} {c : Content}
    (hs : d.style? t = some .fields) (hl : d.registry.Lays t l)
    (hi : Laid d (l.instance_.map Field.type) i) (h : Laid d ts c) :
    Laid d (t :: ts) (.block t i c)

theorem Laid.length_eq (h : d.Laid ts c) : c.length = ts.length := by
  induction h with
  | nil => rfl
  | number _ _ ih => exact congrArg (· + 1) ih
  | value _ _ _ _ ih => exact congrArg (· + 1) ih
  | bound _ _ _ _ _ ih => exact congrArg (· + 1) ih
  | struct _ _ _ _ _ ih => exact congrArg (· + 1) ih

/-- What is there can be made, if the binders can write the defaults of their types. -/
theorem Typed.laid (h : d.Typed ts c) (hdefault : ∀ t b, d.style? t = some (.bound b) →
    ∀ data, (d.registry.type t).native?.bind HostType.default = some data →
      ∃ slots, b.write data = .ok slots) : d.Laid ts c := by
  induction h with
  | nil => exact .nil
  | number hp _ _ ih => exact .number hp ih
  | value ht hp hs _ ih => exact .value ht hp hs ih
  | bound hs hi hlength _ ih => exact .bound hs hi hlength (hdefault _ _ hs) ih
  | struct hs hl _ _ ihi ih => exact .struct hs (.of_known hl) ihi ih

theorem Laid.exists_style {i : Content} (h : d.Laid ts (.block t i c)) :
    ∃ s, d.style? t = some s := by
  cases h with
  | bound hs => exact ⟨_, hs⟩
  | struct hs => exact ⟨_, hs⟩

/-- Content that was laid out as its types say stays so while the domain grows. -/
theorem Laid.extends (h : d.Laid ts c) (hd : d.Extends d') : d'.Laid ts c := by
  induction h with
  | nil => exact .nil
  | number hp _ ih => exact .number (hd.registry.type_eq (lt_size_of_primitive hp) ▸ hp) ih
  | value ht hp hs _ ih =>
    exact .value (ht.trans_le hd.size_le) (hd.registry.type_eq ht ▸ hp) ((hd.style? ht).trans hs) ih
  | bound hs hi hlength hdefault _ ih =>
    have ht := lt_size_of_style? hs
    refine .bound ((hd.style? ht).trans hs) hi hlength ?_ ih
    rwa [hd.registry.type_eq ht]
  | struct hs hl _ _ ihi ih =>
    exact .struct ((hd.style? (lt_size_of_style? hs)).trans hs) (hl.extends hd.registry) ihi ih

end Domain

namespace Stack

/-- The second stack has blocks and entries that the first one does not have yet. Apart from their
slots only those in `A` are different. -/
structure Takes (A : Set Nat) (s s' : Stack) : Prop where
  size : s'.slots.size = s.slots.size
  top : s'.top = s.top
  low : s'.low ≤ s.low
  base : s'.base = s.base
  floor : s'.floor = s.floor
  slot : ∀ a ∉ A, (a < s'.low ∨ s.low ≤ a) → s'.slots[a]? = s.slots[a]?
  grows : s.managed.size ≤ s'.managed.size
  entry : ∀ i < s.managed.size, s'.managed[i]? = s.managed[i]?

namespace Takes

variable {A B : Set Nat} {s s' s'' : Stack}

theorem refl (A : Set Nat) (s : Stack) : Takes A s s :=
  ⟨rfl, rfl, Nat.le_refl _, rfl, rfl, fun _ _ _ ↦ rfl, Nat.le_refl _, fun _ _ ↦ rfl⟩

theorem mono (h : Takes A s s') (hA : A ⊆ B) : Takes B s s' :=
  { h with slot := fun a ha ↦ h.slot a fun h ↦ ha (hA h) }

/-- What is taken first is free for nobody else, and the rest is taken below it. -/
theorem trans (h : Takes A s s') (h' : Takes B s' s'')
    (hA : ∀ a ∈ A, a ∈ B ∨ (s''.low ≤ a ∧ a < s.low)) : Takes B s s'' where
  size := h'.size.trans h.size
  top := h'.top.trans h.top
  low := h'.low.trans h.low
  base := h'.base.trans h.base
  floor := h'.floor.trans h.floor
  slot a ha hout := by
    have hlow := h.low
    have hlow' := h'.low
    refine (h'.slot a ha (by omega)).trans (h.slot a (fun hA' ↦ ?_) (by omega))
    rcases hA a hA' with hB | ⟨hge, hlt⟩
    · exact ha hB
    · omega
  grows := h.grows.trans h'.grows
  entry i hi := (h'.entry i (hi.trans_le h.grows)).trans (h.entry i hi)

theorem of_within {E : Set Nat} (h : Within A E s s') (hE : ∀ i ∈ E, s.managed.size ≤ i) :
    Takes A s s' where
  size := h.size
  top := h.top
  low := h.low.le
  base := h.base
  floor := h.floor
  slot a ha _ := h.slot a ha
  grows := h.grows
  entry i hi := h.entry i hi fun hi' ↦ Nat.not_lt.mpr (hE i hi') hi

end Takes

theorem allocBlock_of_room {s : Stack} {n : Nat} (t : TypeId) (h : s.top + n + 1 ≤ s.low) :
    allocBlock t n s =
      .ok (s.low - 1)
        { s with slots := withBlock (s.low - 1) n t s.slots, low := s.low - 1 - n } := by
  unfold allocBlock
  rw [if_neg (Nat.not_lt.mpr h)]
  rfl

theorem takes_withBlock {s : Stack} {n : Nat} (t : TypeId) (hfit : s.low ≤ s.slots.size)
    (h : s.top + n + 1 ≤ s.low) :
    Takes ∅ s { s with slots := withBlock (s.low - 1) n t s.slots, low := s.low - 1 - n } where
  size := size_withBlock ..
  top := rfl
  low := by dsimp only; omega
  base := rfl
  floor := rfl
  slot a _ hout := by
    dsimp only at hout ⊢
    rw [getElem?_withBlock t (by omega) (by omega), if_neg (by omega), if_neg (by omega)]
  grows := Nat.le_refl _
  entry _ _ := rfl

end Stack

/-! ### The slots of bound structs -/

namespace Storage

/-- Fields that are their slots. -/
def plains : Nat → Storage
  | 0 => nil
  | n + 1 => plain (plains n)

theorem length_plains (n : Nat) : (plains n).length = n := by
  induction n with
  | zero => rfl
  | succ n ih => exact congrArg (· + 1) ih

theorem entries_plains (n : Nat) : (plains n).entries = [] := by
  induction n with
  | zero => rfl
  | succ n ih => exact ih

theorem mem_slots_plains {a n x : Nat} (hn : n ≤ a + 1) :
    x ∈ (plains n).slots a ↔ x ≤ a ∧ a < x + n := by
  induction n generalizing a with
  | zero => simp [plains, slots]
  | succ n ih =>
    rw [plains, slots, List.mem_cons]
    by_cases ha : a = 0
    · obtain rfl : n = 0 := by omega
      simp [plains, slots]
      omega
    · rw [ih (by omega)]
      omega

theorem owning_plains {c : Content} (h : c.Numeric) : (plains c.length).Owning c := by
  induction c with
  | nil => exact .nil
  | number x c ih => exact .number (ih h)
  | _ => cases h

theorem distinct_plains {a n : Nat} (hn : n ≤ a + 1) : (plains n).Distinct a := by
  refine ⟨?_, by rw [entries_plains]; exact .nil⟩
  induction n generalizing a with
  | zero => exact .nil
  | succ n ih =>
    refine List.nodup_cons.mpr ⟨?_, ?_⟩
    · by_cases ha : a = 0
      · obtain rfl : n = 0 := by omega
        exact List.not_mem_nil
      · rw [mem_slots_plains (by omega)]
        omega
    · by_cases ha : a = 0
      · obtain rfl : n = 0 := by omega
        exact .nil
      · exact ih (by omega)

end Storage

/-- The fields of a bound struct that was reset: what the binder writes for the default of the type,
or zeros if it has none. -/
def Domain.Resets (d : Domain) (b : StructBinder) (t : TypeId) (slots : List Slot) : Prop :=
  (∃ data, (d.registry.type t).native?.bind HostType.default = some data ∧
    b.write data = .ok slots) ∨
  (d.registry.type t).native?.bind HostType.default = none ∧ slots = b.fields.map Slot.zero

theorem Domain.Resets.unique {d : Domain} {b : StructBinder} {t : TypeId} {slots slots' : List Slot}
    (h : d.Resets b t slots) (h' : d.Resets b t slots') : slots' = slots := by
  rcases h with ⟨data, hdata, hwrite⟩ | ⟨hnone, rfl⟩ <;>
    rcases h' with ⟨data', hdata', hwrite'⟩ | ⟨hnone', rfl⟩
  · obtain rfl := Option.some.inj (hdata.symm.trans hdata')
    exact Except.ok.inj (hwrite'.symm.trans hwrite)
  · cases hdata.symm.trans hnone'
  · cases hnone.symm.trans hdata'
  · rfl

namespace Engine

open Stack

variable {r : Running} {fuel : Nat} {t : TypeId}

theorem succeeds_setSlot {a : Nat} (x : Slot) (ha : a < r.stack.slots.size) :
    Succeeds (Running.onStack (Stack.setSlot a x)) r fun _ r' ↦
      r' = r.withStack { r.stack with slots := r.stack.slots.setIfInBounds a x } :=
  .of_stack (setSlot_of_lt ha) rfl

/-- By induction on the slots, the first one at `d - 1 - k`. -/
theorem succeeds_writeSlots {d k : Nat} {slots : List Slot}
    (hslots : ∀ s ∈ slots, s.Bare) (ha : d - 1 - k < r.stack.slots.size)
    (hn : slots.length ≤ d - 1 - k + 1) :
    Succeeds ((slots.zipIdx k).forM fun p ↦ Running.onStack (Stack.setSlot (d - 1 - p.2) p.1)) r
      fun _ r' ↦ r'.domain = r.domain ∧ r'.stack.managed = r.stack.managed ∧
        r'.stack.Stored (d - 1 - k) (.plains slots.length) (.ofSlots slots) ∧
        r.stack.Within {x | x ∈ (Storage.plains slots.length).slots (d - 1 - k)} ∅ r'.stack := by
  induction slots generalizing k r with
  | nil => exact .pure ⟨rfl, rfl, .nil, .refl _ _ _⟩
  | cons x slots ih =>
    obtain ⟨hx, hslots⟩ := List.forall_mem_cons.mp hslots
    refine .forM_cons ((succeeds_setSlot x ha).imp fun _ r₁ h ↦ ?_)
    subst h
    rw [List.length_cons] at hn
    have hfit : slots.length ≤ d - 1 - (k + 1) + 1 := by omega
    refine (ih hslots (by simpa using by omega) hfit).imp
      fun _ r' ⟨hdomain, hmanaged, hstored, hwithin⟩ ↦ ?_
    have hfirst : d - 1 - k ∉ (Storage.plains slots.length).slots (d - 1 - k - 1) :=
      (List.nodup_cons.mp (Storage.distinct_plains (n := slots.length + 1) hn).slots).1
    have hslot : r'.stack.slots[d - 1 - k]? = some x :=
      (hwithin.slot _ hfirst).trans (Array.getElem?_setIfInBounds_self_of_lt ha)
    refine ⟨hdomain, hmanaged, ?_, ?_⟩
    · exact .number hslot hx hstored
    · refine (Within.setSlot _ x _).mono ?_ (subset_refl _) |>.trans
        (hwithin.mono ?_ (subset_refl _))
        fun _ h ↦ h.elim
      · exact Set.singleton_subset_iff.mpr List.mem_cons_self
      · exact fun y hy ↦ List.mem_cons_of_mem _ hy

theorem succeeds_writeFields {d : Nat} {slots : List Slot}
    (hslots : ∀ s ∈ slots, s.Bare) (hd : d < r.stack.slots.size)
    (hn : slots.length ≤ d) :
    Succeeds (writeFields d slots) r fun _ r' ↦ r'.domain = r.domain ∧
      r'.stack.managed = r.stack.managed ∧
      r'.stack.Stored (d - 1) (.plains slots.length) (.ofSlots slots) ∧
      r.stack.Within {x | x ∈ (Storage.plains slots.length).slots (d - 1)} ∅ r'.stack :=
  succeeds_writeSlots (k := 0) hslots (by omega) (by omega)

/-- A bound struct gets the slots that its binder writes for the default of the type, one for each
field. -/
theorem succeeds_resetBound {b : StructBinder} {d : Nat} (hd : d < r.stack.slots.size)
    (hn : b.fields.length ≤ d)
    (hdefault : ∀ data, (r.domain.registry.type t).native?.bind HostType.default = some data →
      ∃ slots, b.write data = .ok slots) :
    Succeeds (resetBound b t d) r fun _ r' ↦ ∃ slots : List Slot, slots.length = b.fields.length ∧
      r.domain.Resets b t slots ∧ r'.domain = r.domain ∧ r'.stack.managed = r.stack.managed ∧
      r'.stack.Stored (d - 1) (.plains b.fields.length) (.ofSlots slots) ∧
      r.stack.Within {x | x ∈ (Storage.plains b.fields.length).slots (d - 1)} ∅ r'.stack := by
  have hzero : ∀ s ∈ b.fields.map Slot.zero, s.Bare := by
    simp only [List.mem_map]
    rintro s ⟨p, -, rfl⟩
    exact Slot.zero_numeric p
  have hlength : (b.fields.map Slot.zero).length = b.fields.length := List.length_map ..
  unfold resetBound
  refine (succeeds_writeFields hzero hd (hlength ▸ hn)).bind
    fun _ r₁ ⟨hdomain, hmanaged, hstored, hwithin⟩ ↦ ?_
  rw [hlength] at hstored hwithin
  refine .bind_ok (a := r₁.domain.registry.type t) (t := r₁) rfl ?_
  rw [hdomain]
  cases hdata : (r.domain.registry.type t).native?.bind HostType.default with
  | none => exact .pure ⟨_, hlength, .inr ⟨hdata, rfl⟩, hdomain, hmanaged, hstored, hwithin⟩
  | some data =>
    obtain ⟨slots, hwrite⟩ := hdefault data hdata
    have hcount := b.length_write hwrite
    refine .bind_ok (a := slots) (t := r₁) (by rw [hwrite]; rfl) ?_
    refine (succeeds_writeFields (b.primitive_write hwrite) (hwithin.size ▸ hd)
      (hcount ▸ hn)).imp fun _ r' ⟨hdomain', hmanaged', hstored', hwithin'⟩ ↦ ?_
    rw [hcount] at hstored' hwithin'
    exact ⟨slots, hcount, .inl ⟨data, hdata, hwrite⟩, hdomain'.trans hdomain,
      hmanaged'.trans hmanaged, hstored',
      hwithin.trans hwithin' fun _ h ↦ h.elim⟩

end Engine

/-! ### Fresh fields -/

/-- The fields own the entries from `n` up to `m`, in the order of the fields. -/
structure Storage.Numbered (st : Storage) (c : Content) (n m : Nat) : Prop where
  owning : st.Owning c
  entries : st.entries = List.range' n (m - n)
  le : n ≤ m

namespace Storage.Numbered

variable {st rest : Storage} {c d : Content} {n k m : Nat}

theorem of_owning (h : st.Owning c) (hentries : st.entries = []) : st.Numbered c n n :=
  ⟨h, by rw [hentries, Nat.sub_self, List.range'_zero], Nat.le_refl n⟩

/-- The entries of the fields are counted through, from field to field. -/
theorem append (h : st.Numbered c n k) (h' : rest.Numbered d k m) :
    (st ++ rest).Numbered (c ++ d) n m where
  owning := h.owning.append h'.owning
  entries := by
    have hle := h.le
    have hle' := h'.le
    have hlast : k = n + (k - n) := by omega
    have hcount : m - n = (k - n) + (m - k) := by omega
    rw [entries_append, h.entries, h'.entries, hcount, ← List.range'_append_1, ← hlast]
  le := h.le.trans h'.le

end Storage.Numbered

/-- What making fields leaves in the slots from `a` down: fields that own new entries and new
blocks. -/
structure Fresh (r r' : Running) (a : Nat) (st : Storage) (c : Content) : Prop where
  stored : r'.stack.Stored a st c
  slots : ∀ x ∈ st.slots a, (x ≤ a ∧ a < x + st.length) ∨ (r'.stack.low ≤ x ∧ x < r.stack.low)
  entries : ∀ i ∈ st.entries, r.stack.managed.size ≤ i
  distinct : st.Distinct a
  takes : r.stack.Takes {x | x ≤ a ∧ a < x + st.length} r'.stack
  low : r'.stack.low + c.nested = r.stack.low
  grown : r.domain.Grown r'.domain
  numbered : st.Numbered c r.stack.managed.size r'.stack.managed.size

namespace Fresh

open Stack

variable {r r₁ r' : Running} {a : Nat} {first st : Storage} {c f : Content}

theorem nil : Fresh r r a .nil .nil where
  stored := .nil
  slots _ h := nomatch h
  entries _ h := nomatch h
  distinct := ⟨.nil, .nil⟩
  takes := .refl _ _
  low := rfl
  grown := .refl _
  numbered := .of_owning .nil rfl

/-- One field that is no block. -/
theorem leaf {o : Option Nat} (hstored : r'.stack.Stored a (.field o .nil) c)
    (hwithin : r.stack.Within {a} ∅ r'.stack)
    (hown : ∀ i, o = some i → r.stack.managed.size ≤ i) (hnested : c.nested = 0)
    (hgrown : r.domain.Grown r'.domain)
    (hnumbered : (Storage.field o .nil).Numbered c r.stack.managed.size r'.stack.managed.size) :
    Fresh r r' a (.field o .nil) c where
  stored := hstored
  slots x hx := by
    obtain rfl : x = a := by simpa [Storage.slots] using hx
    simp [Storage.length]
  entries i hi := hown i (by simpa [Storage.entries] using hi)
  distinct := ⟨by simp [Storage.slots], by cases o <;> simp [Storage.entries]⟩
  takes := (Takes.of_within hwithin fun _ h ↦ h.elim).mono fun x hx ↦ by
    obtain rfl : x = a := hx
    simp [Storage.length]
  low := by rw [hnested, hwithin.low, Nat.add_zero]
  grown := hgrown
  numbered := hnumbered

/-- The first field is made, and then the others. -/
theorem cons (h : Fresh r r₁ a first f) (h' : Fresh r₁ r' (a - 1) st c) (hone : first.length = 1)
    (hroom : r.stack.low + st.length ≤ a) : Fresh r r' a (first ++ st) (f ++ c) := by
  have hlow := h.takes.low
  have hlow' := h'.takes.low
  constructor
  case stored =>
    refine (h.stored.congr (fun x hx ↦ h'.takes.slot x ?_ ?_) fun i hi ↦ ?_).append
      (hone.symm ▸ h'.stored)
    · have hx := h.slots x hx
      simp only [Set.mem_ofPred_eq]
      omega
    · have hx := h.slots x hx
      omega
    · exact h'.takes.entry i (h.stored.lt_managed i hi)
  case slots =>
    intro x hx
    rw [Storage.slots_append, hone, List.mem_append] at hx
    rw [Storage.length_append]
    rcases hx with hx | hx
    · have hx := h.slots x hx
      omega
    · have hx := h'.slots x hx
      omega
  case entries =>
    intro i hi
    rw [Storage.entries_append, List.mem_append] at hi
    exact hi.elim (h.entries i) fun hi ↦ h.takes.grows.trans (h'.entries i hi)
  case distinct =>
    constructor
    · rw [Storage.slots_append, hone, List.nodup_append]
      refine ⟨h.distinct.slots, h'.distinct.slots, ?_⟩
      rintro x hx _ hx' rfl
      have hx := h.slots x hx
      have hx' := h'.slots x hx'
      omega
    · rw [Storage.entries_append, List.nodup_append]
      refine ⟨h.distinct.entries, h'.distinct.entries, ?_⟩
      rintro i hi _ hi' rfl
      exact Nat.not_lt.mpr (h'.entries i hi') (h.stored.lt_managed i hi)
  case takes =>
    refine h.takes.trans (h'.takes.mono fun x hx ↦ ?_) fun x hx ↦ .inl ?_
    · simp only [Set.mem_ofPred_eq, Storage.length_append] at hx ⊢
      omega
    · simp only [Set.mem_ofPred_eq, Storage.length_append] at hx ⊢
      omega
  case low =>
    have hnested := h.low
    have hnested' := h'.low
    rw [Content.nested_append]
    omega
  case grown => exact h.grown.trans h'.grown
  case numbered => exact h.numbered.append h'.numbered

end Fresh

/-! ### New blocks -/

/-- What making a struct leaves: a block with header `d` in the free slots, with fields that own new
entries. -/
structure FreshBlock (r r' : Running) (t : TypeId) (d : Nat) (st : Storage) (c : Content) :
    Prop where
  header : r'.stack.slots[d]? = some (.header t st.length)
  stored : r'.stack.Stored (d - 1) st c
  here : d + 1 = r.stack.low
  slots : ∀ x ∈ st.slots (d - 1), r'.stack.low ≤ x ∧ x < d
  entries : ∀ i ∈ st.entries, r.stack.managed.size ≤ i
  distinct : st.Distinct (d - 1)
  takes : r.stack.Takes ∅ r'.stack
  low : r'.stack.low + (1 + c.length + c.nested) = r.stack.low
  grown : r.domain.Grown r'.domain

/-- The machine after a block of null fields was set up. -/
def Running.withBlock (r : Running) (t : TypeId) (n : Nat) : Running :=
  r.withStack { r.stack with
    slots := Stack.withBlock (r.stack.low - 1) n t r.stack.slots
    low := r.stack.low - 1 - n }

namespace FreshBlock

open Stack

variable {r r' : Running} {t : TypeId} {n : Nat} {st : Storage} {c : Content}

/-- The fields are made in the block that was set up for them. -/
theorem of_fresh (h : Fresh (r.withBlock t n) r' (r.stack.low - 1 - 1) st c) (hn : st.length = n)
    (hfit : r.stack.low ≤ r.stack.slots.size) (hroom : r.stack.top + n + 1 ≤ r.stack.low) :
    FreshBlock r r' t (r.stack.low - 1) st c := by
  have hlow : r'.stack.low + c.nested = r.stack.low - 1 - n := h.low
  have hcount := h.stored.length_eq
  have hempty : r.stack.Takes ∅ (r.withBlock t n).stack := takes_withBlock t hfit hroom
  constructor
  case header =>
    refine (h.takes.slot _ ?_ (.inr (Nat.sub_le _ _))).trans ?_
    · simp only [Set.mem_ofPred_eq]
      omega
    · exact (getElem?_withBlock t (by omega) (by omega) _).trans (by rw [if_pos rfl, hn])
  case stored => exact h.stored
  case here => omega
  case slots =>
    intro x hx
    have hx : _ ∨ _ ∧ x < r.stack.low - 1 - n := h.slots x hx
    omega
  case entries => exact h.entries
  case distinct => exact h.distinct
  case takes =>
    have hfields := hempty.trans h.takes nofun
    refine { hfields with slot := fun a _ hout ↦ hfields.slot a ?_ hout }
    simp only [Set.mem_ofPred_eq]
    omega
  case low => omega
  case grown => exact h.grown

/-- Before the block is set up only the domain may grow. -/
theorem after {r₁ : Running} {d : Nat} (h : FreshBlock r₁ r' t d st c) (hstack : r₁.stack = r.stack)
    (hgrown : r.domain.Grown r₁.domain) : FreshBlock r r' t d st c where
  header := h.header
  stored := h.stored
  here := hstack ▸ h.here
  slots := h.slots
  entries := hstack ▸ h.entries
  distinct := h.distinct
  takes := hstack ▸ h.takes
  low := hstack ▸ h.low
  grown := hgrown.trans h.grown

/-- The block becomes that of a field. -/
theorem field {d a : Nat} (h : FreshBlock r r' t d st c)
    (hnumbered : st.Numbered c r.stack.managed.size r'.stack.managed.size)
    (ha : a < r.stack.slots.size) (hlow : r.stack.low ≤ a) : Fresh r (r'.withStack { r'.stack with
      slots := r'.stack.slots.setIfInBounds a (.block d) }) a (.block d st .nil)
      (.block t c .nil) := by
  have hhere := h.here
  have hsize : a < r'.stack.slots.size := h.takes.size ▸ ha
  have hset := Within.setSlot a (.block d) r'.stack
  have hout : ∀ x ∈ d :: st.slots (d - 1), r'.stack.low ≤ x ∧ x < r.stack.low := by
    have hroom := h.low
    refine List.forall_mem_cons.mpr ⟨by omega, fun x hx ↦ ?_⟩
    have hx := h.slots x hx
    omega
  have hne : ∀ x ∈ d :: st.slots (d - 1), x ∉ ({a} : Set Nat) := fun x hx hxa ↦ by
    have hx := hout x hx
    obtain rfl : x = a := hxa
    omega
  obtain ⟨hd, hslots⟩ := List.forall_mem_cons.mp hne
  constructor
  case stored =>
    refine .block (Array.getElem?_setIfInBounds_self_of_lt hsize) ((hset.slot d hd).trans h.header)
      ?_ .nil
    exact h.stored.within hset hslots fun _ _ h ↦ h
  case slots =>
    intro x hx
    rw [Storage.slots, Storage.slots, List.append_nil, List.mem_cons] at hx
    rcases hx with rfl | hx
    · exact .inl ⟨Nat.le_refl _, by simp [Storage.length]⟩
    · exact .inr (hout x hx)
  case entries => simpa [Storage.entries] using h.entries
  case distinct =>
    have hself : d ∉ st.slots (d - 1) := fun hd ↦ (h.slots d hd).2.false
    refine ⟨?_, by simpa [Storage.entries] using h.distinct.entries⟩
    rw [Storage.slots, Storage.slots, List.append_nil]
    refine List.nodup_cons.mpr ⟨fun ha ↦ ?_, List.nodup_cons.mpr ⟨hself, h.distinct.slots⟩⟩
    exact hne a ha rfl
  case takes =>
    refine h.takes.trans ((Takes.of_within hset fun _ h ↦ h.elim).mono fun x hx ↦ ?_)
      fun _ h ↦ h.elim
    obtain rfl : x = a := hx
    simp [Storage.length]
  case low =>
    have hroom := h.low
    simp only [Content.nested, Running.withStack_stack]
    omega
  case grown => exact h.grown
  case numbered =>
    refine ⟨.block hnumbered.owning .nil, ?_, hnumbered.le⟩
    rw [Storage.entries, Storage.entries, List.append_nil]
    exact hnumbered.entries

end FreshBlock

namespace Engine

open Stack

variable {fuel : Nat} {t : TypeId} {d : Domain}

theorem eventually_inlineKind {l : FieldLayout} (hs : d.style? t = some .fields)
    (hl : d.registry.Lays t l) : ∀ᶠ fuel in Filter.atTop, ∀ r : Running, d.Extends r.domain →
      Succeeds (inlineKind fuel t) r fun k r' ↦ k = some (.struct l) ∧ r'.stack = r.stack ∧
        r.domain.Grown r'.domain ∧ r'.domain.registry.facts.layouts[t]? = some l := by
  filter_upwards [hl] with fuel hfuel r hr
  obtain ⟨registry, hlayout⟩ := hfuel _ hr.registry
  have hrun : inlineKind fuel t r =
      .ok (some (.struct l)) (r.withDomain { r.domain with registry }) := by
    rw [inlineKind_eq, (hr.style? (Domain.lt_size_of_style? hs)).trans hs]
    refine bind_of_ok (Running.onDomain_ok ?_)
    simp only [Domain.inRegistry, hlayout]
  have hextends : Registry.Extends _ registry := (Registry.grows_layout fuel t).ok hlayout
  exact .of_ok hrun ⟨rfl, rfl, ⟨⟨rfl, rfl, hextends⟩, Nat.le_refl _, fun _ _ ↦ rfl⟩,
    Registry.layouts_of_layout hlayout⟩

/-! ### Fields that are no blocks -/

/-- A struct without fields of its own and without a binder is data of the host. -/
theorem native?_of_style? (hs : d.style? t = none) (hstruct : (d.registry.type t).isStruct = true)
    (hp : (d.registry.type t).primitive? = none) : ∃ type, (d.registry.type t).native? =
    some type := by
  have hplain : (d.registry.type t).isInterpreted = false := by
    by_contra hinterpreted
    rw [Bool.not_eq_false] at hinterpreted
    simp only [Domain.style?, hstruct, hp, hinterpreted, if_true] at hs
    cases hbinder : d.bindings.binder? (d.registry.type t).name <;> simp [hbinder] at hs
  cases hnative : (d.registry.type t).native? with
  | some type => exact ⟨type, rfl⟩
  | none =>
    have htypeDef : (d.registry.type t).typeDef? = none := by
      rw [Descriptor.isInterpreted] at hplain
      rw [Descriptor.typeDef?]
      split
      · next heq =>
        rw [heq] at hplain
        cases hplain
      · rfl
    rw [Descriptor.isStruct, hnative, htypeDef] at hstruct
    cases hstruct

/-- The default of a host struct is a new object, or null. -/
theorem succeeds_defaultValue (fuel : Nat) (hs : d.style? t = none)
    (hstruct : (d.registry.type t).isStruct = true)
    (hp : (d.registry.type t).primitive? = none) :
    Succeeds (Domain.defaultValue (fuel + 1) t) d fun _ d' ↦ d.Allocates d' := by
  obtain ⟨type, hnative⟩ := native?_of_style? hs hstruct hp
  have hask : Domain.ask (fun d ↦ d.registry.type t) d = .ok (d.registry.type t) d := rfl
  unfold Domain.defaultValue
  refine .bind_ok hask ?_
  simp only [hp, hstruct, hnative]
  cases type.default with
  | none => exact .pure (.refl d)
  | some data => exact (Domain.succeeds_allocate d _).bind fun _ _ h ↦ .pure h.1

variable {r : Running} {alloc : TypeId → RunM Nat} {a : Nat}

theorem succeeds_freshNumber {p : Primitive} (hp : (r.domain.registry.type t).primitive? = some p)
    (ha : a < r.stack.slots.size) :
    Succeeds (freshSlot alloc fuel t >>= fun x ↦ Running.onStack (Stack.setSlot a x)) r
      fun _ r' ↦ ∃ st c, r'.domain.Typed [t] c ∧ c.form = .number .null .nil ∧
      Fresh r r' a st c := by
  have hslot : (freshSlot alloc fuel t) r = .ok (.zero p) r := by
    unfold freshSlot
    refine (bind_of_ok (descriptor_ok t r)).trans ?_
    simp only [hp]
    rfl
  refine .bind_ok hslot ((succeeds_setSlot _ ha).imp ?_)
  rintro _ _ rfl
  have hself := Array.getElem?_setIfInBounds_self_of_lt (a := Slot.zero p) ha
  exact ⟨_, .number (.zero p) .nil, .number hp rfl .nil, rfl,
    .leaf (o := none) (.number hself (Slot.zero_numeric p) .nil) (.setSlot a _ _) nofun rfl
      (.refl _)
      (.of_owning (.number .nil) rfl)⟩

/-- The slot gets an entry of its own. -/
theorem succeeds_freshValue (ht : t.index < r.domain.registry.types.size)
    (hp : (r.domain.registry.type t).primitive? = none) (hs : r.domain.style? t = none)
    (ha : a < r.stack.slots.size) :
    Succeeds (freshSlot alloc (fuel + 1) t >>= fun x ↦ Running.onStack (Stack.setSlot a x)) r
      fun _ r' ↦ ∃ st c, r'.domain.Typed [t] c ∧ c.form = .value .null .nil ∧
      Fresh r r' a st c := by
  have hinline : isInline (fuel + 1) t r = .ok false r := by
    unfold isInline
    refine bind_of_ok (a := none) (t := r) ?_
    rw [inlineKind_eq, hs]
  obtain ⟨v, d', hallocates, hslot⟩ : ∃ v d', r.domain.Allocates d' ∧
      freshSlot alloc (fuel + 1) t r = .ok (.object r.stack.managed.size)
        ((r.withDomain d').withStack { r.stack with managed := r.stack.managed.push v }) := by
    unfold freshSlot
    by_cases hstruct : (r.domain.registry.type t).isStruct = true
    · obtain ⟨v, d', hv, hallocates⟩ := succeeds_defaultValue fuel hs hstruct hp
      refine ⟨v, d', hallocates, (bind_of_ok (descriptor_ok t r)).trans ?_⟩
      simp only [hp]
      refine (bind_of_ok hinline).trans ?_
      simp only [hstruct, Bool.false_eq_true, if_false, if_true]
      exact (bind_of_ok (Running.onDomain_ok hv)).trans (bind_of_ok (Running.onStack_ok rfl))
    · refine ⟨.null, r.domain, .refl _, (bind_of_ok (descriptor_ok t r)).trans ?_⟩
      simp only [hp]
      refine (bind_of_ok hinline).trans ?_
      simp only [hstruct, Bool.false_eq_true, if_false]
      exact (bind_of_ok (a := Value.null) (t := r) rfl).trans (bind_of_ok (Running.onStack_ok rfl))
  let r₂ := (r.withDomain d').withStack { r.stack with managed := r.stack.managed.push v }
  refine .bind_ok hslot ((succeeds_setSlot (r := r₂) _ ha).imp ?_)
  rintro _ _ rfl
  have hwithin := Within.trans (E := ∅) ((Within.pushEntry v r.stack).mono (Set.empty_subset {a})
    (subset_refl _)) (Within.setSlot a (.object r.stack.managed.size) r₂.stack) fun _ h ↦ h.elim
  have htyped := (Domain.Typed.value (v := v) ht hp hs .nil).extends hallocates.extends
  have hone : [r.stack.managed.size] =
      List.range' r.stack.managed.size ((r.stack.managed.push v).size - r.stack.managed.size) := by
    rw [Array.size_push, Nat.add_sub_cancel_left, List.range'_one]
  exact ⟨_, .value v .nil, htyped, rfl,
    .leaf (o := some _) (.entry (Array.getElem?_setIfInBounds_self_of_lt ha)
      Array.getElem?_push_size .nil) hwithin (fun _ h ↦ (Option.some.inj h).le) rfl hallocates.grown
      ⟨.value .nil, hone, hwithin.grows⟩⟩

/-! ### Fields of all kinds -/

/-- Fields of the types can be made where there is room for them. -/
def AllocatesFields (d : Domain) (ts : List TypeId) (c : Content) (fuel : Nat) : Prop :=
  ∀ (r : Running) (fs : List Field) (b k : Nat), fs.map Field.type = ts → d.Extends r.domain →
    b - 1 - k < r.stack.slots.size → r.stack.low + ts.length ≤ b - 1 - k + 1 →
    r.stack.top + c.nested ≤ r.stack.low →
    Succeeds ((fs.zipIdx k).forM fun p ↦ freshSlot (allocInline fuel) fuel p.1.type >>= fun x ↦
      Running.onStack (Stack.setSlot (b - 1 - p.2) x)) r fun _ r' ↦ ∃ st c',
        r'.domain.Typed ts c' ∧ c'.form = c.form ∧ Fresh r r' (b - 1 - k) st c'

/-- A struct of the type can be made where there is room for it. -/
def AllocatesBlock (d : Domain) (t : TypeId) (i : Content) (fuel : Nat) : Prop :=
  ∀ r : Running, d.Extends r.domain → r.stack.low ≤ r.stack.slots.size →
    r.stack.top + (1 + i.length + i.nested) ≤ r.stack.low →
    Succeeds (allocInline fuel t) r fun b r' ↦ ∃ st c',
      r'.domain.Typed [t] (.block t c' .nil) ∧ c'.form = i.form ∧ FreshBlock r r' t b st c' ∧
      st.Numbered c' r.stack.managed.size r'.stack.managed.size

variable {i : Content}

theorem eventually_pred {P : Nat → Prop} (h : ∀ᶠ n in Filter.atTop, P n) :
    ∀ᶠ n in Filter.atTop, ∃ m, n = m + 1 ∧ P m := by
  filter_upwards [(Filter.tendsto_sub_atTop_nat 1).eventually h, Filter.eventually_gt_atTop 0]
    with n hn hpos
  exact ⟨n - 1, by omega, hn⟩

/-- A block of a bound struct: a header, and below it the slots of the binder. -/
theorem eventually_allocBound {b : StructBinder} (hs : d.style? t = some (.bound b))
    (hi : i.Numeric) (hlength : i.length = b.fields.length)
    (hdefault : ∀ data, (d.registry.type t).native?.bind HostType.default = some data →
      ∃ slots, b.write data = .ok slots) :
    ∀ᶠ fuel in Filter.atTop, AllocatesBlock d t i fuel := by
  filter_upwards [Filter.eventually_gt_atTop 0] with fuel hpos r hr hfit hroom
  obtain ⟨fuel, rfl⟩ := Nat.exists_eq_add_of_le' hpos
  rw [hi.nested_eq, hlength] at hroom
  have ht := Domain.lt_size_of_style? hs
  have hkind : inlineKind fuel t r = .ok (some (.bound b)) r := by
    rw [inlineKind_eq, (hr.style? ht).trans hs]
  have halloc := allocBlock_of_room (s := r.stack) (n := b.fields.length) t (by omega)
  unfold allocInline
  refine .bind_ok hkind ?_
  dsimp only
  refine .bind_ok (t := r.withBlock t b.fields.length) (Running.onStack_ok halloc) ?_
  have hsize : (r.withBlock t b.fields.length).stack.slots.size = r.stack.slots.size :=
    size_withBlock ..
  refine (succeeds_resetBound (d := r.stack.low - 1) (by omega) (by omega) ?_).bind
    fun _ r' ⟨slots, hcount, _, hdomain, hmanaged, hstored, hwithin⟩ ↦ .pure ?_
  · rw [← hr.registry.type_eq ht] at hdefault
    exact hdefault
  have hnumeric := Content.numeric_ofSlots slots
  have hcount' : (Content.ofSlots slots).length = b.fields.length :=
    (Content.length_ofSlots slots).trans hcount
  have hnumbered : (Storage.plains b.fields.length).Numbered (.ofSlots slots)
      r.stack.managed.size r'.stack.managed.size := by
    rw [hmanaged, ← hcount']
    exact .of_owning (Storage.owning_plains hnumeric) (Storage.entries_plains _)
  refine ⟨.plains b.fields.length, .ofSlots slots, ?_, ?_, .of_fresh ?_
    (Storage.length_plains _) hfit (by omega), hnumbered⟩
  · refine .bound ?_ hnumeric hcount' .nil
    rw [hdomain]
    exact (hr.style? ht).trans hs
  · exact hi.form_eq hnumeric (hcount'.trans hlength.symm)
  · constructor
    case stored => exact hstored
    case slots =>
      intro x hx
      rw [Storage.length_plains]
      exact .inl ((Storage.mem_slots_plains (by omega)).mp hx)
    case entries => simp [Storage.entries_plains]
    case distinct => exact Storage.distinct_plains (by omega)
    case takes =>
      refine (Takes.of_within hwithin fun _ h ↦ h.elim).mono fun x hx ↦ ?_
      rw [Set.mem_ofPred_eq, Storage.length_plains]
      exact (Storage.mem_slots_plains (by omega)).mp hx
    case low => rw [hnumeric.nested_eq, hwithin.low, Nat.add_zero]
    case grown => exact hdomain ▸ .refl _
    case numbered => exact hnumbered

/-- A block of an interpreted struct: a header, its fields, and below them the blocks of its fields.
-/
theorem eventually_allocStruct {l : FieldLayout} (hs : d.style? t = some .fields)
    (hl : d.registry.Lays t l) (hlength : i.length = l.instance_.length)
    (hi : ∀ᶠ fuel in Filter.atTop, AllocatesFields d (l.instance_.map Field.type) i fuel) :
    ∀ᶠ fuel in Filter.atTop, AllocatesBlock d t i fuel := by
  filter_upwards [eventually_pred ((eventually_inlineKind hs hl).and hi)] with fuel hfuel r hr
    hfit hroom
  obtain ⟨fuel, rfl, hkind, hfields⟩ := hfuel
  have hcount : (l.instance_.map Field.type).length = l.instance_.length := List.length_map ..
  unfold allocInline
  refine (hkind r hr).bind ?_
  rintro _ r₁ ⟨rfl, hstack, hgrown, hknown⟩
  dsimp only
  have halloc :=
    allocBlock_of_room (s := r₁.stack) (n := l.instance_.length) t (by rw [hstack]; omega)
  refine .bind_ok (t := r₁.withBlock t l.instance_.length) (Running.onStack_ok halloc) ?_
  have hsize : (r₁.withBlock t l.instance_.length).stack.slots.size = r.stack.slots.size := by
    rw [← hstack]
    exact size_withBlock ..
  have hlow : (r₁.withBlock t l.instance_.length).stack.low =
      r.stack.low - 1 - l.instance_.length := by
    rw [← hstack]
    rfl
  have htop : (r₁.withBlock t l.instance_.length).stack.top = r.stack.top := by
    rw [← hstack]
    rfl
  refine (hfields (r₁.withBlock t l.instance_.length) l.instance_ (r₁.stack.low - 1) 0 rfl
    (hr.trans hgrown.toExtends) ?_ ?_ ?_).bind fun _ r' ⟨st, c', htyped, hform, hfresh⟩ ↦ .pure ?_
  · rw [hsize, hstack]
    omega
  · rw [hlow, hcount, hstack]
    omega
  · rw [hlow, htop]
    omega
  have hcount' : st.length = l.instance_.length := by
    rw [hfresh.stored.length_eq, ← c'.length_form, hform, i.length_form, hlength]
  refine ⟨st, c', ?_, hform, (FreshBlock.of_fresh hfresh hcount' (by rwa [hstack])
    (by rw [hstack]; omega)).after hstack hgrown, hstack ▸ hfresh.numbered⟩
  have hextends := hgrown.toExtends.trans hfresh.grown.toExtends
  exact .struct (((hr.trans hextends).style? (Domain.lt_size_of_style? hs)).trans hs)
    (hfresh.grown.registry.layouts _ _ hknown) htyped .nil

/-- A field of the type can be made where there is room for it. -/
def AllocatesField (d : Domain) (t : TypeId) (f : Content) (fuel : Nat) : Prop :=
  ∀ (r : Running) (a : Nat), d.Extends r.domain → a < r.stack.slots.size → r.stack.low ≤ a →
    r.stack.top + f.nested ≤ r.stack.low →
    Succeeds (freshSlot (allocInline fuel) fuel t >>= fun x ↦ Running.onStack (Stack.setSlot a x)) r
      fun _ r' ↦ ∃ st f', r'.domain.Typed [t] f' ∧ f'.form = f.form ∧ Fresh r r' a st f'

theorem allocatesField_number {p : Primitive} {x : Slot}
    (hp : (d.registry.type t).primitive? = some p) :
    AllocatesField d t (.number x .nil) fuel := fun _ _ hr ha _ _ ↦
  succeeds_freshNumber (hr.registry.type_eq (Domain.lt_size_of_primitive hp) ▸ hp) ha

theorem allocatesField_value {v : Value} (ht : t.index < d.registry.types.size)
    (hp : (d.registry.type t).primitive? = none) (hs : d.style? t = none) (hfuel : 0 < fuel) :
    AllocatesField d t (.value v .nil) fuel := by
  intro r a hr ha _ _
  obtain ⟨fuel, rfl⟩ := Nat.exists_eq_add_of_le' hfuel
  exact succeeds_freshValue (ht.trans_le hr.size_le) (hr.registry.type_eq ht ▸ hp)
    ((hr.style? ht).trans hs) ha

/-- A field whose type is a struct is one slot with the address of a block. -/
theorem allocatesField_block {s : Domain.Style} (hs : d.style? t = some s)
    (hinline : ∀ r : Running, d.Extends r.domain → Succeeds (inlineKind fuel t) r fun k r' ↦
      k.isSome = true ∧ r'.stack = r.stack ∧ r.domain.Grown r'.domain)
    (h : AllocatesBlock d t i fuel) : AllocatesField d t (.block t i .nil) fuel := by
  intro r a hr ha hlow hroom
  have ht := Domain.lt_size_of_style? hs
  have hp : (r.domain.registry.type t).primitive? = none := by
    rw [hr.registry.type_eq ht]
    exact (Domain.isStruct_of_style? hs).2
  obtain ⟨k, r₁, hkind, hk, hstack, hgrown⟩ := hinline r hr
  have hisInline : isInline fuel t r = .ok true r₁ := (bind_of_ok hkind).trans (by rw [hk]; rfl)
  have hblock := h r₁ (hr.trans hgrown.toExtends) (hstack ▸ hlow.trans ha.le) (hstack ▸ hroom)
  obtain ⟨b, r₂, halloc, st, c', htyped, hform, hfresh, hnumbered⟩ := hblock
  have hslot : freshSlot (allocInline fuel) fuel t r = .ok (.block b) r₂ := by
    unfold freshSlot
    refine (bind_of_ok (descriptor_ok t r)).trans ?_
    simp only [hp]
    refine (bind_of_ok hisInline).trans ?_
    exact bind_of_ok halloc
  have hfresh := hfresh.after hstack hgrown
  refine .bind_ok hslot ((succeeds_setSlot _ (hfresh.takes.size ▸ ha)).imp ?_)
  rintro _ _ rfl
  refine ⟨_, _, htyped, ?_, hfresh.field (hstack ▸ hnumbered) ha hlow⟩
  rw [Content.form, Content.form, Content.form, Content.form, hform]

/-- The first field is made, and then the others. -/
theorem AllocatesFields.cons {f c : Content} {ts : List TypeId} (h : AllocatesField d t f fuel)
    (h' : AllocatesFields d ts c fuel) : AllocatesFields d (t :: ts) (f ++ c) fuel := by
  intro r fs b k hfs hr ha hroom htop
  obtain ⟨field, fs, rfl, rfl, hfields⟩ := List.map_eq_cons_iff.mp hfs
  rw [List.length_cons] at hroom
  rw [Content.nested_append] at htop
  refine .forM_cons ((h r (b - 1 - k) hr ha (by omega) (by omega)).imp
    fun _ r₁ ⟨st, f', htyped, hform, hfresh⟩ ↦ ?_)
  have hnested : f'.nested = f.nested := by rw [← f'.nested_form, hform, f.nested_form]
  have hlow := hfresh.low
  have htop' := hfresh.takes.top
  have hsize := hfresh.takes.size
  refine (h' r₁ fs b (k + 1) hfields (hr.trans hfresh.grown.toExtends) (by omega) (by omega)
    (by omega)).imp fun _ r' ⟨st', c', htyped', hform', hfresh'⟩ ↦ ?_
  have hone : st.length = 1 := hfresh.stored.length_eq.trans htyped.length_eq
  have hcount : st'.length = ts.length := hfresh'.stored.length_eq.trans htyped'.length_eq
  refine ⟨st ++ st', f' ++ c', ?_, ?_, hfresh.cons hfresh' hone (by omega)⟩
  · exact (htyped.extends hfresh'.grown.toExtends).append htyped'
  · rw [Content.form_append, Content.form_append, hform, hform']

/-- By induction on the types. A field that is a struct is made below the blocks that are there. -/
theorem eventually_allocFields {ts : List TypeId} {c : Content} (h : d.Laid ts c) :
    ∀ᶠ fuel in Filter.atTop, AllocatesFields d ts c fuel := by
  induction h with
  | nil =>
    refine .of_forall fun fuel r fs b k hfs _ _ _ _ ↦ ?_
    obtain rfl := List.map_eq_nil_iff.mp hfs
    exact .pure ⟨.nil, .nil, .nil, rfl, .nil⟩
  | @number t p x ts c hp _ ih =>
    filter_upwards [ih] with fuel hrest
    exact .cons (f := .number x .nil) (allocatesField_number hp) hrest
  | @value t v ts c ht hp hs _ ih =>
    filter_upwards [ih, Filter.eventually_gt_atTop 0] with fuel hrest hpos
    exact .cons (f := .value v .nil) (allocatesField_value ht hp hs hpos) hrest
  | @bound t b i ts c hs hi hlength hdefault _ ih =>
    filter_upwards [ih, eventually_allocBound hs hi hlength hdefault] with fuel hrest hblock
    refine .cons (f := .block t i .nil) (allocatesField_block hs (fun r hr ↦ ?_) hblock) hrest
    refine .of_ok (a := some (.bound b)) (t := r) ?_ ⟨rfl, rfl, .refl _⟩
    rw [inlineKind_eq, (hr.style? (Domain.lt_size_of_style? hs)).trans hs]
  | @struct t l i ts c hs hl hi _ ihi ih =>
    have hlength : i.length = l.instance_.length := hi.length_eq.trans (List.length_map ..)
    filter_upwards [ih, eventually_allocStruct hs hl hlength ihi, eventually_inlineKind hs hl]
      with fuel hrest hblock hkind
    refine .cons (f := .block t i .nil) (allocatesField_block hs (fun r hr ↦ ?_) hblock) hrest
    refine (hkind r hr).imp ?_
    rintro _ r₁ ⟨rfl, hstack, hgrown, -⟩
    exact ⟨rfl, hstack, hgrown⟩

/-- A struct of a type is made with enough fuel wherever there is room for it. -/
theorem eventually_allocInline (h : d.Laid [t] (.block t i .nil)) :
    ∀ᶠ fuel in Filter.atTop, AllocatesBlock d t i fuel := by
  cases h with
  | bound hs hi hlength hdefault _ => exact eventually_allocBound hs hi hlength hdefault
  | struct hs hl hi _ =>
    exact eventually_allocStruct hs hl (hi.length_eq.trans (List.length_map ..))
      (eventually_allocFields hi)

end Engine

end ManagedMachine
