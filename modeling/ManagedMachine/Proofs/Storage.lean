import ManagedMachine.Proofs.DomainGrowth
import ManagedMachine.Proofs.Succeeding

/-!
# Storage of structs

The fields of a struct on the stack lie below its header, and each of them is a slot with a number,
a slot with a managed entry, or a slot that points at another block. `Storage` says where the parts
of a block are, `Content` what they hold, and `Stack.Stored` that a stack has the one at the other.
What changes only slots and entries that some storage does not have leaves what is stored there as
it was; this is how a write to one struct is seen not to touch another.
-/

set_option autoImplicit false
set_option relaxedAutoImplicit false

namespace ManagedMachine

/-! ### Where fields are and what they hold -/

/-- Where the fields of a block are kept, the first one first. -/
inductive Storage where
  | nil
  /-- The field is its slot. -/
  | plain (rest : Storage)
  | entry (i : Nat) (rest : Storage)
  | block (header : Nat) (inner rest : Storage)

/-- What the fields of a block hold, the first one first. -/
inductive Content where
  | nil
  /-- A number, or the null that stands for one. -/
  | number (x : Slot) (rest : Content)
  /-- A reference, or the object behind a host struct. -/
  | value (v : Value) (rest : Content)
  | block (type : TypeId) (inner rest : Content)

namespace Storage

/-- How many fields there are, those of nested blocks not counted. -/
def length : Storage → Nat
  | nil => 0
  | plain rest => rest.length + 1
  | entry _ rest => rest.length + 1
  | block _ _ rest => rest.length + 1

/-- A field with the entry that it owns, if it has one. -/
def field : Option Nat → Storage → Storage
  | none, rest => plain rest
  | some i, rest => entry i rest

/-- The slots in use, if the first field is at `a` and the others follow below. -/
def slots : Nat → Storage → List Nat
  | _, nil => []
  | a, plain rest => a :: rest.slots (a - 1)
  | a, entry _ rest => a :: rest.slots (a - 1)
  | a, block d inner rest => a :: (d :: inner.slots (d - 1)) ++ rest.slots (a - 1)

/-- The entries that the storage owns, in the order of the fields. -/
def entries : Storage → List Nat
  | nil => []
  | plain rest => rest.entries
  | entry i rest => i :: rest.entries
  | block _ inner rest => inner.entries ++ rest.entries

@[simp] theorem length_field (own : Option Nat) (st : Storage) :
    (field own st).length = st.length + 1 := by
  cases own <;> rfl

@[simp] theorem slots_field (a : Nat) (own : Option Nat) (st : Storage) :
    (field own st).slots a = a :: st.slots (a - 1) := by
  cases own <;> rfl

@[simp] theorem entries_field (own : Option Nat) (st : Storage) :
    (field own st).entries = own.toList ++ st.entries := by
  cases own <;> rfl

/-- The fields of the one and then those of the other. -/
def append : Storage → Storage → Storage
  | nil, st => st
  | plain rest, st => plain (rest.append st)
  | entry i rest, st => entry i (rest.append st)
  | block d inner rest, st => block d inner (rest.append st)

instance : Append Storage := ⟨append⟩

@[simp] theorem nil_append (st : Storage) : nil ++ st = st := rfl

@[simp] theorem plain_append (rest st : Storage) : plain rest ++ st = plain (rest ++ st) := rfl

@[simp] theorem entry_append (i : Nat) (rest st : Storage) :
    entry i rest ++ st = entry i (rest ++ st) := rfl

@[simp] theorem block_append (d : Nat) (inner rest st : Storage) :
    block d inner rest ++ st = block d inner (rest ++ st) := rfl

@[simp] theorem field_append (own : Option Nat) (rest st : Storage) :
    field own rest ++ st = field own (rest ++ st) := by
  cases own <;> rfl

@[simp] theorem length_append (st st' : Storage) : (st ++ st').length = st.length + st'.length := by
  induction st with
  | nil => simp [length]
  | plain rest ih => simp [length, ih, Nat.add_right_comm]
  | entry i rest ih => simp [length, ih, Nat.add_right_comm]
  | block d inner rest _ ih => simp [length, ih, Nat.add_right_comm]

theorem slots_append (a : Nat) (st st' : Storage) :
    (st ++ st').slots a = st.slots a ++ st'.slots (a - st.length) := by
  induction st generalizing a with
  | nil => rfl
  | plain rest ih => simp [slots, length, ih, Nat.sub_sub, Nat.add_comm]
  | entry i rest ih => simp [slots, length, ih, Nat.sub_sub, Nat.add_comm]
  | block d inner rest _ ih => simp [slots, length, ih, Nat.sub_sub, Nat.add_comm]

theorem entries_append (st st' : Storage) : (st ++ st').entries = st.entries ++ st'.entries := by
  induction st with
  | nil => rfl
  | plain rest ih => exact ih
  | entry i rest ih => simp [entries, ih]
  | block d inner rest _ ih => simp [entries, ih]

/-- No slot and no entry of the storage is used twice. -/
structure Distinct (a : Nat) (st : Storage) : Prop where
  slots : (st.slots a).Nodup
  entries : st.entries.Nodup

/-- The two have no slot and no entry in common. -/
structure Apart (a : Nat) (st : Storage) (b : Nat) (st' : Storage) : Prop where
  slots : ∀ x ∈ st.slots a, x ∉ st'.slots b
  entries : ∀ i ∈ st.entries, i ∉ st'.entries

variable {a b : Nat} {st st' rest rest' : Storage}

theorem Distinct.left (h : Distinct a (st ++ rest)) : Distinct a st where
  slots := (List.nodup_append.mp (slots_append a st rest ▸ h.slots)).1
  entries := (List.nodup_append.mp (entries_append st rest ▸ h.entries)).1

theorem Distinct.right (h : Distinct a (st ++ rest)) : Distinct (a - st.length) rest where
  slots := (List.nodup_append.mp (slots_append a st rest ▸ h.slots)).2.1
  entries := (List.nodup_append.mp (entries_append st rest ▸ h.entries)).2.1

theorem Distinct.apart (h : Distinct a (st ++ rest)) : Apart a st (a - st.length) rest where
  slots x hx hx' := (List.nodup_append.mp (slots_append a st rest ▸ h.slots)).2.2 x hx x hx' rfl
  entries i hi hi' :=
    (List.nodup_append.mp (entries_append st rest ▸ h.entries)).2.2 i hi i hi' rfl

theorem Apart.symm (h : Apart a st b st') : Apart b st' a st :=
  ⟨fun x hx hx' ↦ h.slots x hx' hx, fun i hi hi' ↦ h.entries i hi' hi⟩

theorem Apart.left (h : Apart a (st ++ rest) b st') : Apart a st b st' where
  slots x hx := h.slots x (slots_append a st rest ▸ List.mem_append_left _ hx)
  entries i hi := h.entries i (entries_append st rest ▸ List.mem_append_left _ hi)

theorem Apart.right (h : Apart a (st ++ rest) b st') : Apart (a - st.length) rest b st' where
  slots x hx := h.slots x (slots_append a st rest ▸ List.mem_append_right _ hx)
  entries i hi := h.entries i (entries_append st rest ▸ List.mem_append_right _ hi)

theorem Distinct.inner {d : Nat} (h : Distinct a (block d st rest)) :
    Distinct (d - 1) st ∧ a ∉ st.slots (d - 1) ∧ d ∉ st.slots (d - 1) := by
  have happ : Distinct a (block d st nil ++ rest) := h
  obtain ⟨hslots, hentries⟩ := happ.left
  simp only [Storage.slots, List.append_nil, List.nodup_cons, List.mem_cons, not_or] at hslots
  simp only [Storage.entries, List.append_nil] at hentries
  exact ⟨⟨hslots.2.2, hentries⟩, hslots.1.2, hslots.2.1⟩

theorem Apart.inner {d e : Nat} (h : Apart a (block d st rest) b (block e st' rest')) :
    Apart (d - 1) st (e - 1) st' ∧ d ≠ e := by
  have happ : Apart a (block d st nil ++ rest) b (block e st' nil ++ rest') := h
  obtain ⟨hslots, hentries⟩ := happ.left.symm.left
  simp only [Storage.slots, List.append_nil, List.mem_cons, not_or] at hslots
  simp only [Storage.entries, List.append_nil] at hentries
  refine ⟨⟨fun x hx hx' ↦ ?_, fun i hi hi' ↦ hentries i hi' hi⟩, ?_⟩
  · exact (hslots x (.inr (.inr hx'))).2.2 hx
  · rintro rfl
    exact (hslots d (.inr (.inl rfl))).2.1 rfl

end Storage

namespace Content

/-- How many fields there are, those of nested structs not counted. -/
def length : Content → Nat
  | nil => 0
  | number _ rest => rest.length + 1
  | value _ rest => rest.length + 1
  | block _ _ rest => rest.length + 1

/-- How deep blocks are nested. -/
def depth : Content → Nat
  | nil => 0
  | number _ rest => rest.depth
  | value _ rest => rest.depth
  | block _ inner rest => max (inner.depth + 1) rest.depth

/-- The content up to what the fields that are no blocks hold. -/
def form : Content → Content
  | nil => nil
  | number _ rest => number .null rest.form
  | value _ rest => value .null rest.form
  | block t inner rest => block t inner.form rest.form

/-- All values satisfy `P`. -/
def All (P : Value → Prop) : Content → Prop
  | nil => True
  | number _ rest => rest.All P
  | value v rest => P v ∧ rest.All P
  | block _ inner rest => inner.All P ∧ rest.All P

/-- The second content is the first one with its values replaced as `R` says. -/
inductive Maps (R : Value → Value → Prop) : Content → Content → Prop
  | nil : Maps R nil nil
  | number {x : Slot} {c c' : Content} (h : Maps R c c') : Maps R (number x c) (number x c')
  | value {v v' : Value} {c c' : Content} (hv : R v v') (h : Maps R c c') :
    Maps R (value v c) (value v' c')
  | block {t : TypeId} {i i' c c' : Content} (hi : Maps R i i') (h : Maps R c c') :
    Maps R (block t i c) (block t i' c')

/-- The fields of two structs in a row. -/
def append : Content → Content → Content
  | nil, c => c
  | number x rest, c => number x (rest.append c)
  | value v rest, c => value v (rest.append c)
  | block t inner rest, c => block t inner (rest.append c)

instance : Append Content := ⟨append⟩

@[simp] theorem nil_append (c : Content) : nil ++ c = c := rfl

@[simp] theorem number_append (x : Slot) (rest c : Content) :
    number x rest ++ c = number x (rest ++ c) := rfl

@[simp] theorem value_append (v : Value) (rest c : Content) :
    value v rest ++ c = value v (rest ++ c) := rfl

@[simp] theorem block_append (t : TypeId) (inner rest c : Content) :
    block t inner rest ++ c = block t inner (rest ++ c) := rfl

variable {R R' : Value → Value → Prop} {P P' : Value → Prop} {c c' d d' : Content}

theorem Maps.append (h : Maps R c c') (h' : Maps R d d') : Maps R (c ++ d) (c' ++ d') := by
  induction h with
  | nil => exact h'
  | number _ ih => exact .number ih
  | value hv _ ih => exact .value hv ih
  | block hi _ _ ih => exact .block hi ih

theorem length_form (c : Content) : c.form.length = c.length := by
  induction c with
  | nil => rfl
  | number _ _ ih => rw [form, length, length, ih]
  | value _ _ ih => rw [form, length, length, ih]
  | block _ _ _ _ ih => rw [form, length, length, ih]

theorem Maps.imp (h : Maps R c c') (hR : ∀ v v', R v v' → R' v v') : Maps R' c c' := by
  induction h with
  | nil => exact .nil
  | number _ ih => exact .number ih
  | value hv _ ih => exact .value (hR _ _ hv) ih
  | block _ _ ihi ih => exact .block ihi ih

theorem Maps.form_eq (h : Maps R c c') : c'.form = c.form := by
  induction h with
  | nil => rfl
  | number _ ih => rw [form, form, ih]
  | value _ _ ih => rw [form, form, ih]
  | block _ _ ihi ih => rw [form, form, ihi, ih]

/-- What held before may be used of every value that is replaced. -/
theorem Maps.imp_of_all (h : Maps R c c') (hc : c.All P) (hR : ∀ v v', P v → R v v' → R' v v') :
    Maps R' c c' := by
  induction h with
  | nil => exact .nil
  | number _ ih => exact .number (ih hc)
  | value hv _ ih => exact .value (hR _ _ hc.1 hv) (ih hc.2)
  | block _ _ ihi ih => exact .block (ihi hc.1) (ih hc.2)

theorem All.imp (h : c.All P) (hP : ∀ v, P v → P' v) : c.All P' := by
  induction c with
  | nil => trivial
  | number _ _ ih => exact ih h
  | value _ _ ih => exact ⟨hP _ h.1, ih h.2⟩
  | block _ _ _ ihi ih => exact ⟨ihi h.1, ih h.2⟩

theorem Maps.all (h : Maps R c c') (hc : c.All P) (hR : ∀ v v', P v → R v v' → P' v') :
    c'.All P' := by
  induction h with
  | nil => trivial
  | number _ ih => exact ih hc
  | value hv _ ih => exact ⟨hR _ _ hc.1 hv, ih hc.2⟩
  | block _ _ ihi ih => exact ⟨ihi hc.1, ih hc.2⟩

end Content

namespace Storage

/-- Every field that is neither a number nor a block has an entry of its own. -/
inductive Owning : Storage → Content → Prop
  | nil : Owning nil .nil
  | number {x : Slot} {st : Storage} {c : Content} (h : Owning st c) : Owning (plain st)
      (.number x c)
  | value {i : Nat} {v : Value} {st : Storage} {c : Content} (h : Owning st c) :
    Owning (entry i st) (.value v c)
  | block {d : Nat} {t : TypeId} {inner st : Storage} {i c : Content} (hi : Owning inner i)
    (h : Owning st c) : Owning (block d inner st) (.block t i c)

variable {st rest : Storage} {c c' d : Content}

theorem Owning.append (h : st.Owning c) (h' : rest.Owning d) : (st ++ rest).Owning (c ++ d) := by
  induction h with
  | nil => exact h'
  | number _ ih => exact .number ih
  | value _ ih => exact .value ih
  | block hi _ _ ih => exact .block hi ih

/-- What owns its entries does so in both of its parts. -/
theorem Owning.of_append (hlength : st.length = c.length) (h : (st ++ rest).Owning (c ++ d)) :
    st.Owning c ∧ rest.Owning d := by
  induction st generalizing c with
  | nil =>
    cases c with
    | nil => exact ⟨.nil, h⟩
    | _ => cases hlength
  | plain st ih =>
    cases c with
    | number x c =>
      cases h with
      | number h => exact (ih (Nat.succ.inj hlength) h).imp_left .number
    | nil => cases hlength
    | _ => cases h
  | entry i st ih =>
    cases c with
    | value v c =>
      cases h with
      | value h => exact (ih (Nat.succ.inj hlength) h).imp_left .value
    | nil => cases hlength
    | _ => cases h
  | block e inner st _ ih =>
    cases c with
    | block t i c =>
      cases h with
      | block hi h => exact (ih (Nat.succ.inj hlength) h).imp_left (.block hi)
    | nil => cases hlength
    | _ => cases h

end Storage

/-! ### What a stack stores -/

/-- The slot owns nothing and leads nowhere. -/
abbrev Slot.Bare (x : Slot) : Prop := x = .null ∨ x.isNumeric = true

namespace Stack

/-- The fields from the slot `a` down hold the content where the storage says. -/
inductive Stored (s : Stack) : Nat → Storage → Content → Prop
  | nil {a : Nat} : Stored s a .nil .nil
  | number {a : Nat} {x : Slot} {st : Storage} {c : Content} (hslot : s.slots[a]? = some x)
    (hx : x.Bare) (hrest : Stored s (a - 1) st c) : Stored s a (.plain st) (.number x c)
  | null {a : Nat} {st : Storage} {c : Content} (hslot : s.slots[a]? = some .null)
    (hrest : Stored s (a - 1) st c) : Stored s a (.plain st) (.value .null c)
  | entry {a i : Nat} {v : Value} {st : Storage} {c : Content}
    (hslot : s.slots[a]? = some (.object i)) (hentry : s.managed[i]? = some v)
    (hrest : Stored s (a - 1) st c) : Stored s a (.entry i st) (.value v c)
  | block {a d : Nat} {t : TypeId} {inner st : Storage} {i c : Content}
    (hslot : s.slots[a]? = some (.block d)) (hheader : s.slots[d]? = some (.header t inner.length))
    (hinner : Stored s (d - 1) inner i) (hrest : Stored s (a - 1) st c) :
    Stored s a (.block d inner st) (.block t i c)

/-- The second stack differs from the first one at most in the slots `A` and the entries `E`, and it
may have more entries. -/
structure Within (A E : Set Nat) (s s' : Stack) : Prop where
  size : s'.slots.size = s.slots.size
  top : s'.top = s.top
  low : s'.low = s.low
  base : s'.base = s.base
  floor : s'.floor = s.floor
  slot : ∀ a ∉ A, s'.slots[a]? = s.slots[a]?
  grows : s.managed.size ≤ s'.managed.size
  entry : ∀ i < s.managed.size, i ∉ E → s'.managed[i]? = s.managed[i]?

variable {s s' s'' : Stack} {A A' B E E' F : Set Nat} {a i : Nat} {st : Storage} {c : Content}

namespace Within

theorem refl (A E : Set Nat) (s : Stack) : Within A E s s :=
  ⟨rfl, rfl, rfl, rfl, rfl, fun _ _ ↦ rfl, Nat.le_refl _, fun _ _ _ ↦ rfl⟩

theorem mono (h : Within A E s s') (hA : A ⊆ B) (hE : E ⊆ F) : Within B F s s' :=
  { h with
    slot := fun a ha ↦ h.slot a fun h ↦ ha (hA h)
    entry := fun i hi hF ↦ h.entry i hi fun h ↦ hF (hE h) }

/-- The entries that were added first may change afterwards. -/
theorem trans (h : Within A E s s') (h' : Within A F s' s'')
    (hF : ∀ i ∈ F, i ∈ E ∨ s.managed.size ≤ i) : Within A E s s'' where
  size := h'.size.trans h.size
  top := h'.top.trans h.top
  low := h'.low.trans h.low
  base := h'.base.trans h.base
  floor := h'.floor.trans h.floor
  slot a ha := (h'.slot a ha).trans (h.slot a ha)
  grows := h.grows.trans h'.grows
  entry i hi hE := by
    refine (h'.entry i (hi.trans_le h.grows) fun hF' ↦ ?_).trans (h.entry i hi hE)
    rcases hF i hF' with hE' | hnew
    · exact hE hE'
    · omega

/-- A slot that is written is the one place that changes. -/
theorem setSlot (a : Nat) (x : Slot) (s : Stack) :
    Within {a} ∅ s { s with slots := s.slots.setIfInBounds a x } where
  size := Array.size_setIfInBounds
  top := rfl
  low := rfl
  base := rfl
  floor := rfl
  slot _ hb := Array.getElem?_setIfInBounds_ne fun h ↦ hb h.symm
  grows := Nat.le_refl _
  entry _ _ _ := rfl

/-- The same of an entry. -/
theorem setEntry (i : Nat) (v : Value) (s : Stack) :
    Within ∅ {i} s { s with managed := s.managed.setIfInBounds i v } where
  size := rfl
  top := rfl
  low := rfl
  base := rfl
  floor := rfl
  slot _ _ := rfl
  grows := Array.size_setIfInBounds.ge
  entry _ _ hj := Array.getElem?_setIfInBounds_ne fun h ↦ hj h.symm

/-- A new entry changes none that were there. -/
theorem pushEntry (v : Value) (s : Stack) :
    Within ∅ ∅ s { s with managed := s.managed.push v } where
  size := rfl
  top := rfl
  low := rfl
  base := rfl
  floor := rfl
  slot _ _ := rfl
  grows := by simp
  entry j hj _ := Array.getElem?_push_lt hj ▸ (Array.getElem?_eq_getElem hj).symm

end Within

namespace Stored

theorem length_eq (h : s.Stored a st c) : st.length = c.length := by
  induction h with
  | nil => rfl
  | number _ _ _ ih => exact congrArg (· + 1) ih
  | null _ _ ih => exact congrArg (· + 1) ih
  | entry _ _ _ ih => exact congrArg (· + 1) ih
  | block _ _ _ _ _ ih => exact congrArg (· + 1) ih

/-- Entries of what is stored are in the table. -/
theorem lt_managed (h : s.Stored a st c) : ∀ i ∈ st.entries, i < s.managed.size := by
  induction h with
  | nil => exact fun _ h ↦ nomatch h
  | number _ _ _ ih => exact ih
  | null _ _ ih => exact ih
  | entry _ hentry _ ih =>
    refine List.forall_mem_cons.mpr ⟨?_, ih⟩
    exact (Array.getElem?_eq_some_iff.mp hentry).1
  | block _ _ _ _ ihi ih =>
    exact fun i hi ↦ (List.mem_append.mp hi).elim (ihi i) (ih i)

/-- What is stored depends on the slots and the entries of the storage alone. -/
theorem congr (h : s.Stored a st c) (hslot : ∀ x ∈ st.slots a, s'.slots[x]? = s.slots[x]?)
    (hentry : ∀ i ∈ st.entries, s'.managed[i]? = s.managed[i]?) : s'.Stored a st c := by
  induction h with
  | nil => exact .nil
  | number hnumber hx _ ih =>
    obtain ⟨ha, hrest⟩ := List.forall_mem_cons.mp hslot
    exact .number (ha.trans hnumber) hx (ih hrest hentry)
  | null hnull _ ih =>
    obtain ⟨ha, hrest⟩ := List.forall_mem_cons.mp hslot
    exact .null (ha.trans hnull) (ih hrest hentry)
  | entry hobject hvalue _ ih =>
    obtain ⟨ha, hrest⟩ := List.forall_mem_cons.mp hslot
    obtain ⟨hi, hentries⟩ := List.forall_mem_cons.mp hentry
    exact .entry (ha.trans hobject) (hi.trans hvalue) (ih hrest hentries)
  | block hblock hheader _ _ ihi ih =>
    obtain ⟨ha, hrest⟩ := List.forall_mem_cons.mp hslot
    obtain ⟨hinner, hrest⟩ := List.forall_mem_append.mp hrest
    obtain ⟨hd, hinner⟩ := List.forall_mem_cons.mp hinner
    obtain ⟨hentries, hentries'⟩ := List.forall_mem_append.mp hentry
    exact .block (ha.trans hblock) (hd.trans hheader) (ihi hinner hentries) (ih hrest hentries')

/-- Changes elsewhere do not show. -/
theorem within (h : s.Stored a st c) (hw : Within A E s s') (hA : ∀ x ∈ st.slots a, x ∉ A)
    (hE : ∀ i ∈ st.entries, i ∉ E) : s'.Stored a st c :=
  h.congr (fun x hx ↦ hw.slot x (hA x hx)) fun i hi ↦ hw.entry i (h.lt_managed i hi) (hE i hi)

/-- A field that is no block, with what is in its slot. -/
structure Leaf (s : Stack) (a : Nat) (y : Slot) (own : Option Nat) : Prop where
  slot : s.slots[a]? = some y
  notBlock : ∀ d, y ≠ .block d
  owns : ∀ i, y = .object i ↔ own = some i
  lt : ∀ i, own = some i → i < s.managed.size

theorem Leaf.of_bare {x : Slot} (hslot : s.slots[a]? = some x) (hx : x.Bare) : Leaf s a x none := by
  refine ⟨hslot, ?_, fun i ↦ ⟨?_, nofun⟩, nofun⟩
  · rintro d rfl
    rcases hx with hx | hx <;> cases hx
  · rintro rfl
    rcases hx with hx | hx <;> cases hx

theorem exists_number (h : s.Stored a st c) {f : Content} (hform : c.form = .number .null f) :
    ∃ y st' c', st = .plain st' ∧ c'.form = f ∧ Leaf s a y none ∧ s.Stored (a - 1) st' c' := by
  cases h with
  | nil => cases hform
  | @number _ x st c hslot hx hrest =>
    exact ⟨x, st, c, rfl, by injection hform, .of_bare hslot hx, hrest⟩
  | null => cases hform
  | entry => cases hform
  | block => cases hform

theorem exists_leaf (h : s.Stored a st c) {f : Content} (hform : c.form = .value .null f) :
    ∃ y own st' c', st = .field own st' ∧ c'.form = f ∧ Leaf s a y own ∧
      s.Stored (a - 1) st' c' := by
  cases h with
  | nil => cases hform
  | number => cases hform
  | @null _ st c hslot hrest =>
    exact ⟨.null, none, st, c, rfl, by injection hform, .of_bare hslot (.inl rfl), hrest⟩
  | @entry _ i v st c hslot hentry hrest =>
    refine ⟨.object i, some i, st, c, rfl, by injection hform, ⟨hslot, nofun, by simp, ?_⟩, hrest⟩
    rintro _ ⟨⟩
    exact (Array.getElem?_eq_some_iff.mp hentry).1
  | block => cases hform

/-- Rows of fields that lie next to each other are one row. -/
theorem append {st' : Storage} {c' : Content} (h : s.Stored a st c)
    (h' : s.Stored (a - st.length) st' c') : s.Stored a (st ++ st') (c ++ c') := by
  induction h with
  | nil => exact h'
  | @number a x st c hslot hx _ ih =>
    exact .number hslot hx (ih (by rwa [Nat.sub_sub, Nat.add_comm]))
  | @null a st c hslot _ ih => exact .null hslot (ih (by rwa [Nat.sub_sub, Nat.add_comm]))
  | @entry a i v st c hslot hentry _ ih =>
    exact .entry hslot hentry (ih (by rwa [Nat.sub_sub, Nat.add_comm]))
  | @block a d t inner st i c hslot hheader hinner _ _ ih =>
    exact .block hslot hheader hinner (ih (by rwa [Nat.sub_sub, Nat.add_comm]))

theorem exists_block (h : s.Stored a st c) {t : TypeId} {i f : Content}
    (hform : c.form = .block t i f) : ∃ d inner st' i' c', st = .block d inner st' ∧
      i'.form = i ∧ c'.form = f ∧ s.slots[a]? = some (.block d) ∧
      s.slots[d]? = some (.header t inner.length) ∧ s.Stored (d - 1) inner i' ∧
      s.Stored (a - 1) st' c' := by
  cases h with
  | nil => cases hform
  | number => cases hform
  | null => cases hform
  | entry => cases hform
  | @block _ d t' inner st i' c' hslot hheader hinner hrest =>
    injection hform with ht hi hf
    subst ht
    exact ⟨d, inner, st, i', c', rfl, hi, hf, hslot, hheader, hinner, hrest⟩

end Stored

/-- What one field that is no block holds: its slot, or the entry that it owns. -/
def Keeps (s : Stack) (a : Nat) (v : Value) : Option Nat → Prop
  | none => v = .null ∧ s.slots[a]? = some .null
  | some i => s.slots[a]? = some (.object i) ∧ s.managed[i]? = some v

theorem Stored.exists_keeps {v : Value} (h : s.Stored a st (.value v c)) :
    ∃ own st', st = .field own st' ∧ s.Keeps a v own ∧ s.Stored (a - 1) st' c := by
  cases h with
  | null hslot hrest => exact ⟨none, _, rfl, ⟨rfl, hslot⟩, hrest⟩
  | entry hslot hentry hrest => exact ⟨some _, _, rfl, ⟨hslot, hentry⟩, hrest⟩

theorem Keeps.leaf {v : Value} : {own : Option Nat} → s.Keeps a v own →
    ∃ y, Stored.Leaf s a y own
  | none, ⟨_, hslot⟩ => ⟨.null, .of_bare hslot (.inl rfl)⟩
  | some i, ⟨hslot, hentry⟩ => by
    refine ⟨.object i, hslot, nofun, by simp, ?_⟩
    rintro _ ⟨⟩
    exact (Array.getElem?_eq_some_iff.mp hentry).1

theorem Stored.keep {v : Value} : {own : Option Nat} → s.Keeps a v own → s.Stored (a - 1) st c →
    s.Stored a (.field own st) (.value v c)
  | none, ⟨hv, hslot⟩, h => hv ▸ .null hslot h
  | some _, ⟨hslot, hentry⟩, h => .entry hslot hentry h

end Stack

end ManagedMachine
