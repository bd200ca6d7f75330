import ManagedMachine.Proofs.Headers
import ManagedMachine.Proofs.StructTypes

/-!
# Blocks with the blocks in them

A struct with structs in its fields is a tree of blocks: every field is a plain slot or points at a
block of its own. The engine makes such a tree from its root on, and each block below the one before
it, so the whole tree fills one range of addresses without a gap. `Running.Tiles` is that
arrangement for a row of fields, and `Running.Whole d low` for the block with header `d`, whose
storage is then the range from `low` to `d` (`Whole.holds_iff`) and whose lowest address is `low`
(`Whole.blockLow_eq`).

Trees depend on nothing but the outline of the slots, that is on the headers and on the slots that
point at blocks. Whatever is stored in the plain fields leaves them as they are.

Both predicates are defined by recursion on the number of slots that are left, and that is what the
inductions here follow (`Tiles.le`, `Tiles.cons`). That a tree depends on outlines only is said once
(`Tree.congr`, `Whole.congr`), and everything that writes to fields goes through it.
-/

set_option autoImplicit false
set_option relaxedAutoImplicit false

namespace ManagedMachine

/-! ### Outlines -/

namespace Slot

/-- What a slot has to do with blocks: the block that it points at, the header that it is, or
nothing. -/
def outline : Slot → Slot
  | block d => block d
  | header t n => header t n
  | _ => null

variable {s : Slot} {d n : Nat} {t : TypeId}

theorem outline_eq_block : s.outline = .block d ↔ s = .block d := by
  cases s <;> simp [outline]

theorem outline_eq_header : s.outline = .header t n ↔ s = .header t n := by
  cases s <;> simp [outline]

theorem outline_of_isSimple (h : s.isSimple = true) : s.outline = .null := by
  cases s <;> simp_all [isSimple, outline]

theorem outline_of_ne (hblock : ∀ d, s ≠ .block d) (hheader : ∀ t n, s ≠ .header t n) :
    s.outline = .null := by
  cases s with
  | block d => exact absurd rfl (hblock d)
  | header t n => exact absurd rfl (hheader t n)
  | _ => rfl

theorem isHeader_of_outline (h : s.outline = .null) : s.isHeader = false := by
  cases s <;> simp_all [isHeader, outline]

end Slot

namespace Stack

/-- What a tree depends on, at one address. -/
def outline? (s : Stack) (a : Nat) : Option Slot := s.slots[a]?.map Slot.outline

/-- The slot is no header and points at no block. -/
def Plain (s : Stack) (a : Nat) : Prop := ∀ x ∈ s.outline? a, x = .null

variable {s : Stack} {a d n : Nat} {t : TypeId}

theorem outline?_eq_block : s.outline? a = some (.block d) ↔ s.slots[a]? = some (.block d) := by
  simp [outline?, Option.map_eq_some_iff, Slot.outline_eq_block]

theorem outline?_eq_header :
    s.outline? a = some (.header t n) ↔ s.slots[a]? = some (.header t n) := by
  simp [outline?, Option.map_eq_some_iff, Slot.outline_eq_header]

theorem outline?_of_some {x : Slot} (h : s.slots[a]? = some x) :
    s.outline? a = some x.outline := by
  rw [outline?, h, Option.map_some]

/-- A slot that points at a block is no header. -/
theorem ne_of_block {b e : Nat} (he : s.slots[b]? = some (.block e))
    (hd : s.slots[d]? = some (.header t n)) : b ≠ d := by
  rintro rfl
  cases he.symm.trans hd

theorem Plain.of_null (h : s.outline? a = some .null) : s.Plain a :=
  fun _ hx ↦ (Option.some.inj (h.symm.trans hx)).symm

theorem Plain.outline_eq {x : Slot} (h : s.Plain a) (hx : s.slots[a]? = some x) :
    x.outline = .null := h _ (outline?_of_some hx)

/-- The address lies in the block with header `d` or in a block that a field of it points at. -/
inductive Holds (s : Stack) : Nat → Nat → Prop
  | own {d n a : Nat} {t : TypeId} (hd : s.slots[d]? = some (.header t n)) (hlow : d - n ≤ a)
      (ha : a ≤ d) : Holds s d a
  | nested {d n b e a : Nat} {t : TypeId} (hd : s.slots[d]? = some (.header t n)) (hlow : d - n ≤ b)
      (hb : b < d) (he : s.slots[b]? = some (.block e)) (ha : Holds s e a) : Holds s d a

end Stack

/-! ### Trees -/

/-- Structs of the type are bound to host data, so none of their fields is a struct. -/
def Domain.IsBound (d : Domain) (t : TypeId) : Prop := ∃ b, d.style? t = some (.bound b)

namespace Running

/-- The `n` fields from `a` downwards are plain or point at blocks. These blocks and those in them
fill the addresses from `low` to the one before `high`, the block of the first field at the upper
end. -/
inductive Tiles (r : Running) : (a n high low : Nat) → Prop
  | nil {a high : Nat} : Tiles r a 0 high high
  | plain {a n high low : Nat} (ha : r.stack.outline? a = some .null)
      (hrest : Tiles r (a - 1) n high low) : Tiles r a (n + 1) high low
  | block {a n e m mid low : Nat} {t : TypeId} (ha : r.stack.slots[a]? = some (.block e))
      (he : r.stack.slots[e]? = some (.header t m)) (hm : m ≤ e)
      (hbound : r.domain.IsBound t → mid = e - m) (hinner : Tiles r (e - 1) m (e - m) mid)
      (hrest : Tiles r (a - 1) n mid low) : Tiles r a (n + 1) (e + 1) low

/-- The block with header `d` and the blocks in it fill the addresses from `low` to `d`. -/
structure Tree (r : Running) (t : TypeId) (n d low : Nat) : Prop where
  header : r.stack.slots[d]? = some (.header t n)
  room : n ≤ d
  bound : r.domain.IsBound t → low = d - n
  fields : r.Tiles (d - 1) n (d - n) low

/-- The block with this header is a tree whose lowest address is the given one. -/
def Whole (r : Running) (d low : Nat) : Prop := ∃ t n, r.Tree t n d low

variable {r r' : Running} {a n high mid low d e : Nat} {t : TypeId}

/-- A row of fields takes storage from its first field downwards. -/
theorem Tiles.le (h : r.Tiles a n high low) : low ≤ high := by
  induction h with
  | nil => exact Nat.le_refl _
  | plain ha hrest ih => exact ih
  | block ha he hm hbound hinner hrest ihinner ihrest => omega

theorem Tree.le (h : r.Tree t n d low) : low ≤ d - n := h.fields.le

theorem Whole.le (h : r.Whole d low) : low ≤ d := by
  obtain ⟨t, n, h⟩ := h
  exact h.le.trans (Nat.sub_le _ _)

/-- A field that points at a tree, and the row of the fields after it, is a row. -/
theorem Tiles.cons (ha : r.stack.slots[a]? = some (.block e)) (he : r.Whole e mid)
    (hrest : r.Tiles (a - 1) n mid low) : r.Tiles a (n + 1) (e + 1) low := by
  obtain ⟨t, m, he⟩ := he
  exact .block ha he.header he.room he.bound he.fields hrest

theorem Tiles.of_plain : {a n : Nat} → (∀ i < n, r.stack.outline? (a - i) = some .null) →
    r.Tiles a n high high
  | _, 0, _ => .nil
  | a, n + 1, h => .plain (h 0 (Nat.succ_pos n)) <| of_plain fun i hi ↦ by
      rw [Nat.sub_sub, Nat.add_comm 1]
      exact h (i + 1) (Nat.succ_lt_succ hi)

/-- A row of fields may be cut in two. -/
theorem Tiles.append {k : Nat} (h : r.Tiles a k high mid) (h' : r.Tiles (a - k) n mid low) :
    r.Tiles a (k + n) high low := by
  induction h with
  | nil => simpa using h'
  | @plain a k high mid ha hrest ih =>
    rw [Nat.add_right_comm]
    exact .plain ha (ih (by rwa [Nat.sub_sub, Nat.add_comm 1]))
  | @block a k e m mid' mid t ha he hm hbound hinner hrest ihinner ih =>
    rw [Nat.add_right_comm]
    exact .block ha he hm hbound hinner (ih (by rwa [Nat.sub_sub, Nat.add_comm 1]))

/-- The field at some position of a row. -/
theorem Tiles.field (h : r.Tiles a n high low) {i : Nat} (hi : i < n) :
    r.stack.outline? (a - i) = some .null ∨
      ∃ e low', r.stack.slots[a - i]? = some (.block e) ∧ r.Whole e low' ∧ low ≤ low' ∧
        e < high := by
  induction h generalizing i with
  | nil => exact absurd hi (Nat.not_lt_zero _)
  | plain ha hrest ih =>
    cases i with
    | zero => exact Or.inl ha
    | succ i =>
      have hfield := ih (Nat.lt_of_succ_lt_succ hi)
      rwa [Nat.sub_sub, Nat.add_comm 1] at hfield
  | @block a n e m mid low t ha he hm hbound hinner hrest ihinner ih =>
    have hinner_le := hinner.le
    have hrest_le := hrest.le
    cases i with
    | zero =>
      exact Or.inr ⟨e, mid, ha, ⟨t, m, he, hm, hbound, hinner⟩, hrest_le, Nat.lt_succ_self e⟩
    | succ i =>
      have hfield := ih (Nat.lt_of_succ_lt_succ hi)
      rw [Nat.sub_sub, Nat.add_comm 1] at hfield
      refine hfield.imp_right fun ⟨e', low', hslot, hwhole, hlow, he'⟩ ↦ ?_
      exact ⟨e', low', hslot, hwhole, hlow, by omega⟩

/-- A field of a block. -/
theorem Tree.field (h : r.Tree t n d low) {i : Nat} (hi : i < n) :
    r.stack.outline? (d - 1 - i) = some .null ∨
      ∃ e low', r.stack.slots[d - 1 - i]? = some (.block e) ∧ r.Whole e low' ∧ low ≤ low' ∧
        e < d - n := h.fields.field hi

theorem Tree.field_of_le (h : r.Tree t n d low) {b : Nat} (hlow : d - n ≤ b) (hb : b < d) :
    r.stack.outline? b = some .null ∨
      ∃ e low', r.stack.slots[b]? = some (.block e) ∧ r.Whole e low' ∧ low ≤ low' ∧ e < d - n := by
  have hroom := h.room
  have hfield := h.field (i := d - 1 - b) (by omega)
  rwa [show d - 1 - (d - 1 - b) = b by omega] at hfield

/-- A field of a block that points somewhere points at a block of its own. -/
theorem Tree.whole_of_field (h : r.Tree t n d low) {i : Nat} (hi : i < n)
    (he : r.stack.slots[d - 1 - i]? = some (.block e)) : ∃ low', r.Whole e low' := by
  rcases h.field hi with hplain | ⟨e', low', he', hwhole, -⟩
  · rw [Stack.outline?_of_some he] at hplain
    cases hplain
  · obtain rfl := Slot.block.inj (Option.some.inj (he.symm.trans he'))
    exact ⟨low', hwhole⟩

theorem Tree.plain_of_field (h : r.Tree t n d low) {i : Nat} (hi : i < n) {s : Slot}
    (hs : r.stack.slots[d - 1 - i]? = some s) (hno : ∀ e, s ≠ .block e) :
    r.stack.Plain (d - 1 - i) := by
  rcases h.field hi with hplain | ⟨e, -, he, -⟩
  · exact .of_null hplain
  · exact absurd (Option.some.inj (hs.symm.trans he)) (hno e)

/-- Fields that take no storage besides their own slots are plain. -/
theorem Tiles.plain_of_le (h : r.Tiles a n high low) (hle : high ≤ low) {i : Nat} (hi : i < n) :
    r.stack.outline? (a - i) = some .null := by
  refine (h.field hi).resolve_right ?_
  rintro ⟨e, low', -, hwhole, hlow, he⟩
  have hle' := hwhole.le
  omega

theorem Tree.plain_of_bound (h : r.Tree t n d low) (hbound : r.domain.IsBound t) {i : Nat}
    (hi : i < n) : r.stack.outline? (d - 1 - i) = some .null :=
  h.fields.plain_of_le (h.bound hbound).ge hi

/-! ### Trees and outlines -/

/-- No type of a header comes to be bound. -/
def BindsNoMore (r r' : Running) : Prop := ∀ ⦃d n : Nat⦄ ⦃t : TypeId⦄,
  r.stack.slots[d]? = some (.header t n) → r'.domain.IsBound t → r.domain.IsBound t

/-- Fields stay as they are where the outline does. -/
theorem Tiles.congr (hr : r.BindsNoMore r') (h : r.Tiles a n high low)
    (hfields : ∀ i < n, r'.stack.outline? (a - i) = r.stack.outline? (a - i))
    (hblocks : ∀ x, low ≤ x → x < high → r'.stack.outline? x = r.stack.outline? x) :
    r'.Tiles a n high low := by
  induction h with
  | nil => exact .nil
  | @plain a n high low ha hrest ih =>
    refine .plain ((hfields 0 (Nat.succ_pos _)).trans ha) (ih (fun i hi ↦ ?_) hblocks)
    rw [Nat.sub_sub, Nat.add_comm 1]
    exact hfields (i + 1) (Nat.succ_lt_succ hi)
  | @block a n e m mid low t ha he hm hbound hinner hrest ihinner ih =>
    have hinner_le := hinner.le
    have hrest_le := hrest.le
    have ha' : r'.stack.outline? a = some (.block e) :=
      (hfields 0 (Nat.succ_pos _)).trans (Stack.outline?_eq_block.mpr ha)
    have he' : r'.stack.outline? e = some (.header t m) :=
      (hblocks e (by omega) (Nat.lt_succ_self e)).trans (Stack.outline?_eq_header.mpr he)
    refine .block (Stack.outline?_eq_block.mp ha') (Stack.outline?_eq_header.mp he') hm
      (fun h ↦ hbound (hr he h)) (ihinner (fun i hi ↦ hblocks _ (by omega) (by omega))
        fun x hlow hx ↦ hblocks x (by omega) (by omega)) (ih (fun i hi ↦ ?_)
          fun x hlow hx ↦ hblocks x hlow (by omega))
    rw [Nat.sub_sub, Nat.add_comm 1]
    exact hfields (i + 1) (Nat.succ_lt_succ hi)

/-- A tree is found again wherever the outline of its storage is the same and no type has lost its
fields. -/
theorem Tree.congr (hr : r.BindsNoMore r') (h : r.Tree t n d low)
    (houtline : ∀ x, low ≤ x → x ≤ d → r'.stack.outline? x = r.stack.outline? x) :
    r'.Tree t n d low := by
  have hle := h.le
  have hroom := h.room
  have hheader : r'.stack.outline? d = some (.header t n) :=
    (houtline d (by omega) (Nat.le_refl d)).trans (Stack.outline?_eq_header.mpr h.header)
  exact ⟨Stack.outline?_eq_header.mp hheader, hroom, fun hb ↦ h.bound (hr h.header hb),
    h.fields.congr hr (fun i hi ↦ houtline _ (by omega) (by omega))
      fun x hlow hx ↦ houtline x hlow (by omega)⟩

theorem Whole.congr (hr : r.BindsNoMore r') (h : r.Whole d low)
    (houtline : ∀ x, low ≤ x → x ≤ d → r'.stack.outline? x = r.stack.outline? x) :
    r'.Whole d low := by
  obtain ⟨t, n, h⟩ := h
  exact ⟨t, n, h.congr hr houtline⟩

/-! ### Storage -/

/-- The blocks of a row of fields hold the addresses that the row fills. -/
theorem Tiles.exists_holds (h : r.Tiles a n high low) {x : Nat} (hlow : low ≤ x) (hx : x < high) :
    ∃ i < n, ∃ e, r.stack.slots[a - i]? = some (.block e) ∧ r.stack.Holds e x := by
  induction h with
  | nil => exact absurd hx (Nat.not_lt_of_le hlow)
  | plain ha hrest ih =>
    obtain ⟨i, hi, e, hslot, hholds⟩ := ih hlow hx
    rw [Nat.sub_sub, Nat.add_comm 1] at hslot
    exact ⟨i + 1, Nat.succ_lt_succ hi, e, hslot, hholds⟩
  | @block a n e m mid low t ha he hm hbound hinner hrest ihinner ih =>
    rcases Nat.lt_or_ge x mid with hmid | hmid
    · obtain ⟨i, hi, e', hslot, hholds⟩ := ih hlow hmid
      rw [Nat.sub_sub, Nat.add_comm 1] at hslot
      exact ⟨i + 1, Nat.succ_lt_succ hi, e', hslot, hholds⟩
    · refine ⟨0, Nat.succ_pos n, e, ha, ?_⟩
      rcases Nat.lt_or_ge x (e - m) with hnested | hown
      · obtain ⟨i, hi, e', hslot, hholds⟩ := ihinner hmid hnested
        exact .nested he (by omega) (by omega) hslot hholds
      · exact .own he hown (Nat.le_of_lt_succ hx)

/-- The storage of a block with the blocks in it is one range of addresses. -/
theorem Whole.holds_iff (h : r.Whole d low) {x : Nat} :
    r.stack.Holds d x ↔ low ≤ x ∧ x ≤ d := by
  constructor
  · intro hholds
    induction hholds generalizing low with
    | own hd hlow ha =>
      obtain ⟨t, n, h⟩ := h
      obtain ⟨rfl, rfl⟩ := Slot.header.inj (Option.some.inj (h.header.symm.trans hd))
      exact ⟨h.le.trans hlow, ha⟩
    | nested hd hlow hb he ha ih =>
      obtain ⟨t, n, h⟩ := h
      obtain ⟨rfl, rfl⟩ := Slot.header.inj (Option.some.inj (h.header.symm.trans hd))
      rcases h.field_of_le hlow hb with hplain | ⟨e, low', hslot, hwhole, hlow', hbelow⟩
      · rw [Stack.outline?_of_some he] at hplain
        cases hplain
      · obtain rfl := Slot.block.inj (Option.some.inj (hslot.symm.trans he))
        have hinner := ih hwhole
        omega
  · rintro ⟨hlow, hx⟩
    obtain ⟨t, n, h⟩ := h
    have hroom := h.room
    rcases Nat.lt_or_ge x (d - n) with hnested | hown
    · obtain ⟨i, hi, e, hslot, hholds⟩ := h.fields.exists_holds hlow hnested
      exact .nested h.header (by omega) (by omega) hslot hholds
    · exact .own h.header hown hx

/-- The slots of a row of fields and of the blocks that they point at. -/
def InRow (a n high low b : Nat) : Prop := (∃ i < n, b = a - i) ∨ low ≤ b ∧ b < high

theorem inRow_inner {m : Nat} (hlow : mid ≤ a) (ha : a < e) :
    InRow (e - 1) m (e - m) mid a := by
  rcases Nat.lt_or_ge a (e - m) with h | h
  · exact Or.inr ⟨hlow, h⟩
  · exact Or.inl ⟨e - 1 - a, by omega, by omega⟩

/-- A slot of a row is the first one, or a slot of the block in the first one, or of the others. -/
theorem InRow.cases {b : Nat} (h : InRow a (n + 1) (e + 1) low b) (hne : b ≠ e) (mid : Nat) :
    b = a ∨ (mid ≤ b ∧ b < e) ∨ InRow (a - 1) n mid low b := by
  rcases h with ⟨i, hi, rfl⟩ | ⟨hlow, hhigh⟩
  · cases i with
    | zero => exact Or.inl rfl
    | succ i => exact Or.inr (Or.inr (Or.inl ⟨i, Nat.lt_of_succ_lt_succ hi, by omega⟩))
  · rcases Nat.lt_or_ge b mid with hmid | hmid
    · exact Or.inr (Or.inr (Or.inr ⟨hlow, hmid⟩))
    · exact Or.inr (Or.inl ⟨hmid, by omega⟩)

/-- A field without a block of its own takes one slot of the row. -/
theorem InRow.of_plain {b : Nat} (h : InRow a (n + 1) high low b) :
    b = a ∨ InRow (a - 1) n high low b := by
  rcases h with ⟨i, hi, rfl⟩ | h
  · cases i with
    | zero => exact Or.inl rfl
    | succ i => exact Or.inr (Or.inl ⟨i, Nat.lt_of_succ_lt_succ hi, by omega⟩)
  · exact Or.inr (Or.inr h)

/-- A slot of a row that points at a block points at one of the row. -/
theorem Tiles.whole (h : r.Tiles a n high low) {b : Nat} (hb : InRow a n high low b)
    (he : r.stack.slots[b]? = some (.block e)) :
    ∃ low', r.Whole e low' ∧ low ≤ low' ∧ e < high := by
  induction h generalizing b with
  | nil =>
    rcases hb with ⟨i, hi, -⟩ | hb <;> omega
  | @plain a n high low ha hrest ih =>
    rcases hb.of_plain with rfl | hb
    · rw [Stack.outline?_of_some he] at ha
      cases ha
    · exact ih hb he
  | @block a n e' m mid low t ha he' hm hbound hinner hrest ihinner ih =>
    have hinner_le := hinner.le
    have hrest_le := hrest.le
    rcases hb.cases (Stack.ne_of_block he he') mid with rfl | ⟨hmid, hb⟩ | hb
    · obtain rfl := Slot.block.inj (Option.some.inj (he.symm.trans ha))
      exact ⟨mid, ⟨t, m, he', hm, hbound, hinner⟩, hrest_le, Nat.lt_succ_self e⟩
    · obtain ⟨low', hwhole, hlow, hlt⟩ := ihinner (inRow_inner hmid hb) he
      exact ⟨low', hwhole, by omega, by omega⟩
    · obtain ⟨low', hwhole, hlow, hlt⟩ := ih hb he
      exact ⟨low', hwhole, hlow, by omega⟩

/-- The row that a single slot makes up. -/
theorem Whole.tiles (h : r.Whole e low) (ha : r.stack.slots[a]? = some (.block e)) :
    r.Tiles a 1 (e + 1) low := .cons ha h .nil

/-- Two slots of a row whose blocks share an address are the same, or one of them lies in the block
that the other one points at. -/
theorem Tiles.nested_of_shared (h : r.Tiles a n high low) {b b' e e' x : Nat}
    (hb : InRow a n high low b) (he : r.stack.slots[b]? = some (.block e))
    (hx : r.stack.Holds e x) (hb' : InRow a n high low b')
    (he' : r.stack.slots[b']? = some (.block e')) (hx' : r.stack.Holds e' x) :
    b = b' ∨ r.stack.Holds e b' ∨ r.stack.Holds e' b := by
  induction h generalizing b b' e e' with
  | nil =>
    rcases hb with ⟨i, hi, -⟩ | hb <;> omega
  | @plain a n high low ha hrest ih =>
    have hrow {b e : Nat} (hb : InRow a (n + 1) high low b)
        (he : r.stack.slots[b]? = some (.block e)) : InRow (a - 1) n high low b := by
      refine hb.of_plain.resolve_left ?_
      rintro rfl
      rw [Stack.outline?_of_some he] at ha
      cases ha
    exact ih (hrow hb he) he hx (hrow hb' he') he' hx'
  | @block a n d m mid low t ha hd hm hbound hinner hrest ihinner ih =>
    have hwhole : r.Whole d mid := ⟨t, m, hd, hm, hbound, hinner⟩
    have hplace {b e : Nat} (hb : InRow a (n + 1) (d + 1) low b)
        (he : r.stack.slots[b]? = some (.block e)) :
        b = a ∧ e = d ∨ (mid ≤ b ∧ b < d) ∨ InRow (a - 1) n mid low b := by
      refine (hb.cases (Stack.ne_of_block he hd) mid).imp_left fun hba ↦ ⟨hba, ?_⟩
      exact Slot.block.inj (Option.some.inj (he.symm.trans (hba ▸ ha)))
    -- What the first field and the slots in its block hold lies apart from what the others hold.
    have habove {b e : Nat} (hb : b = a ∧ e = d ∨ mid ≤ b ∧ b < d)
        (he : r.stack.slots[b]? = some (.block e)) (hx : r.stack.Holds e x) : mid ≤ x := by
      rcases hb with ⟨-, rfl⟩ | hb
      · exact (hwhole.holds_iff.mp hx).1
      · obtain ⟨low', hwhole', hlow, -⟩ := hinner.whole (inRow_inner hb.1 hb.2) he
        exact hlow.trans (hwhole'.holds_iff.mp hx).1
    have hbelow {b e : Nat} (hb : InRow (a - 1) n mid low b)
        (he : r.stack.slots[b]? = some (.block e)) (hx : r.stack.Holds e x) : x < mid := by
      obtain ⟨low', hwhole', -, hlt⟩ := hrest.whole hb he
      exact (hwhole'.holds_iff.mp hx).2.trans_lt hlt
    have hin {b : Nat} (hb : mid ≤ b ∧ b < d) : r.stack.Holds d b :=
      hwhole.holds_iff.mpr ⟨hb.1, hb.2.le⟩
    rcases hplace hb he with hfirst | hinside | hrow <;>
      rcases hplace hb' he' with hfirst' | hinside' | hrow'
    · exact Or.inl (hfirst.1.trans hfirst'.1.symm)
    · exact Or.inr (Or.inl (hfirst.2 ▸ hin hinside'))
    · exact absurd (habove (Or.inl hfirst) he hx) (Nat.not_le_of_lt (hbelow hrow' he' hx'))
    · exact Or.inr (Or.inr (hfirst'.2 ▸ hin hinside))
    · exact ihinner (inRow_inner hinside.1 hinside.2) he hx (inRow_inner hinside'.1 hinside'.2)
        he' hx'
    · exact absurd (habove (Or.inr hinside) he hx) (Nat.not_le_of_lt (hbelow hrow' he' hx'))
    · exact absurd (habove (Or.inl hfirst') he' hx') (Nat.not_le_of_lt (hbelow hrow he hx))
    · exact absurd (habove (Or.inr hinside') he' hx') (Nat.not_le_of_lt (hbelow hrow he hx))
    · exact ih hrow he hx hrow' he' hx'

/-! ### The lowest address -/

/-- Going through the fields of a row from the last one to the first finds the lowest address. -/
theorem Tiles.exists_foldlM (h : r.Tiles a n high low) {f : Nat → Nat → Except Error Nat}
    (hplain : ∀ acc b, r.stack.outline? b = some .null → f acc b = .ok acc)
    (hblock : ∀ acc b e low', r.stack.slots[b]? = some (.block e) → e < high → r.Whole e low' →
      f acc b = .ok (min acc low'))
    {b : Nat} (hb : 0 < n → b + n = a + 1) (acc : Nat) :
    ∃ x ≤ acc, (List.range' b n).foldlM f acc = .ok x ∧ min x high = min acc low := by
  induction h with
  | nil => exact ⟨acc, Nat.le_refl _, rfl, rfl⟩
  | @plain a n high low ha hrest ih =>
    have hlast := hb (Nat.succ_pos n)
    obtain ⟨x, hle, hfold, hmin⟩ := ih hblock (by omega)
    refine ⟨x, hle, ?_, hmin⟩
    have hstep : f x (b + n) = .ok x := hplain x _ (by rwa [show b + n = a by omega])
    rw [List.range'_1_concat, List.foldlM_append, hfold]
    exact (bind_pure (f x (b + n))).trans hstep
  | @block a n e m mid low t ha he hm hbound hinner hrest ihinner ih =>
    have hlast := hb (Nat.succ_pos n)
    have hinner_le := hinner.le
    have hrest_le := hrest.le
    obtain ⟨x, hle, hfold, hmin⟩ :=
      ih (fun acc b e' low' hslot hlt ↦ hblock acc b e' low' hslot (by omega)) (by omega)
    refine ⟨min x mid, by omega, ?_, by omega⟩
    have hstep : f x (b + n) = .ok (min x mid) :=
      hblock x _ e mid (by rwa [show b + n = a by omega]) (Nat.lt_succ_self e)
        ⟨t, m, he, hm, hbound, hinner⟩
    rw [List.range'_1_concat, List.foldlM_append, hfold]
    exact (bind_pure (f x (b + n))).trans hstep

/-- Going through the fields of a block finds its lowest address. -/
theorem Tree.foldlM_eq (h : r.Tree t n d low) {f : Nat → Nat → Except Error Nat}
    (hplain : ∀ acc b, r.stack.outline? b = some .null → f acc b = .ok acc)
    (hblock : ∀ acc b e low', r.stack.slots[b]? = some (.block e) → e < d - n → r.Whole e low' →
      f acc b = .ok (min acc low')) :
    (List.range' (d - n) n).foldlM f (d - n) = .ok low := by
  have hle := h.le
  have hroom := h.room
  obtain ⟨x, hx, hfold, hmin⟩ :=
    h.fields.exists_foldlM hplain hblock (b := d - n) (by omega) (d - n)
  rw [hfold]
  exact congrArg Except.ok (by omega)

/-- The engine finds the lowest address of a tree by following the first fields down. It is where
the storage of the tree ends. -/
theorem Whole.blockLow_eq (h : r.Whole d low) : r.stack.blockLow d = .ok low := by
  induction d using Nat.strongRecOn generalizing low with
  | ind d ih =>
    obtain ⟨t, n, h⟩ := h
    have hheader : r.stack.header d = .ok (t, n) := Stack.header_of_some h.header
    rw [Stack.blockLow]
    simp only [hheader, bind, Except.bind, Nat.min_eq_left h.room]
    refine h.foldlM_eq (fun acc b hb ↦ ?_) fun acc b e low' hslot hlt hwhole ↦ ?_
    · obtain ⟨s, hs, hnull⟩ := Option.map_eq_some_iff.mp hb
      have hget : r.stack.slots.getD b .null = s := by
        rw [Array.getD_eq_getD_getElem?, hs, Option.getD_some]
      rw [hget]
      split
      · cases hnull
      · rfl
    · have hget : r.stack.slots.getD b .null = .block e := by
        rw [Array.getD_eq_getD_getElem?, hslot, Option.getD_some]
      have hed : e < d := hlt.trans_le (Nat.sub_le _ _)
      simp only [hget, dif_pos hed, ih e hed hwhole]
      rfl

theorem Whole.unique {low' : Nat} (h : r.Whole d low) (h' : r.Whole d low') : low' = low :=
  Except.ok.inj (h'.blockLow_eq.symm.trans h.blockLow_eq)

end Running

end ManagedMachine
