import ManagedMachine.Proofs.Edits
import ManagedMachine.Proofs.TwinRuns

/-!
# Stacks that cannot be told apart

Clearing a stack leaves the slots as they are, so two stacks that are in the same state may hold
different things where nothing was put since. `Stack.Twin count g K` relates such stacks: they agree
on the slots at the addresses in `K`, and whatever can be reached is in `K`. Operands and blocks
are, and so is the address in a slot that is, and the fields of a block whose header is. So nothing
that is done with an address that comes from the stack can show a difference, and it leaves twins
again.

A block that is freed must not take others with it. For that no header lies among the fields of a
block, and no block reaches over the lowest address or over a level, an address that was the lowest
one when a running frame was entered.
-/

set_option autoImplicit false
set_option relaxedAutoImplicit false

namespace ManagedMachine

/-- The base of a stack, and the levels that no block on it reaches over. -/
structure Guard where
  base : Nat
  levels : Set Nat

/-- Blocks below the base may be freed, as they do not reach over a level. -/
def Guard.Shields (g : Guard) : Prop := ∀ v ∈ g.levels, g.base ≤ v

/-- The address in the slot, if there is one, is in the set. -/
def Slot.Leads (K : Set Nat) (s : Slot) : Prop := ∀ a ∈ s.target?, a ∈ K

namespace Slot

variable {K K' : Set Nat} {s : Slot} {a : Nat}

theorem Leads.mono (h : s.Leads K) (hK : K ⊆ K') : s.Leads K' := fun a ha ↦ hK (h a ha)

theorem Leads.of_none (h : s.target? = none) : s.Leads K := fun a ha ↦ by
  rw [h] at ha
  cases ha

theorem leads_block : (block a).Leads K ↔ a ∈ K :=
  ⟨fun h ↦ h a rfl, fun h _ hb ↦ Option.some.inj hb ▸ h⟩

theorem leads_stackRef : (stackRef a).Leads K ↔ a ∈ K :=
  ⟨fun h ↦ h a rfl, fun h _ hb ↦ Option.some.inj hb ▸ h⟩

/-- The slot may be put on the stack: it is no header, and it leads to the set. -/
structure Shown (K : Set Nat) (s : Slot) : Prop where
  leads : s.Leads K
  header : s.isHeader = false

theorem Shown.mono (h : s.Shown K) (hK : K ⊆ K') : s.Shown K' := ⟨h.leads.mono hK, h.header⟩

theorem Shown.block (h : a ∈ K) : (Slot.block a).Shown K := ⟨leads_block.mpr h, rfl⟩

theorem Shown.stackRef (h : a ∈ K) : (Slot.stackRef a).Shown K := ⟨leads_stackRef.mpr h, rfl⟩

theorem Shown.of_numeric (h : s.isNumeric = true) : s.Shown K := by
  cases s <;> first | exact ⟨.of_none rfl, rfl⟩ | cases h

end Slot

namespace Stack

/-- The stacks agree on the slots at the addresses of the set, and what can be reached is in the
set. -/
structure Twin (count : TypeId → Option Nat) (g : Guard) (K : Set Nat) (s s' : Stack) : Prop where
  /-- The stacks differ in their slots only. -/
  rest : s' = { s with slots := s'.slots }
  size : s'.slots.size = s.slots.size
  slot {a : Nat} : a ∈ K → s'.slots[a]? = s.slots[a]?
  ends {a : Nat} : a < s.top ∨ s.low ≤ a → a ∈ K
  leads {a : Nat} {x : Slot} : a ∈ K → s.slots[a]? = some x → x.Leads K
  block {d n a : Nat} {t : TypeId} : d ∈ K → s.slots[d]? = some (.header t n) → d - n ≤ a →
    a ≤ d → a ∈ K
  operand {a : Nat} {x : Slot} : a < s.top → s.slots[a]? = some x → x.isHeader = false
  sized {d n : Nat} {t : TypeId} : d ∈ K → s.slots[d]? = some (.header t n) → count t = some n
  room {d n : Nat} {t : TypeId} : d ∈ K → s.slots[d]? = some (.header t n) → n ≤ d
  field {d n a : Nat} {t : TypeId} {x : Slot} : d ∈ K → s.slots[d]? = some (.header t n) →
    d - n ≤ a → a < d → s.slots[a]? = some x → x.isHeader = false
  above {d n v : Nat} {t : TypeId} : d ∈ K → s.slots[d]? = some (.header t n) →
    v = s.low ∨ v ∈ g.levels → v ≤ d → v ≤ d - n
  levels {v : Nat} : v ∈ g.levels → s.low ≤ v
  base : s.base = g.base
  fits : s.low ≤ s.slots.size

namespace Twin

variable {count : TypeId → Option Nat} {g : Guard} {K : Set Nat} {s s' : Stack} {a d n : Nat}
  {t : TypeId} {x : Slot}

theorem exists_slots (h : Twin count g K s s') : ∃ slots, s' = { s with slots } := ⟨_, h.rest⟩

theorem top (h : Twin count g K s s') : s'.top = s.top := by rw [h.rest]

theorem low (h : Twin count g K s s') : s'.low = s.low := by rw [h.rest]

theorem base_eq (h : Twin count g K s s') : s'.base = s.base := by rw [h.rest]

theorem floor (h : Twin count g K s s') : s'.floor = s.floor := by rw [h.rest]

theorem managed (h : Twin count g K s s') : s'.managed = s.managed := by rw [h.rest]

theorem mem_of_lt (h : Twin count g K s s') (ha : a < s.top) : a ∈ K := h.ends (Or.inl ha)

theorem mem_of_ge (h : Twin count g K s s') (ha : s.low ≤ a) : a ∈ K := h.ends (Or.inr ha)

/-! ### What is read -/

theorem getD (h : Twin count g K s s') (ha : a ∈ K) : s'.slots.getD a x = s.slots.getD a x := by
  rw [Array.getD_eq_getD_getElem?, Array.getD_eq_getD_getElem?, h.slot ha]

theorem slotAt (h : Twin count g K s s') (ha : a ∈ K) : s'.slotAt a = s.slotAt a := by
  rw [Stack.slotAt, Stack.slotAt, h.slot ha]

theorem leads_slotAt (h : Twin count g K s s') (ha : a ∈ K) (hx : s.slotAt a = .ok x) : x.Leads K :=
  h.leads ha (slotAt_ok hx)

theorem topAddr (h : Twin count g K s s') : s'.topAddr = s.topAddr := by
  rw [Stack.topAddr, Stack.topAddr, h.top]

theorem topSlot (h : Twin count g K s s') : s'.topSlot = s.topSlot := by
  rw [Stack.topSlot, Stack.topSlot, h.topAddr]
  cases htop : s.topAddr with
  | error e => rfl
  | ok a => exact h.slotAt (h.mem_of_lt (topAddr_ok htop ▸ Nat.lt_succ_self a))

theorem shown_topSlot (h : Twin count g K s s') (hx : s.topSlot = .ok x) : x.Shown K := by
  obtain ⟨hpos, hx⟩ := topSlot_ok hx
  have hlt : s.top - 1 < s.top := by omega
  exact ⟨h.leads (h.mem_of_lt hlt) hx, h.operand hlt hx⟩

theorem peek (h : Twin count g K s s') (n : Nat) : s'.peek n = s.peek n := by
  rw [Stack.peek, Stack.peek, h.top]
  split
  · rfl
  · exact h.slotAt (h.mem_of_lt (by omega))

theorem shown_peek (h : Twin count g K s s') (hx : s.peek n = .ok x) : x.Shown K := by
  obtain ⟨hn, hx⟩ := peek_ok hx
  have hlt : s.top - (n + 1) < s.top := by omega
  exact ⟨h.leads (h.mem_of_lt hlt) hx, h.operand hlt hx⟩

theorem entry (h : Twin count g K s s') (i : Nat) : s'.entry i = s.entry i := by
  rw [Stack.entry, Stack.entry, h.managed]

theorem header (h : Twin count g K s s') (hd : d ∈ K) : s'.header d = s.header d := by
  rw [Stack.header, Stack.header, h.slotAt hd]

theorem fieldAddr (h : Twin count g K s s') (hd : d ∈ K) (i : Nat) :
    s'.fieldAddr d i = s.fieldAddr d i := by
  rw [Stack.fieldAddr, Stack.fieldAddr, h.header hd]

theorem mem_field (h : Twin count g K s s') (hd : d ∈ K)
    (hheader : s.slots[d]? = some (.header t n))
    {i : Nat} (hi : i < n) : d - 1 - i ∈ K :=
  h.block hd hheader (by omega) (by omega)

theorem mem_fieldAddr (h : Twin count g K s s') (hd : d ∈ K) {i : Nat}
    (ha : s.fieldAddr d i = .ok a) :
    a ∈ K := by
  obtain ⟨t, n, hheader, hi, rfl⟩ := fieldAddr_ok ha
  exact h.mem_field hd hheader hi

/-- The end of a block is found by following fields, which are in the set. -/
theorem blockLow (h : Twin count g K s s') (hd : d ∈ K) : s'.blockLow d = s.blockLow d := by
  induction d using Nat.strongRecOn with
  | ind d ih =>
    rw [Stack.blockLow, Stack.blockLow, h.header hd]
    cases hheader : s.header d with
    | error e => rfl
    | ok p =>
      obtain ⟨t, n⟩ := p
      have hfold (bs : List Nat) (hbs : ∀ b ∈ bs, b ∈ K) {f f' : Nat → Nat → Except Error Nat}
          (hf : ∀ acc, ∀ b ∈ K, f' acc b = f acc b) (acc : Nat) :
          bs.foldlM f' acc = bs.foldlM f acc := by
        induction bs generalizing acc with
        | nil => rfl
        | cons b bs ihbs =>
          have hb := hbs b List.mem_cons_self
          rw [List.foldlM_cons, List.foldlM_cons, hf acc b hb]
          congr 1
          funext acc'
          exact ihbs (fun b' hb' ↦ hbs b' (List.mem_cons_of_mem _ hb')) acc'
      refine hfold _ (fun b hb ↦ ?_) (fun acc b hb ↦ ?_) _
      · rw [List.mem_range'_1] at hb
        exact h.block hd (header_ok hheader) (by omega) (by omega)
      · rw [h.getD hb]
        cases hslot : s.slots.getD b .null with
        | block e =>
          have he : e ∈ K := by
            rw [Array.getD_eq_getD_getElem?] at hslot
            cases hget : s.slots[b]? with
            | none => simp [hget] at hslot
            | some x =>
              rw [hget] at hslot
              exact Slot.leads_block.mp (hslot ▸ h.leads hb hget)
          by_cases hlt : e < d
          · simp only [dif_pos hlt, ih e hlt he]
          · simp only [dif_neg hlt]
        | _ => rfl

/-! ### What is written -/

theorem getElem?_set_cases {slots : Array Slot} {b : Nat} {y : Slot}
    (h : (slots.setIfInBounds a x)[b]? = some y) : b = a ∧ y = x ∨ b ≠ a ∧ slots[b]? = some y := by
  rw [Array.getElem?_setIfInBounds] at h
  by_cases hab : a = b
  · rw [if_pos hab] at h
    split at h
    · exact Or.inl ⟨hab.symm, (Option.some.inj h).symm⟩
    · cases h
  · rw [if_neg hab] at h
    exact Or.inr ⟨Ne.symm hab, h⟩

/-- A slot is written, anywhere. -/
theorem set (h : Twin count g K s s') (hx : x.Shown (Insert.insert a K)) :
    Twin count g (Insert.insert a K) { s with slots := s.slots.setIfInBounds a x }
      { s' with slots := s'.slots.setIfInBounds a x } := by
  have hK : K ⊆ Insert.insert a K := Set.subset_insert a K
  -- A header is an old one at another address.
  have hold {d n : Nat} {t : TypeId} (hd : d ∈ Insert.insert a K)
      (hheader : (s.slots.setIfInBounds a x)[d]? = some (.header t n)) :
      d ∈ K ∧ s.slots[d]? = some (.header t n) := by
    rcases getElem?_set_cases hheader with ⟨-, rfl⟩ | ⟨hne, hheader⟩
    · exact absurd hx.header nofun
    · exact ⟨hd.resolve_left hne, hheader⟩
  constructor
  case rest =>
    exact congrArg (fun s : Stack ↦ { s with slots := s'.slots.setIfInBounds a x }) h.rest
  case size => rw [Array.size_setIfInBounds, Array.size_setIfInBounds, h.size]
  case slot =>
    intro b hb
    rw [Array.getElem?_setIfInBounds, Array.getElem?_setIfInBounds, h.size]
    split
    · rfl
    · next hne => exact h.slot (hb.resolve_left (Ne.symm hne))
  case ends => exact fun hb ↦ hK (h.ends hb)
  case leads =>
    intro b y hb hy
    rcases getElem?_set_cases hy with ⟨-, rfl⟩ | ⟨hne, hy⟩
    · exact hx.leads
    · exact (h.leads (hb.resolve_left hne) hy).mono hK
  case block =>
    intro d n b t hd hheader hlow hb
    obtain ⟨hd, hheader⟩ := hold hd hheader
    exact hK (h.block hd hheader hlow hb)
  case operand =>
    intro b y hb hy
    rcases getElem?_set_cases hy with ⟨-, rfl⟩ | ⟨hne, hy⟩
    · exact hx.header
    · exact h.operand hb hy
  case sized =>
    intro d n t hd hheader
    obtain ⟨hd, hheader⟩ := hold hd hheader
    exact h.sized hd hheader
  case room =>
    intro d n t hd hheader
    obtain ⟨hd, hheader⟩ := hold hd hheader
    exact h.room hd hheader
  case field =>
    intro d n b t y hd hheader hlow hb hy
    obtain ⟨hd, hheader⟩ := hold hd hheader
    rcases getElem?_set_cases hy with ⟨-, rfl⟩ | ⟨hne, hy⟩
    · exact hx.header
    · exact h.field hd hheader hlow hb hy
  case above =>
    intro d n v t hd hheader hv hle
    obtain ⟨hd, hheader⟩ := hold hd hheader
    exact h.above hd hheader hv hle
  case levels => exact h.levels
  case base => exact h.base
  case fits => exact h.fits.trans_eq Array.size_setIfInBounds.symm

/-- The same entries take the place of others. -/
theorem withManaged (h : Twin count g K s s') (m : Array Value) :
    Twin count g K { s with managed := m } { s' with managed := m } :=
  { h with rest := congrArg (fun s : Stack ↦ { s with managed := m }) h.rest }

/-- The operands end elsewhere. -/
theorem withTop (h : Twin count g K s s') {n : Nat} (hK : ∀ a < n, a ∈ K)
    (hn : ∀ a < n, ∀ x, s.slots[a]? = some x → x.isHeader = false) :
    Twin count g K { s with top := n } { s' with top := n } :=
  { h with
    rest := congrArg (fun s : Stack ↦ { s with top := n }) h.rest
    ends := fun ha ↦ ha.elim (hK _) fun ha ↦ h.ends (Or.inr ha)
    operand := fun ha hx ↦ hn _ ha _ hx }

theorem withTop_of_le (h : Twin count g K s s') {n : Nat} (hn : n ≤ s.top) :
    Twin count g K { s with top := n } { s' with top := n } :=
  h.withTop (fun _ ha ↦ h.mem_of_lt (ha.trans_le hn)) fun _ ha _ hx ↦ h.operand (ha.trans_le hn) hx

theorem withFloor (h : Twin count g K s s') (n : Nat) :
    Twin count g K { s with floor := n } { s' with floor := n } :=
  { h with rest := congrArg (fun s : Stack ↦ { s with floor := n }) h.rest }

/-- The blocks end further up, at a place that no block reaches over. -/
theorem withLow (h : Twin count g K s s') {n : Nat} (hn : s.low ≤ n) (hfits : n ≤ s.slots.size)
    (hlevels : ∀ v ∈ g.levels, n ≤ v)
    (habove : ∀ d ∈ K, ∀ t k, s.slots[d]? = some (.header t k) → n ≤ d → n ≤ d - k) :
    Twin count g K { s with low := n } { s' with low := n } :=
  { h with
    rest := congrArg (fun s : Stack ↦ { s with low := n }) h.rest
    ends := fun ha ↦ h.ends (ha.imp_right hn.trans)
    above := fun hd hheader hv hle ↦ by
      rcases hv with rfl | hv
      · exact habove _ hd _ _ hheader hle
      · exact h.above hd hheader (Or.inr hv) hle
    levels := fun hv ↦ hlevels _ hv
    fits := hfits }

/-- Another promise is made about the same stacks. -/
theorem reguard (h : Twin count g K s s') {levels : Set Nat} (hlevels : ∀ v ∈ levels, s.low ≤ v)
    (habove : ∀ d ∈ K, ∀ t n, s.slots[d]? = some (.header t n) → ∀ v ∈ levels, v ≤ d → v ≤ d - n)
    (b : Nat) : Twin count ⟨b, levels⟩ K { s with base := b } { s' with base := b } :=
  { h with
    rest := congrArg (fun s : Stack ↦ { s with base := b }) h.rest
    above := fun hd hheader hv hle ↦ hv.elim (fun hv ↦ h.above hd hheader (Or.inl hv) hle)
      fun hv ↦ habove _ hd _ _ hheader _ hv hle
    levels := fun hv ↦ hlevels _ hv
    base := rfl }

/-- What stands in a slot after a block was set up below the lowest one is the header, an empty
field of the new block, or an old slot outside of it. -/
theorem getElem?_withBlock_cases (h : Twin count g K s s') (hroom : s.top + n + 1 ≤ s.low)
    (hx : (Stack.withBlock (s.low - 1) n t s.slots)[a]? = some x) :
    a = s.low - 1 ∧ x = .header t n ∨ (s.low - 1 - n ≤ a ∧ a < s.low - 1) ∧ x = .null ∨
      (a < s.low - 1 - n ∨ s.low ≤ a) ∧ s.slots[a]? = some x := by
  have hsize : s.low - 1 < s.slots.size := by
    have := h.fits
    omega
  rw [getElem?_withBlock t hsize (by omega)] at hx
  split at hx
  · next ha => exact Or.inl ⟨ha, (Option.some.inj hx).symm⟩
  · split at hx
    · next ha => exact Or.inr (Or.inl ⟨ha, (Option.some.inj hx).symm⟩)
    · exact Or.inr (Or.inr ⟨by omega, hx⟩)

/-- An address of the new block, or one that is known, is one that was known if it is outside. -/
theorem mem_of_outside (h : Twin count g K s s') (ha : a ∈ K ∪ {b | s.low - 1 - n ≤ b})
    (hout : a < s.low - 1 - n ∨ s.low ≤ a) : a ∈ K :=
  ha.elim id fun ha ↦ h.mem_of_ge (hout.resolve_left (Nat.not_lt_of_le ha))

/-- A header is the one of the new block, or an old one outside of it. -/
theorem header_withBlock_cases (h : Twin count g K s s') (hroom : s.top + n + 1 ≤ s.low)
    {k : Nat} {t' : TypeId} (hd : d ∈ K ∪ {a | s.low - 1 - n ≤ a})
    (hheader : (Stack.withBlock (s.low - 1) n t s.slots)[d]? = some (.header t' k)) :
    d = s.low - 1 ∧ k = n ∧ t' = t ∨ (d < s.low - 1 - n ∨ s.low ≤ d) ∧ d ∈ K ∧
      s.slots[d]? = some (.header t' k) := by
  rcases h.getElem?_withBlock_cases hroom hheader with ⟨hd, hnew⟩ | ⟨-, hnew⟩ | ⟨hout, hold⟩
  · cases hnew
    exact Or.inl ⟨hd, rfl, rfl⟩
  · cases hnew
  · exact Or.inr ⟨hout, h.mem_of_outside hd hout, hold⟩

/-- Stacks on which the same block was set up agree on its slots. -/
theorem slot_withBlock (h : Twin count g K s s') (hroom : s.top + n + 1 ≤ s.low)
    (ha : a ∈ K ∪ {a | s.low - 1 - n ≤ a}) :
    (Stack.withBlock (s.low - 1) n t s'.slots)[a]? =
      (Stack.withBlock (s.low - 1) n t s.slots)[a]? := by
  have hsize : s.low - 1 < s.slots.size := by
    have := h.fits
    omega
  rw [getElem?_withBlock t hsize (by omega), getElem?_withBlock t (h.size ▸ hsize) (by omega)]
  split
  · rfl
  · split
    · rfl
    · exact h.slot (h.mem_of_outside (n := n) ha (by omega))

/-- There is no header among the fields of a block: the new block has empty fields only, and no old
one reaches down to it. -/
theorem field_withBlock (h : Twin count g K s s') (hroom : s.top + n + 1 ≤ s.low)
    {k : Nat} {t' : TypeId} (hd : d ∈ K ∪ {a | s.low - 1 - n ≤ a})
    (hheader : (Stack.withBlock (s.low - 1) n t s.slots)[d]? = some (.header t' k))
    (hlow : d - k ≤ a) (ha : a < d)
    (hx : (Stack.withBlock (s.low - 1) n t s.slots)[a]? = some x) : x.isHeader = false := by
  rcases h.getElem?_withBlock_cases hroom hx with ⟨rfl, -⟩ | ⟨-, rfl⟩ | ⟨hout, hx⟩
  · rcases h.header_withBlock_cases hroom hd hheader with ⟨rfl, -⟩ | ⟨hout, hd, hheader⟩
    · omega
    · have habove := h.above hd hheader (Or.inl rfl) (by omega)
      omega
  · rfl
  · rcases h.header_withBlock_cases hroom hd hheader with ⟨rfl, rfl, -⟩ | ⟨-, hd, hheader⟩
    · omega
    · exact h.field hd hheader hlow ha hx

/-- No block reaches over a level: the new one ends where the blocks end now. -/
theorem above_withBlock (h : Twin count g K s s') (hroom : s.top + n + 1 ≤ s.low)
    {k v : Nat} {t' : TypeId} (hd : d ∈ K ∪ {a | s.low - 1 - n ≤ a})
    (hheader : (Stack.withBlock (s.low - 1) n t s.slots)[d]? = some (.header t' k))
    (hv : v = s.low - 1 - n ∨ v ∈ g.levels) (hle : v ≤ d) : v ≤ d - k := by
  rcases h.header_withBlock_cases hroom hd hheader with ⟨rfl, rfl, -⟩ | ⟨hout, hd, hheader⟩
  · rcases hv with rfl | hv
    · exact Nat.le_refl _
    · have hlevel := h.levels hv
      omega
  · rcases hv with rfl | hv
    · have habove := h.above hd hheader (Or.inl rfl) (hout.resolve_left (Nat.not_lt_of_le hle))
      omega
    · exact h.above hd hheader (Or.inr hv) hle

/-- A block is set up below the lowest one. -/
theorem withBlock (h : Twin count g K s s') (hroom : s.top + n + 1 ≤ s.low)
    (ht : count t = some n) :
    Twin count g (K ∪ {a | s.low - 1 - n ≤ a})
      { s with slots := Stack.withBlock (s.low - 1) n t s.slots, low := s.low - 1 - n }
      { s' with slots := Stack.withBlock (s.low - 1) n t s'.slots, low := s.low - 1 - n } := by
  have hK : K ⊆ K ∪ {a | s.low - 1 - n ≤ a} := Set.subset_union_left
  constructor
  case rest =>
    exact congrArg (fun st : Stack ↦ { st with
      slots := Stack.withBlock (s.low - 1) n t s'.slots, low := s.low - 1 - n }) h.rest
  case size => rw [size_withBlock, size_withBlock, h.size]
  case slot => exact fun ha ↦ h.slot_withBlock hroom ha
  case ends => exact fun ha ↦ ha.elim (fun ha ↦ hK (h.mem_of_lt ha)) Or.inr
  case leads =>
    intro a y ha hy
    rcases h.getElem?_withBlock_cases hroom hy with ⟨-, rfl⟩ | ⟨-, rfl⟩ | ⟨hout, hy⟩
    · exact .of_none rfl
    · exact .of_none rfl
    · exact (h.leads (h.mem_of_outside ha hout) hy).mono hK
  case block =>
    intro d k a t' hd hy hlow ha
    rcases h.header_withBlock_cases hroom hd hy with ⟨rfl, rfl, -⟩ | ⟨-, hd, hy⟩
    · exact Or.inr hlow
    · exact hK (h.block hd hy hlow ha)
  case operand =>
    intro a y ha hy
    replace ha : a < s.top := ha
    rcases h.getElem?_withBlock_cases hroom hy with ⟨rfl, -⟩ | ⟨hin, -⟩ | ⟨-, hy⟩
    · omega
    · omega
    · exact h.operand ha hy
  case sized =>
    intro d k t' hd hy
    rcases h.header_withBlock_cases hroom hd hy with ⟨-, rfl, rfl⟩ | ⟨-, hd, hy⟩
    · exact ht
    · exact h.sized hd hy
  case room =>
    intro d k t' hd hy
    rcases h.header_withBlock_cases hroom hd hy with ⟨rfl, rfl, -⟩ | ⟨-, hd, hy⟩
    · omega
    · exact h.room hd hy
  case field => exact fun hd hy hlow ha hx ↦ h.field_withBlock hroom hd hy hlow ha hx
  case above => exact fun hd hy hv hle ↦ h.above_withBlock hroom hd hy hv hle
  case levels =>
    intro v hv
    have hlevel := h.levels hv
    change s.low - 1 - n ≤ v
    omega
  case base => exact h.base
  case fits =>
    rw [size_withBlock]
    have hfits := h.fits
    change s.low - 1 - n ≤ s.slots.size
    omega

/-! ### Operations -/

theorem setSlot (h : Twin count g K s s') (hx : x.Shown (Insert.insert a K)) :
    Gives (Twin count g) K (Stack.setSlot a x) s s' fun K' _ _ ↦ a ∈ K' := by
  unfold Gives Stack.setSlot
  rw [h.size]
  split
  · exact .ok ⟨_, Set.subset_insert a K, h.set hx, Set.mem_insert a K⟩
  · exact .error ⟨K, subset_rfl, h⟩

/-- A slot that leads to the set is an operand of both. -/
theorem push (h : Twin count g K s s') (hx : x.Shown K) :
    Alike (Twin count g) K (Stack.push x) s s' := by
  obtain ⟨slots, rfl⟩ := h.exists_slots
  unfold Alike Gives Stack.push
  split
  · exact .error ⟨K, subset_rfl, h⟩
  · have hK : K ⊆ Insert.insert s.top K := Set.subset_insert s.top K
    have hset := h.set (hx.mono hK)
    refine .ok ⟨_, hK, hset.withTop (n := s.top + 1) (fun a ha ↦ ?_) fun a ha y hy ↦ ?_, trivial⟩
    · exact (Nat.lt_succ_iff_lt_or_eq.mp ha).elim (fun ha ↦ Or.inr (h.mem_of_lt ha)) Or.inl
    · rcases getElem?_set_cases hy with ⟨-, rfl⟩ | ⟨hne, hy⟩
      · exact hx.header
      · exact h.operand (by omega) hy

theorem pushEntry (h : Twin count g K s s') (v : Value) :
    Alike (Twin count g) K (Stack.pushEntry v) s s' := by
  unfold Alike Gives Stack.pushEntry
  rw [h.managed]
  exact .ok ⟨K, subset_rfl, h.withManaged _, trivial⟩

theorem setEntry (h : Twin count g K s s') (i : Nat) (v : Value) :
    Alike (Twin count g) K (Stack.setEntry i v) s s' := by
  unfold Alike Gives Stack.setEntry
  rw [h.managed]
  split
  · exact .ok ⟨K, subset_rfl, h.withManaged _, trivial⟩
  · exact .error ⟨K, subset_rfl, h⟩

theorem pushObject (h : Twin count g K s s') (v : Value) :
    Alike (Twin count g) K (Stack.pushObject v) s s' := by
  unfold Stack.pushObject
  split
  · exact h.push ⟨.of_none rfl, rfl⟩
  · exact (h.pushEntry v).bind fun _ i _ _ _ _ ht _ ↦ ht.push ⟨.of_none rfl, rfl⟩

theorem allocBlock (h : Twin count g K s s') (hn : count t = some n) :
    Gives (Twin count g) K (Stack.allocBlock t n) s s' fun K' d _ ↦ d ∈ K' := by
  obtain ⟨slots, rfl⟩ := h.exists_slots
  unfold Gives Stack.allocBlock
  split
  · exact .error ⟨K, subset_rfl, h⟩
  · next hroom =>
    refine .ok ⟨K ∪ {a | s.low - 1 - n ≤ a}, Set.subset_union_left, ?_, Or.inr (Nat.sub_le _ _)⟩
    exact h.withBlock (Nat.le_of_not_lt hroom) hn

/-- What stands in a slot after a slot was put among the operands is that slot, an operand that has
moved, or an old slot. -/
theorem getElem?_shifted_cases (h : Twin count g K s s') (ha : a ≤ s.top) (hroom : s.top < s.low)
    {b : Nat} {y : Slot} (hy : (shifted a s.top x s.slots)[b]? = some y) :
    y = x ∨ (a < b ∧ b ≤ s.top) ∧ s.slots[b - 1]? = some y ∨ b ≠ s.top ∧ s.slots[b]? = some y := by
  rw [getElem?_shifted x (hroom.trans_le h.fits) ha] at hy
  split at hy
  · exact Or.inl (Option.some.inj hy).symm
  · split at hy
    · next hin => exact Or.inr (Or.inl ⟨hin, hy⟩)
    · exact Or.inr (Or.inr ⟨by omega, hy⟩)

/-- No operand is a header, so a header has not moved. -/
theorem header_shifted (h : Twin count g K s s') (hx : x.Shown K) (ha : a ≤ s.top)
    (hroom : s.top < s.low) {b : Nat} {y : Slot} (hy : (shifted a s.top x s.slots)[b]? = some y)
    (hheader : y.isHeader = true) : b ≠ s.top ∧ s.slots[b]? = some y := by
  rcases h.getElem?_shifted_cases ha hroom hy with rfl | ⟨hin, hy⟩ | hy
  · exact absurd hx.header (by simp [hheader])
  · exact absurd (h.operand (by omega) hy) (by simp [hheader])
  · exact hy

/-- The operands from an address on move up by one and make room for a slot. -/
theorem shift (h : Twin count g K s s') (hx : x.Shown K) (ha : a ≤ s.top) (hroom : s.top < s.low) :
    Twin count g (Insert.insert s.top K)
      { s with slots := shifted a s.top x s.slots, top := s.top + 1 }
      { s' with slots := shifted a s.top x s'.slots, top := s.top + 1 } := by
  have hK : K ⊆ Insert.insert s.top K := Set.subset_insert s.top K
  have hold {d k : Nat} {t : TypeId} (hd : d ∈ Insert.insert s.top K)
      (hy : (shifted a s.top x s.slots)[d]? = some (.header t k)) :
      d ∈ K ∧ s.slots[d]? = some (.header t k) :=
    have hslot := h.header_shifted hx ha hroom hy rfl
    ⟨hd.resolve_left hslot.1, hslot.2⟩
  constructor
  case rest =>
    exact congrArg (fun st : Stack ↦ { st with
      slots := shifted a s.top x s'.slots, top := s.top + 1 }) h.rest
  case size => rw [size_shifted, size_shifted, h.size]
  case slot =>
    intro b hb
    rw [getElem?_shifted x (hroom.trans_le h.fits) ha,
      getElem?_shifted x (h.size ▸ hroom.trans_le h.fits) ha]
    split
    · rfl
    · split
      · exact h.slot (h.mem_of_lt (by omega))
      · exact h.slot (hb.resolve_left (by omega))
  case ends =>
    intro b hb
    rcases hb with hb | hb
    · exact (Nat.lt_succ_iff_lt_or_eq.mp hb).elim (fun hb ↦ hK (h.mem_of_lt hb)) Or.inl
    · exact hK (h.mem_of_ge hb)
  case leads =>
    intro b y hb hy
    rcases h.getElem?_shifted_cases ha hroom hy with rfl | ⟨hin, hy⟩ | ⟨hne, hy⟩
    · exact hx.leads.mono hK
    · exact (h.leads (h.mem_of_lt (by omega)) hy).mono hK
    · exact (h.leads (hb.resolve_left hne) hy).mono hK
  case block =>
    intro d k b t hd hy hlow hb
    obtain ⟨hd, hy⟩ := hold hd hy
    exact hK (h.block hd hy hlow hb)
  case operand =>
    intro b y hb hy
    refine Bool.eq_false_iff.mpr fun hshows ↦ ?_
    have hslot := h.header_shifted hx ha hroom hy hshows
    have hlt : b < s.top + 1 := hb
    exact absurd (h.operand (by omega) hslot.2) (by simp [hshows])
  case sized =>
    intro d k t hd hy
    obtain ⟨hd, hy⟩ := hold hd hy
    exact h.sized hd hy
  case room =>
    intro d k t hd hy
    obtain ⟨hd, hy⟩ := hold hd hy
    exact h.room hd hy
  case field =>
    intro d k b t y hd hy hlow hb hslot
    obtain ⟨hd, hy⟩ := hold hd hy
    refine Bool.eq_false_iff.mpr fun hshows ↦ ?_
    have hslot' := h.header_shifted hx ha hroom hslot hshows
    exact absurd (h.field hd hy hlow hb hslot'.2) (by simp [hshows])
  case above =>
    intro d k v t hd hy hv hle
    obtain ⟨hd, hy⟩ := hold hd hy
    exact h.above hd hy hv hle
  case levels => exact h.levels
  case base => exact h.base
  case fits => exact h.fits.trans_eq (size_shifted _ _ _ _).symm

/-- Moving operands up moves the set along. -/
theorem insert (h : Twin count g K s s') (hx : x.Shown K) :
    Gives (Twin count g) K (Stack.insert a x) s s' fun K' _ _ ↦ a ∈ K' := by
  unfold Gives
  by_cases ha : a ≤ s.top
  · by_cases hroom : s.top < s.low
    · have hinsert : Stack.insert a x s = .ok ()
          { s with slots := shifted a s.top x s.slots, top := s.top + 1 } := by
        simp only [Stack.insert, if_neg (Nat.not_lt.mpr ha), Stack.push,
          if_neg (Nat.not_le.mpr hroom)]
        rfl
      have hinsert' : Stack.insert a x s' = .ok ()
          { s' with slots := shifted a s.top x s'.slots, top := s.top + 1 } := by
        simp only [Stack.insert, h.top, if_neg (Nat.not_lt.mpr ha), Stack.push, h.low,
          if_neg (Nat.not_le.mpr hroom)]
        rfl
      rw [hinsert, hinsert']
      refine .ok ⟨_, Set.subset_insert _ K, h.shift hx ha hroom, ?_⟩
      exact (Nat.lt_or_eq_of_le ha).elim (fun ha ↦ Or.inr (h.mem_of_lt ha)) Or.inl
    · simp only [Stack.insert, h.top, if_neg (Nat.not_lt.mpr ha), Stack.push, h.low,
        if_pos (Nat.not_lt.mp hroom)]
      exact .error ⟨K, subset_rfl, h⟩
  · simp only [Stack.insert, h.top, if_pos (Nat.not_le.mp ha)]
    exact .error ⟨K, subset_rfl, h⟩

theorem releaseSlotEntry (h : Twin count g K s s') (x : Slot) :
    Twin count g K (s.releaseSlotEntry x) (s'.releaseSlotEntry x) := by
  obtain ⟨slots, rfl⟩ := h.exists_slots
  unfold Stack.releaseSlotEntry
  split
  · unfold Stack.releaseEntry
    split
    · exact h.withManaged _
    · exact h
  · exact h

theorem releaseAll : (addrs : List Nat) → (∀ a ∈ addrs, a ∈ K) → {s s' : Stack} →
    Twin count g K s s' →
    Twin count g K (addrs.foldl (fun s addr ↦ Stack.releaseSlotEntry (s.slots.getD addr .null) s) s)
      (addrs.foldl (fun s addr ↦ Stack.releaseSlotEntry (s.slots.getD addr .null) s) s')
  | [], _, _, _, h => h
  | a :: addrs, ha, s, s', h => by
    rw [List.foldl_cons, List.foldl_cons, h.getD (ha a List.mem_cons_self)]
    exact releaseAll addrs (fun b hb ↦ ha b (List.mem_cons_of_mem _ hb)) (h.releaseSlotEntry _)

/-- A block that is freed takes none of another with it, on either stack. -/
theorem freeBlock (h : Twin count g K s s') (hg : g.Shields) (hd : d ∈ K) :
    Alike (Twin count g) K (Stack.freeBlock d) s s' := by
  unfold Alike Gives Stack.freeBlock
  rw [h.base_eq, h.blockLow hd, h.low]
  split
  · exact .ok ⟨K, subset_rfl, h, trivial⟩
  · next hbase =>
    cases hlow : s.blockLow d with
    | error e => exact .error ⟨K, subset_rfl, h⟩
    | ok low =>
      dsimp only
      split
      · exact .ok ⟨K, subset_rfl, h, trivial⟩
      · next heq =>
        obtain rfl : low = s.low := not_not.mp heq
        have haddrs (a : Nat) (ha : a ∈ List.range' s.low (d - s.low)) : s.low ≤ a :=
          (List.mem_range'_1.mp ha).1
        have hgave := gaveUp_releaseAll (fun _ ↦ True) (List.range' s.low (d - s.low))
          (fun _ _ ↦ trivial) s
        have htwin := releaseAll _ (fun a ha ↦ h.mem_of_ge (haddrs a ha)) h
        obtain ⟨t, n, hheader⟩ := header_of_blockLow hlow
        have hsize : d < s.slots.size := (Array.getElem?_eq_some_iff.mp hheader).1
        refine .ok ⟨K, subset_rfl, htwin.withLow (n := d + 1) ?_ ?_ (fun v hv ↦ ?_) ?_, trivial⟩
        · rw [hgave.low]
          exact (blockLow_le hlow).trans (Nat.le_succ d)
        · rw [hgave.slots]
          exact hsize
        · have hv := hg v hv
          have := h.base
          omega
        · -- A block that reached over the header would have it among its fields.
          intro d' hd' t' k hheader' hle
          rw [hgave.slots] at hheader'
          by_contra hover
          exact absurd (h.field hd' hheader' (by omega) (by omega) hheader) nofun

theorem release (h : Twin count g K s s') (hg : g.Shields) (hx : x.Leads K) :
    Alike (Twin count g) K (Stack.release x) s s' := by
  have hmodify : Alike (Twin count g) K (modify (Stack.releaseSlotEntry x)) s s' :=
    .ok ⟨K, subset_rfl, h.releaseSlotEntry x, trivial⟩
  refine hmodify.bind fun K' _ t t' _ hK ht _ ↦ ?_
  cases x with
  | block d => exact ht.freeBlock hg (hK (Slot.leads_block.mp hx))
  | _ => exact .pure ht trivial

/-- An operand with all that belongs to it. -/
theorem pop (h : Twin count g K s s') (hg : g.Shields) :
    Alike (Twin count g) K Stack.pop s s' := by
  unfold Alike Gives Stack.pop
  rw [h.topAddr]
  cases htop : s.topAddr with
  | error e => exact .error ⟨K, subset_rfl, h⟩
  | ok a =>
    have ha : a < s.top := topAddr_ok htop ▸ Nat.lt_succ_self a
    dsimp only
    rw [h.getD (h.mem_of_lt ha)]
    refine (h.withTop_of_le ha.le).release hg ?_
    rw [Array.getD_eq_getD_getElem?]
    cases hslot : s.slots[a]? with
    | none => exact .of_none rfl
    | some x => exact h.leads (h.mem_of_lt ha) hslot

theorem popMany (hg : g.Shields) : (n : Nat) → {K : Set Nat} → {s s' : Stack} →
    Twin count g K s s' → Alike (Twin count g) K (Stack.popMany n) s s'
  | 0, _, _, _, h => .pure h trivial
  | n + 1, _, _, _, h => (h.pop hg).bind fun _ _ _ _ _ _ ht _ ↦ popMany hg n ht

theorem popTo (h : Twin count g K s s') (hg : g.Shields) (a : Nat) :
    Alike (Twin count g) K (Stack.popTo a) s s' := by
  unfold Alike Gives Stack.popTo
  rw [h.top]
  split
  · exact .error ⟨K, subset_rfl, h⟩
  · exact popMany hg _ h

/-- A value that is stored keeps or gets an entry, as the slot that is there says. -/
theorem storeObject (h : Twin count g K s s') (current : Slot) (v : Value) :
    Alike (Twin count g) K (Engine.storeObject a current v) s s' := by
  have hnew : Alike (Twin count g) K (if v.isNull then Stack.setSlot a .null else do
      let i ← Stack.pushEntry v
      Stack.setSlot a (.object i)) s s' := by
    split
    · exact (h.setSlot ⟨.of_none rfl, rfl⟩).alike
    · exact (h.pushEntry v).bind fun _ i _ _ _ _ ht _ ↦ (ht.setSlot ⟨.of_none rfl, rfl⟩).alike
  unfold Engine.storeObject
  cases current with
  | object i => exact h.setEntry i v
  | _ => exact hnew

/-! ### Frames -/

/-- The lowest address is a level from now on. -/
theorem guard (h : Twin count g K s s') :
    Twin count ⟨g.base, Insert.insert s.low g.levels⟩ K s s' :=
  { h with
    above := fun hd hheader hv hle ↦ by
      rcases hv with hv | rfl | hv
      · exact h.above hd hheader (Or.inl hv) hle
      · exact h.above hd hheader (Or.inl rfl) hle
      · exact h.above hd hheader (Or.inr hv) hle
    levels := by
      rintro v (rfl | hv)
      · exact Nat.le_refl _
      · exact h.levels hv }

theorem sealLocals (h : Twin count g K s s') :
    Twin count ⟨s.low, g.levels⟩ K s.sealLocals s'.sealLocals := by
  obtain ⟨slots, rfl⟩ := h.exists_slots
  exact (h.reguard (fun _ ↦ h.levels)
    (fun _ hd _ _ hheader _ hv ↦ h.above hd hheader (Or.inr hv)) s.low).withFloor s.managed.size

/-- A frame ends where it began, and no block that outlives it reaches over that place. -/
theorem reset {g' : Guard} (h : Twin count g' K s s') {m : Mark} (hlow : m.low ∈ g'.levels)
    (hsub : g.levels ⊆ g'.levels) (hlevels : ∀ v ∈ g.levels, m.low ≤ v) (hbase : m.base = g.base) :
    Twin count g K (s.reset m) (s'.reset m) := by
  obtain ⟨slots, rfl⟩ := h.exists_slots
  have hsize : slots.size = s.slots.size := h.size
  have hend : min (max m.low s.low) s.slots.size = min m.low s.slots.size := by
    rw [max_eq_left (h.levels hlow)]
  have hguard : Twin count g K { s with base := g.base } { s with slots, base := g.base } :=
    h.reguard (fun _ hv ↦ h.levels (hsub hv))
      (fun _ hd _ _ hheader _ hv ↦ h.above hd hheader (Or.inr (hsub hv))) g.base
  have hrest := ((hguard.withLow (n := min m.low s.slots.size) ?_ ?_ ?_ ?_).withTop_of_le
    (min_le_right m.top s.top)).withFloor m.floor |>.withManaged (s.managed.shrink m.entries)
  · simpa only [Stack.reset, hend, hsize, hbase] using hrest
  · exact le_min (h.levels hlow) h.fits
  · exact min_le_right _ _
  · exact fun v hv ↦ (min_le_left _ _).trans (hlevels v hv)
  · intro d hd t n hheader hle
    have hd' : d < s.slots.size := (Array.getElem?_eq_some_iff.mp hheader).1
    exact (min_le_left _ _).trans (h.above hd hheader (Or.inr hlow) (by omega))

end Twin

end Stack

end ManagedMachine
