import ManagedMachine.Proofs.Headers

/-!
# The two regions of a stack

Operands grow from below and blocks from above. Freeing and resetting move the ends of both regions
by minima, maxima and addresses that were saved at other times; whatever these are, an operation
that writes no slot leaves both regions apart (`Stack.Recedes`). Operands are written below the
blocks, and blocks between the two ends.
-/

set_option autoImplicit false
set_option relaxedAutoImplicit false

namespace ManagedMachine

/-- What can be done to a stack, with marks and bounds from anywhere. -/
inductive StackOp where
  | push (slot : Slot)
  | pushObject (v : Value)
  | pop
  | popTo (addr : Nat)
  | insert (addr : Nat) (slot : Slot)
  | pushEntry (v : Value)
  | setEntry (i : Nat) (v : Value)
  | release (slot : Slot)
  | allocBlock (type : TypeId) (fields : Nat)
  | freeBlock (d : Nat)
  | reset (m : Stack.Mark)
  | enterFrame
  | sealLocals
  | leaveFrame (b : Stack.Bounds)
  | clear

namespace StackOp

/-- The operation as it is run, with whatever operands it was given. -/
def run : StackOp → StackM Unit
  | push slot => Stack.push slot
  | pushObject v => Stack.pushObject v
  | pop => Stack.pop
  | popTo addr => Stack.popTo addr
  | insert addr slot => Stack.insert addr slot
  | pushEntry v => do let _ ← Stack.pushEntry v
  | setEntry i v => Stack.setEntry i v
  | release slot => Stack.release slot
  | allocBlock type fields => do let _ ← Stack.allocBlock type fields
  | freeBlock d => Stack.freeBlock d
  | reset m => modify (Stack.reset m)
  | enterFrame => modify Stack.enterFrame
  | sealLocals => modify Stack.sealLocals
  | leaveFrame b => modify (Stack.leaveFrame b)
  | clear => modify Stack.clear

/-- Only the allocation of a block writes a header. -/
def WritesNoHeader : StackOp → Prop
  | push slot | insert _ slot => slot.isHeader = false
  | _ => True

/-- Where an operation may write. -/
def region (s : Stack) : StackOp → Set Nat
  | push _ | pushObject _ | insert .. => {a | a < s.low}
  | allocBlock .. => {a | s.top ≤ a ∧ a < s.low}
  | _ => ∅

end StackOp

namespace Stack

/-! ### Operations that write no slot -/

/-- Operands are gone at most, and blocks. -/
structure Recedes (s s' : Stack) : Prop where
  slots : s'.slots = s.slots
  top : s'.top ≤ s.top
  low : s.low ≤ s.slots.size → s.low ≤ s'.low ∧ s'.low ≤ s.slots.size

instance : IsPreorder Stack Recedes where
  refl _ := ⟨rfl, Nat.le_refl _, fun h ↦ ⟨Nat.le_refl _, h⟩⟩
  trans s s' s'' h h' := by
    refine ⟨h'.slots.trans h.slots, h'.top.trans h.top, fun hlow ↦ ?_⟩
    obtain ⟨hle, hfits⟩ := h.low hlow
    obtain ⟨hle', hfits'⟩ := h'.low (h.slots ▸ hfits)
    exact ⟨hle.trans hle', h.slots ▸ hfits'⟩

variable {s s' : Stack}

theorem Recedes.of_eq (hslots : s'.slots = s.slots) (htop : s'.top = s.top)
    (hlow : s'.low = s.low) : Recedes s s' :=
  ⟨hslots, htop.le, fun h ↦ ⟨hlow.ge, hlow.le.trans h⟩⟩

theorem GaveUp.recedes {given : Nat → Prop} (h : GaveUp given s s') : Recedes s s' :=
  .of_eq h.slots h.top h.low

/-- A block that is freed lies on the stack with its header. -/
theorem recedes_of_blockLow {d : Nat} (h : s.blockLow d = .ok s.low) :
    Recedes s { s with low := d + 1 } := by
  obtain ⟨t, n, hheader⟩ := header_of_blockLow h
  have hsize : d < s.slots.size := (Array.getElem?_eq_some_iff.mp hheader).1
  exact ⟨rfl, Nat.le_refl _, fun _ ↦ ⟨Nat.le_succ_of_le (blockLow_le h), hsize⟩⟩

theorem recedes_freeBlock (d : Nat) : ManagedMachine.Keeps Recedes (freeBlock d) := by
  intro s
  rcases endState_freeBlock d s with hsame | ⟨-, hlow, hgave⟩
  · rw [hsame]
    exact refl_of Recedes s
  · exact trans_of Recedes (recedes_of_blockLow hlow) hgave.recedes

theorem recedes_releaseSlotEntry (slot : Slot) (s : Stack) :
    Recedes s (releaseSlotEntry slot s) := by
  unfold releaseSlotEntry releaseEntry
  split
  · split <;> exact .of_eq rfl rfl rfl
  · exact refl_of Recedes s

theorem recedes_release (slot : Slot) : ManagedMachine.Keeps Recedes (release slot) := by
  refine ManagedMachine.Keeps.seqRight (.modify fun s ↦ recedes_releaseSlotEntry slot s) ?_
  split
  · exact recedes_freeBlock _
  · exact .pure _

/-- Popping an operand only moves ends towards the outside, whatever it releases. -/
theorem recedes_pop : ManagedMachine.Keeps Recedes pop := by
  intro s
  by_cases htop : s.top = 0
  · have hend : endState pop s = s := by simp only [endState, pop, topAddr, fail, htop, if_true]
    rw [hend]
    exact refl_of Recedes s
  · have hend : endState pop s = endState (release (s.slots.getD (s.top - 1) .null))
        { s with top := s.top - 1 } := by
      simp only [endState, pop, topAddr, if_neg htop]
    rw [hend]
    have hlowered : Recedes s { s with top := s.top - 1 } :=
      ⟨rfl, Nat.sub_le _ _, fun h ↦ ⟨Nat.le_refl _, h⟩⟩
    exact trans_of Recedes hlowered (recedes_release _ _)

theorem recedes_popMany : (n : Nat) → ManagedMachine.Keeps Recedes (popMany n)
  | 0 => .pure _
  | n + 1 => recedes_pop.seqRight (recedes_popMany n)

theorem recedes_popTo (addr : Nat) : ManagedMachine.Keeps Recedes (popTo addr) := by
  intro s
  by_cases h : s.top < addr
  · have hend : endState (popTo addr) s = s := by simp only [endState, popTo, if_pos h]
    rw [hend]
    exact refl_of Recedes s
  · have hend : endState (popTo addr) s = endState (popMany (s.top - addr)) s := by
      simp only [endState, popTo, if_neg h]
    rw [hend]
    exact recedes_popMany _ s

theorem recedes_pushEntry (v : Value) : ManagedMachine.Keeps Recedes (pushEntry v) :=
  fun _ ↦ .of_eq rfl rfl rfl

theorem recedes_setEntry (i : Nat) (v : Value) : ManagedMachine.Keeps Recedes (setEntry i v) := by
  intro s
  by_cases h : i < s.managed.size
  · have hend : endState (setEntry i v) s = { s with managed := s.managed.setIfInBounds i v } := by
      simp only [endState, setEntry, if_pos h]
    rw [hend]
    exact .of_eq rfl rfl rfl
  · have hend : endState (setEntry i v) s = s := by simp only [endState, setEntry, if_neg h]
    rw [hend]
    exact refl_of Recedes s

theorem recedes_reset (m : Mark) (s : Stack) : Recedes s (s.reset m) := by
  refine ⟨rfl, Nat.min_le_right _ _, fun h ↦ ⟨?_, Nat.min_le_right _ _⟩⟩
  exact Nat.le_min.mpr ⟨Nat.le_max_right _ _, h⟩

theorem recedes_clear (s : Stack) : Recedes s s.clear :=
  ⟨rfl, Nat.zero_le _, fun h ↦ ⟨h, Nat.le_refl _⟩⟩

/-! ### Regions -/

/-- Operands lie below the blocks, and no operand is a header. -/
structure Apart (s : Stack) : Prop where
  top : s.top ≤ s.low
  low : s.low ≤ s.capacity
  operands {d n : Nat} {t : TypeId} : s.slots[d]? = some (.header t n) → s.top ≤ d
  room {d n : Nat} {t : TypeId} : s.slots[d]? = some (.header t n) → n ≤ d

theorem apart_empty (capacity : Nat) : (empty capacity).Apart := by
  have hnone {d n : Nat} {t : TypeId} {P : Prop}
      (h : (empty capacity).slots[d]? = some (.header t n)) : P := by
    rw [empty, Array.getElem?_replicate] at h
    split at h <;> cases h
  exact ⟨Nat.zero_le _, (Array.size_replicate ..).ge, hnone, hnone⟩

theorem Apart.recedes (h : s.Apart) (hs : Recedes s s') : s'.Apart := by
  obtain ⟨hlow, hfits⟩ := hs.low h.low
  refine ⟨hs.top.trans (h.top.trans hlow), ?_, fun hd ↦ ?_, fun hd ↦ ?_⟩
  · rw [capacity, hs.slots]
    exact hfits
  · rw [hs.slots] at hd
    exact hs.top.trans (h.operands hd)
  · rw [hs.slots] at hd
    exact h.room hd

/-- What an operation on the stack has to respect. -/
structure Respects (region : Set Nat) (s s' : Stack) : Prop where
  apart : s'.Apart
  capacity : s'.capacity = s.capacity
  outside : ∀ a, a ∉ region → s'.slots[a]? = s.slots[a]?

theorem Apart.respects_of_recedes (h : s.Apart) (hs : Recedes s s') (region : Set Nat) :
    Respects region s s' :=
  ⟨h.recedes hs, congrArg Array.size hs.slots, fun a _ ↦ congrArg (·[a]?) hs.slots⟩

theorem Respects.after {s'' : Stack} {region : Set Nat} (hs : Recedes s s')
    (h : Respects region s' s'') : Respects region s s'' :=
  ⟨h.apart, h.capacity.trans (congrArg Array.size hs.slots),
    fun a ha ↦ (h.outside a ha).trans (congrArg (·[a]?) hs.slots)⟩

/-- An operand is written below all blocks. -/
theorem Apart.push (h : s.Apart) {slot : Slot} (hslot : slot.isHeader = false) :
    Respects {a | a < s.low} s (endState (push slot) s) := by
  cases hpush : Stack.push slot s with
  | error e s' =>
    rw [endState_error hpush]
    have hsame : s' = s := by
      unfold Stack.push at hpush
      split at hpush <;> cases hpush
      rfl
    rw [hsame]
    exact h.respects_of_recedes (refl_of Recedes s) _
  | ok u s' =>
    rw [endState_ok hpush]
    obtain ⟨hroom, rfl⟩ := push_ok hpush
    have hfits : s.top < s.slots.size := hroom.trans_le h.low
    have hheader {d n : Nat} {t : TypeId}
        (hd : (s.slots.setIfInBounds s.top slot)[d]? = some (.header t n)) :
        s.slots[d]? = some (.header t n) ∧ d ≠ s.top :=
      (header_of_setSlot hslot hd).imp id fun hne ↦ hne hfits
    refine ⟨⟨hroom, ?_, fun hd ↦ ?_, fun hd ↦ h.room (hheader hd).1⟩, ?_, fun a ha ↦ ?_⟩
    · exact h.low.trans_eq Array.size_setIfInBounds.symm
    · have htop := h.operands (hheader hd).1
      exact Nat.lt_of_le_of_ne htop (hheader hd).2.symm
    · exact Array.size_setIfInBounds
    · refine Array.getElem?_setIfInBounds_ne ?_
      rintro rfl
      exact ha hroom

/-- So is a reference to a new entry. -/
theorem Apart.pushObject (h : s.Apart) (v : Value) :
    Respects {a | a < s.low} s (endState (pushObject v) s) := by
  unfold Stack.pushObject
  split
  · exact h.push rfl
  · have hentry : Recedes s (endState (pushEntry v) s) := recedes_pushEntry v s
    have hslot : (Slot.object s.managed.size).isHeader = false := rfl
    exact .after hentry ((h.recedes hentry).push hslot)

/-- Making room among the operands moves them up by one, which is still below all blocks. -/
theorem Apart.insert (h : s.Apart) (addr : Nat) {slot : Slot} (hslot : slot.isHeader = false) :
    Respects {a | a < s.low} s (endState (insert addr slot) s) := by
  cases hinsert : Stack.insert addr slot s with
  | error e s' =>
    rw [endState_error hinsert, insert_error hinsert]
    exact h.respects_of_recedes (refl_of Recedes s) _
  | ok u s' =>
    rw [endState_ok hinsert]
    obtain ⟨haddr, hroom, rfl⟩ := insert_ok hinsert
    have hfits : s.top < s.slots.size := hroom.trans_le h.low
    -- Operands that move are no headers, so a header lies after all of them.
    have hheader {d n : Nat} {t : TypeId}
        (hd : (shifted addr s.top slot s.slots)[d]? = some (.header t n)) :
        s.slots[d]? = some (.header t n) ∧ s.top < d := by
      rw [getElem?_shifted slot hfits haddr] at hd
      split at hd
      · cases hd
        cases hslot
      · split at hd
        · have htop := h.operands hd
          omega
        · have htop := h.operands hd
          exact ⟨hd, by omega⟩
    refine ⟨⟨hroom, ?_, fun hd ↦ (hheader hd).2, fun hd ↦ h.room (hheader hd).1⟩,
      size_shifted .., fun a ha ↦ ?_⟩
    · exact h.low.trans_eq (size_shifted ..).symm
    · replace ha : ¬a < s.low := ha
      exact (getElem?_shifted slot hfits haddr a).trans
        (by rw [if_neg (by omega), if_neg (by omega)])

/-- A block is written between the two ends. -/
theorem Apart.allocBlock (h : s.Apart) (t : TypeId) (n : Nat) :
    Respects {a | s.top ≤ a ∧ a < s.low} s (endState (allocBlock t n) s) := by
  cases halloc : Stack.allocBlock t n s with
  | error e s' =>
    rw [endState_error halloc]
    have hsame : s' = s := by
      unfold Stack.allocBlock at halloc
      split at halloc <;> cases halloc
      rfl
    rw [hsame]
    exact h.respects_of_recedes (refl_of Recedes s) _
  | ok d s' =>
    rw [endState_ok halloc]
    obtain ⟨hroom, rfl, rfl⟩ := allocBlock_ok halloc
    have hfits : s.low ≤ s.slots.size := h.low
    have hslot (a : Nat) : (withBlock (s.low - 1) n t s.slots)[a]? = _ :=
      getElem?_withBlock t (by omega) (by omega) a
    have hheader {d k : Nat} {t' : TypeId}
        (hd : (withBlock (s.low - 1) n t s.slots)[d]? = some (.header t' k)) :
        s.top ≤ d ∧ k ≤ d := by
      rw [hslot] at hd
      split at hd
      · cases hd
        omega
      · split at hd
        · cases hd
        · exact ⟨h.operands hd, h.room hd⟩
    refine ⟨⟨?_, ?_, fun hd ↦ (hheader hd).1, fun hd ↦ (hheader hd).2⟩, size_withBlock ..,
      fun a ha ↦ ?_⟩
    · change s.top ≤ s.low - 1 - n
      omega
    · change s.low - 1 - n ≤ (withBlock (s.low - 1) n t s.slots).size
      rw [size_withBlock]
      omega
    · replace ha : ¬(s.top ≤ a ∧ a < s.low) := ha
      exact (hslot a).trans (by rw [if_neg (by omega), if_neg (by omega)])

/-- Every operation keeps the regions apart and writes in its own region. -/
theorem Apart.step (h : s.Apart) (op : StackOp) (hop : op.WritesNoHeader) :
    Respects (op.region s) s (endState op.run s) := by
  cases op with
  | push slot => exact h.push hop
  | pushObject v => exact h.pushObject v
  | pop => exact h.respects_of_recedes (recedes_pop s) _
  | popTo addr => exact h.respects_of_recedes (recedes_popTo addr s) _
  | insert addr slot => exact h.insert addr hop
  | pushEntry v => exact h.respects_of_recedes (((recedes_pushEntry v).bind fun _ ↦ .pure _) s) _
  | setEntry i v => exact h.respects_of_recedes (recedes_setEntry i v s) _
  | release slot => exact h.respects_of_recedes (recedes_release slot s) _
  | allocBlock t n =>
    have hend : endState (StackOp.allocBlock t n).run s = endState (Stack.allocBlock t n) s := by
      cases halloc : Stack.allocBlock t n s with
      | ok d s' => rw [endState_ok halloc, StackOp.run, endState_bind halloc]; rfl
      | error e s' => rw [endState_error halloc, StackOp.run, endState_error (bind_of_error halloc)]
    rw [hend]
    exact h.allocBlock t n
  | freeBlock d => exact h.respects_of_recedes (recedes_freeBlock d s) _
  | reset m => exact h.respects_of_recedes (recedes_reset m s) _
  | enterFrame =>
    have hbounds : Recedes s s.enterFrame := .of_eq rfl rfl rfl
    exact h.respects_of_recedes hbounds _
  | sealLocals =>
    have hbounds : Recedes s s.sealLocals := .of_eq rfl rfl rfl
    exact h.respects_of_recedes hbounds _
  | leaveFrame b =>
    have hbounds : Recedes s (s.leaveFrame b) := .of_eq rfl rfl rfl
    exact h.respects_of_recedes hbounds _
  | clear => exact h.respects_of_recedes (recedes_clear s) _

/-! ### Sequences of operations -/

/-- The stacks that come from an empty one. -/
inductive Reached (capacity : Nat) : Stack → Prop
  | empty : Reached capacity (.empty capacity)
  | step {s : Stack} (h : Reached capacity s) (op : StackOp) (hop : op.WritesNoHeader) :
      Reached capacity (endState op.run s)

/-- By induction on the operations, none of which changes the capacity. -/
theorem Reached.apart {capacity : Nat} (h : Reached capacity s) :
    s.Apart ∧ s.capacity = capacity := by
  induction h with
  | empty => exact ⟨apart_empty capacity, Array.size_replicate ..⟩
  | step _ op hop ih =>
    have hrespects := ih.1.step op hop
    exact ⟨hrespects.apart, hrespects.capacity.trans ih.2⟩

/-- Operands and blocks never overlap. However a stack came about, its ends are in order; pushing
and inserting write below the blocks, an allocation writes between the ends and no other operation
writes any slot; and the fields of a block lie below its header, inside of the block. -/
theorem regions_disjoint {capacity : Nat} (h : Reached capacity s) :
    s.top ≤ s.low ∧ s.low ≤ capacity ∧ s.capacity = capacity ∧
    (∀ op : StackOp, op.WritesNoHeader → ∀ a, a ∉ op.region s →
      (endState op.run s).slots[a]? = s.slots[a]?) ∧
    (∀ d i a, s.fieldAddr d i = .ok a →
      ∃ t n, s.slots[d]? = some (.header t n) ∧ n ≤ d ∧ d - n ≤ a ∧ a < d) := by
  obtain ⟨hapart, hcapacity⟩ := h.apart
  refine ⟨hapart.top, hcapacity ▸ hapart.low, hcapacity,
    fun op hop ↦ (hapart.step op hop).outside, fun d i a ha ↦ ?_⟩
  obtain ⟨t, n, hd, hi, rfl⟩ := fieldAddr_ok ha
  have hroom := hapart.room hd
  exact ⟨t, n, hd, hroom, by omega, by omega⟩

/-- A full stack: a number, and a block with two fields. -/
def full : Stack :=
  endState (StackOp.allocBlock ⟨0⟩ 2).run (endState (StackOp.push (.int32 1)).run (empty 4))

theorem reached_full : Reached 4 full :=
  .step (.step .empty (.push (.int32 1)) rfl) (.allocBlock ⟨0⟩ 2) trivial

theorem regions_disjoint_full : full.top = 1 ∧ full.low = 1 ∧ full.fieldAddr 3 1 = .ok 1 ∧
    full.top ≤ full.low ∧
    ∀ a, ¬a < 1 → (endState (StackOp.push .null).run full).slots[a]? = full.slots[a]? := by
  obtain ⟨hends, -, -, hwrites, -⟩ := regions_disjoint reached_full
  exact ⟨rfl, rfl, rfl, hends, hwrites (.push .null) rfl⟩

end Stack

end ManagedMachine
