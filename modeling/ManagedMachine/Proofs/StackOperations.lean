import ManagedMachine.Proofs.Keeping
import ManagedMachine.Stack

/-!
The operations of the stack, each by what it leaves behind when it succeeds. Popping is described
for failures too: the operand is gone even when what it owns cannot be released. `Stack.GaveUp`
accounts for every entry that the table has lost: some slot that was released owned it.
-/

set_option autoImplicit false
set_option relaxedAutoImplicit false

namespace ManagedMachine

theorem Slot.zero_numeric (p : Primitive) :
    Slot.zero p = .null ∨ (Slot.zero p).isNumeric = true := by
  unfold Slot.zero
  cases p.slotKind <;> simp [Slot.isNumeric]

namespace Stack

/-! ### Queries -/

theorem slotAt_ok {a : Nat} {s : Slot} {st : Stack} (h : st.slotAt a = .ok s) :
    st.slots[a]? = some s := by
  unfold slotAt at h
  split at h
  · next hs =>
    cases h
    exact hs
  · cases h

theorem topAddr_ok {a : Nat} {st : Stack} (h : st.topAddr = .ok a) : st.top = a + 1 := by
  unfold topAddr at h
  split at h
  · cases h
  · cases h
    omega

theorem topSlot_ok {s : Slot} {st : Stack} (h : st.topSlot = .ok s) :
    0 < st.top ∧ st.slots[st.top - 1]? = some s := by
  unfold topSlot at h
  cases ha : st.topAddr with
  | error e => simp only [ha, bind, Except.bind, reduceCtorEq] at h
  | ok a =>
    simp only [ha, bind, Except.bind] at h
    rw [topAddr_ok ha]
    exact ⟨Nat.succ_pos a, slotAt_ok h⟩

theorem peek_ok {depth : Nat} {s : Slot} {st : Stack} (h : st.peek depth = .ok s) :
    depth < st.top ∧ st.slots[st.top - (depth + 1)]? = some s := by
  unfold peek at h
  split at h
  · cases h
  · next hdepth => exact ⟨Nat.lt_of_not_le hdepth, slotAt_ok h⟩

/-- A header that was read is there. -/
theorem header_ok {d n : Nat} {t : TypeId} {st : Stack} (h : st.header d = .ok (t, n)) :
    st.slots[d]? = some (.header t n) := by
  unfold header at h
  cases hs : st.slotAt d with
  | error e => simp only [hs, bind, Except.bind, reduceCtorEq] at h
  | ok s =>
    simp only [hs, bind, Except.bind] at h
    split at h
    · cases h
      exact slotAt_ok hs
    · cases h

/-- Fields of a block are below its header, counted down from it. -/
theorem fieldAddr_ok {d i a : Nat} {st : Stack} (h : st.fieldAddr d i = .ok a) :
    ∃ t n, st.slots[d]? = some (.header t n) ∧ i < n ∧ a = d - 1 - i := by
  unfold fieldAddr at h
  cases hd : st.header d with
  | error e => simp only [hd, bind, Except.bind, reduceCtorEq] at h
  | ok p =>
    obtain ⟨t, n⟩ := p
    simp only [hd, bind, Except.bind] at h
    split at h
    · cases h
    · next hi =>
      cases h
      exact ⟨t, n, header_ok hd, Nat.lt_of_not_le hi, rfl⟩

/-! ### Changes -/

theorem setSlot_ok {a : Nat} {s : Slot} {st st' : Stack} (h : setSlot a s st = .ok () st') :
    a < st.slots.size ∧ st' = { st with slots := st.slots.setIfInBounds a s } := by
  unfold setSlot at h
  split at h
  · next ha =>
    cases h
    exact ⟨ha, rfl⟩
  · cases h

theorem setEntry_ok {i : Nat} {x : Value} {st st' : Stack} (h : setEntry i x st = .ok () st') :
    i < st.managed.size ∧ st' = { st with managed := st.managed.setIfInBounds i x } := by
  unfold setEntry at h
  split at h
  · next hi =>
    cases h
    exact ⟨hi, rfl⟩
  · cases h

theorem push_ok {s : Slot} {st st' : Stack} (h : push s st = .ok () st') :
    st.top < st.low ∧
      st' = { st with slots := st.slots.setIfInBounds st.top s, top := st.top + 1 } := by
  unfold push at h
  split at h
  · cases h
  · next hroom =>
    cases h
    exact ⟨Nat.lt_of_not_le hroom, rfl⟩

/-- The slots after operands from `a` on have moved up by one to make room for a slot. -/
def shifted (a top : Nat) (s : Slot) (slots : Array Slot) : Array Slot :=
  ((top - a).fold (fun i _ slots ↦
    slots.setIfInBounds (top - i) (slots.getD (top - i - 1) .null))
    (slots.setIfInBounds top .null)).setIfInBounds a s

/-- Slots from an address on move up by one. -/
theorem insert_ok {a : Nat} {s : Slot} {st st' : Stack} (h : insert a s st = .ok () st') :
    a ≤ st.top ∧ st.top < st.low ∧
      st' = { st with slots := shifted a st.top s st.slots, top := st.top + 1 } := by
  unfold insert at h
  split at h
  · cases h
  · next ha =>
    cases hpush : push .null st with
    | error e st'' =>
      rw [hpush] at h
      cases h
    | ok u st'' =>
      rw [hpush] at h
      obtain ⟨hroom, rfl⟩ := push_ok hpush
      cases h
      exact ⟨Nat.le_of_not_lt ha, hroom, rfl⟩

@[simp] theorem size_shifted (a top : Nat) (s : Slot) (slots : Array Slot) :
    (shifted a top s slots).size = slots.size := by
  have hfold (n : Nat) (slots : Array Slot) (f : Nat → Array Slot → Nat × Slot) :
      (n.fold (fun i _ slots ↦ slots.setIfInBounds (f i slots).1 (f i slots).2) slots).size =
        slots.size := by
    induction n with
    | zero => rfl
    | succ n ih => rw [Nat.fold_succ, Array.size_setIfInBounds, ih]
  rw [shifted, Array.size_setIfInBounds,
    hfold _ _ fun i slots ↦ (top - i, slots.getD (top - i - 1) .null), Array.size_setIfInBounds]

/-- The slots from `a` on have moved up by one. -/
theorem getElem?_shifted {a top : Nat} (s : Slot) {slots : Array Slot} (hsize : top < slots.size)
    (ha : a ≤ top) (x : Nat) : (shifted a top s slots)[x]? =
      if x = a then some s else if a < x ∧ x ≤ top then slots[x - 1]? else slots[x]? := by
  have hfold (n : Nat) (hn : n ≤ top - a) : (n.fold (fun i _ slots ↦
      slots.setIfInBounds (top - i) (slots.getD (top - i - 1) .null))
      (slots.setIfInBounds top .null)).size = slots.size ∧ ∀ x,
      (n.fold (fun i _ slots ↦ slots.setIfInBounds (top - i) (slots.getD (top - i - 1) .null))
        (slots.setIfInBounds top .null))[x]? =
      if top - n < x ∧ x ≤ top then slots[x - 1]?
      else if x = top then some .null else slots[x]? := by
    induction n with
    | zero =>
      refine ⟨Array.size_setIfInBounds, fun x ↦ ?_⟩
      rw [Nat.fold_zero, Array.getElem?_setIfInBounds]
      by_cases hx : top = x
      · subst hx
        simp [hsize]
      · rw [if_neg hx, if_neg (by omega), if_neg (Ne.symm hx)]
    | succ n ih =>
      obtain ⟨hlength, hget⟩ := ih (Nat.le_of_succ_le hn)
      refine ⟨by rw [Nat.fold_succ, Array.size_setIfInBounds, hlength], fun x ↦ ?_⟩
      rw [Nat.fold_succ, Array.getElem?_setIfInBounds, hlength]
      have hmoved : (n.fold (fun i _ slots ↦
          slots.setIfInBounds (top - i) (slots.getD (top - i - 1) .null))
          (slots.setIfInBounds top .null)).getD (top - n - 1) .null =
          slots.getD (top - n - 1) .null := by
        rw [Array.getD_eq_getD_getElem?, Array.getD_eq_getD_getElem?, hget,
          if_neg (by omega), if_neg (by omega)]
      rw [hmoved]
      by_cases hx : top - n = x
      · subst hx
        rw [if_pos rfl, if_pos (by omega), if_pos (by omega), Array.getD_eq_getD_getElem?,
          Array.getElem?_eq_getElem (by omega)]
        rfl
      · rw [if_neg hx, hget]
        by_cases hin : top - (n + 1) < x ∧ x ≤ top
        · rw [if_pos hin, if_pos (by omega)]
        · rw [if_neg hin, if_neg (by omega)]
  obtain ⟨hlength, hget⟩ := hfold (top - a) (Nat.le_refl _)
  rw [shifted, Array.getElem?_setIfInBounds, hlength, hget]
  by_cases hx : a = x
  · subst hx
    rw [if_pos rfl, if_pos (by omega), if_pos rfl]
  · rw [if_neg hx, if_neg (Ne.symm hx)]
    by_cases hin : a < x ∧ x ≤ top
    · rw [if_pos hin, if_pos (by omega)]
    · rw [if_neg hin, if_neg (by omega), if_neg (by omega)]

theorem insert_top {a : Nat} {s : Slot} {st st' : Stack} (h : insert a s st = .ok () st') :
    st'.top = st.top + 1 := by
  obtain ⟨-, -, rfl⟩ := insert_ok h
  rfl

theorem insert_error {a : Nat} {s : Slot} {e : Error} {st st' : Stack}
    (h : insert a s st = .error e st') : st' = st := by
  unfold insert at h
  split at h
  · cases h
    rfl
  · unfold push at h
    split at h
    · next hpush =>
      split at hpush <;> cases hpush
      cases h
      rfl
    · cases h

/-- The slots after a block of null fields was set up with header `d`. -/
def withBlock (d n : Nat) (t : TypeId) (slots : Array Slot) : Array Slot :=
  (List.range' (d - n) n).foldl (fun slots addr ↦ slots.setIfInBounds addr .null)
    (slots.setIfInBounds d (.header t n))

theorem allocBlock_ok {t : TypeId} {n d : Nat} {st st' : Stack}
    (h : allocBlock t n st = .ok d st') :
    st.top + n + 1 ≤ st.low ∧ d = st.low - 1 ∧
      st' = { st with slots := withBlock (st.low - 1) n t st.slots, low := st.low - 1 - n } := by
  unfold allocBlock at h
  split at h
  · cases h
  · next hroom =>
    cases h
    exact ⟨Nat.le_of_not_lt hroom, rfl, rfl⟩

/-- Blocks are written into the array, which stays as long as it is. -/
@[simp] theorem size_withBlock (d n : Nat) (t : TypeId) (slots : Array Slot) :
    (withBlock d n t slots).size = slots.size := by
  have hfold : ∀ (addrs : List Nat) (slots : Array Slot),
      (addrs.foldl (fun slots addr ↦ slots.setIfInBounds addr .null) slots).size = slots.size := by
    intro addrs
    induction addrs with
    | nil => exact fun _ ↦ rfl
    | cons addr addrs ih =>
      intro slots
      rw [List.foldl_cons, ih, Array.size_setIfInBounds]
  rw [withBlock, hfold, Array.size_setIfInBounds]

theorem getElem?_nullAll (addrs : List Nat) (slots : Array Slot) (a : Nat) :
    (addrs.foldl (fun slots addr ↦ slots.setIfInBounds addr .null) slots)[a]? =
      if a ∈ addrs ∧ a < slots.size then some .null else slots[a]? := by
  induction addrs generalizing slots with
  | nil => simp
  | cons b addrs ih =>
    rw [List.foldl_cons, ih, Array.size_setIfInBounds, Array.getElem?_setIfInBounds]
    by_cases hb : b = a
    · subst hb
      by_cases hsize : b < slots.size <;> simp [hsize]
    · simp [hb, Ne.symm hb]

/-- A block is its header with null fields below it. -/
theorem getElem?_withBlock {d n : Nat} (t : TypeId) {slots : Array Slot} (hd : d < slots.size)
    (hn : n ≤ d) (a : Nat) : (withBlock d n t slots)[a]? =
      if a = d then some (.header t n)
      else if d - n ≤ a ∧ a < d then some .null else slots[a]? := by
  rw [withBlock, getElem?_nullAll, Array.size_setIfInBounds, Array.getElem?_setIfInBounds]
  have hrange : a ∈ List.range' (d - n) n ∧ a < slots.size ↔ d - n ≤ a ∧ a < d := by
    rw [List.mem_range'_1]
    omega
  simp only [hrange]
  by_cases had : a = d
  · subst had
    simp [hd]
  · simp [had, Ne.symm had]

/-! ### Releasing -/

/-- The later stack differs in the entries that it has lost, which slots at `given` owned. -/
structure GaveUp (given : Nat → Prop) (st st' : Stack) : Prop where
  slots : st'.slots = st.slots
  top : st'.top = st.top
  low : st'.low = st.low
  base : st'.base = st.base
  floor : st'.floor = st.floor
  entries : st'.entries ≤ st.entries
  lost : ∀ i, st'.entries ≤ i → i < st.entries →
    st.floor ≤ i ∧ ∃ a, given a ∧ Slot.entry? (st.slots.getD a .null) = some i

theorem GaveUp.refl (given : Nat → Prop) (st : Stack) : GaveUp given st st :=
  ⟨rfl, rfl, rfl, rfl, rfl, Nat.le_refl _,
    fun _ hi hi' ↦ absurd hi (Nat.not_le_of_lt hi')⟩

theorem GaveUp.trans {given : Nat → Prop} {st st' st'' : Stack} (h : GaveUp given st st')
    (h' : GaveUp given st' st'') : GaveUp given st st'' := by
  refine ⟨h'.slots.trans h.slots, h'.top.trans h.top, h'.low.trans h.low, h'.base.trans h.base,
    h'.floor.trans h.floor, Nat.le_trans h'.entries h.entries, fun i hi hi' ↦ ?_⟩
  rcases Nat.lt_or_ge i st'.entries with hlt | hge
  · obtain ⟨hfloor, a, ha, hentry⟩ := h'.lost i hi hlt
    rw [h.slots] at hentry
    exact ⟨h.floor ▸ hfloor, a, ha, hentry⟩
  · exact h.lost i hge hi'

theorem GaveUp.mono {given given' : Nat → Prop} {st st' : Stack} (h : GaveUp given st st')
    (hle : ∀ a, given a → given' a) : GaveUp given' st st' :=
  { h with
    lost := fun i hi hi' ↦
      let ⟨hfloor, a, ha, hentry⟩ := h.lost i hi hi'
      ⟨hfloor, a, hle a ha, hentry⟩ }

/-- No entry below the floor is lost. -/
theorem GaveUp.floor_le {given : Nat → Prop} {st st' : Stack} (h : GaveUp given st st') {n : Nat}
    (hfloor : n ≤ st.floor) (hn : n ≤ st.entries) : n ≤ st'.entries := by
  refine Nat.le_of_not_lt fun hlt ↦ ?_
  have hlost := h.lost (n - 1) (by omega) (by omega)
  omega

theorem gaveUp_releaseSlotEntry (a : Nat) (st : Stack) :
    GaveUp (· = a) st (releaseSlotEntry (st.slots.getD a .null) st) := by
  unfold releaseSlotEntry
  split
  · next i hentry =>
    unfold releaseEntry
    split
    · next hlast =>
      refine ⟨rfl, rfl, rfl, rfl, rfl, by simp [entries], fun j hj hj' ↦ ?_⟩
      simp only [entries, Array.size_pop] at hj hj'
      obtain rfl : j = i := by omega
      exact ⟨hlast.2, a, rfl, hentry⟩
    · exact .refl _ _
  · exact .refl _ _

theorem gaveUp_releaseAll (given : Nat → Prop) : (addrs : List Nat) → (∀ a ∈ addrs, given a) →
    (st : Stack) → GaveUp given st (addrs.foldl (fun s addr =>
      releaseSlotEntry (s.slots.getD addr .null) s) st)
  | [], _, st => .refl _ st
  | a :: addrs, h, st => by
    rw [List.foldl_cons]
    exact ((gaveUp_releaseSlotEntry a st).mono fun _ ha ↦ ha ▸ h a List.mem_cons_self).trans
      (gaveUp_releaseAll given addrs (fun b hb ↦ h b (List.mem_cons_of_mem _ hb)) _)

/-- What becomes of a stack when the slot at its top is popped. The block of the slot is freed if it
is the lowest one and no local's. -/
inductive Popped (st st' : Stack) : Prop
  | kept (h : GaveUp (· = st.top - 1) { st with top := st.top - 1 } st')
  | freed {d : Nat} (hslot : st.slots.getD (st.top - 1) .null = .block d) (hbase : d < st.base)
      (hlow : st.blockLow d = .ok st.low)
      (h : GaveUp (fun a ↦ st.low ≤ a ∧ a < d) { st with top := st.top - 1, low := d + 1 } st')

theorem header_congr {st st' : Stack} (h : st'.slots = st.slots) (d : Nat) :
    st'.header d = st.header d := by
  simp only [header, slotAt, h]

theorem blockLow_congr {st st' : Stack} (h : st'.slots = st.slots) (d : Nat) :
    st'.blockLow d = st.blockLow d := by
  induction d using Nat.strongRecOn with
  | ind d ih =>
    rw [blockLow, blockLow, header_congr h]
    congr 1
    funext p
    obtain ⟨t, count⟩ := p
    dsimp only
    congr 1
    funext low a
    rw [h]
    split
    · split
      · next hnested => rw [ih _ hnested]
      · rfl
    · rfl

theorem freeBlock_error {d : Nat} {e : Error} {st st' : Stack}
    (h : freeBlock d st = .error e st') : st' = st := by
  unfold freeBlock at h
  split at h
  · cases h
  · split at h
    · cases h
      rfl
    · split at h <;> cases h

/-- The block is freed if it is the lowest one and no local's, or nothing happens. -/
theorem endState_freeBlock (d : Nat) (st : Stack) : endState (freeBlock d) st = st ∨
    d < st.base ∧ st.blockLow d = .ok st.low ∧
      GaveUp (fun a ↦ st.low ≤ a ∧ a < d) { st with low := d + 1 } (endState (freeBlock d) st) := by
  cases hfree : freeBlock d st with
  | error e st' =>
    rw [endState_error hfree]
    exact Or.inl (freeBlock_error hfree)
  | ok u st' =>
    rw [endState_ok hfree]
    unfold freeBlock at hfree
    split at hfree
    · cases hfree
      exact Or.inl rfl
    · next hbase =>
      split at hfree
      · cases hfree
      · next low hblock =>
        split at hfree
        · cases hfree
          exact Or.inl rfl
        · next hlow =>
          obtain rfl : low = st.low := Decidable.byContradiction hlow
          cases hfree
          refine Or.inr ⟨Nat.lt_of_not_le hbase, hblock, ?_⟩
          have hgave := gaveUp_releaseAll (fun a ↦ st.low ≤ a ∧ a < d)
            (List.range' st.low (d - st.low)) (fun a ha ↦ ?_) st
          · exact ⟨hgave.slots, hgave.top, rfl, hgave.base, hgave.floor, hgave.entries, hgave.lost⟩
          · rw [List.mem_range'_1] at ha
            omega

theorem popped_freeBlock {d : Nat} {st : Stack}
    (hslot : st.slots.getD (st.top - 1) .null = .block d) :
    Popped st (endState (freeBlock d) { st with top := st.top - 1 }) := by
  rcases endState_freeBlock d { st with top := st.top - 1 } with hsame | ⟨hbase, hlow, hgave⟩
  · rw [hsame]
    exact .kept (.refl _ _)
  · exact .freed hslot hbase ((blockLow_congr (by rfl) d).symm.trans hlow) hgave

/-- Popping, whether or not what the operand owns can be released. -/
theorem popped (st : Stack) : Popped st (endState pop st) := by
  by_cases htop : st.top = 0
  · have hend : endState pop st = { st with top := st.top - 1 } := by
      simp only [endState, pop, topAddr, fail, htop]
      cases st
      cases htop
      rfl
    rw [hend]
    exact .kept (.refl _ _)
  · have hend : endState pop st = endState (release (st.slots.getD (st.top - 1) .null))
        { st with top := st.top - 1 } := by
      simp only [endState, pop, topAddr, if_neg htop]
    rw [hend]
    have hentry : Popped st (releaseSlotEntry (st.slots.getD (st.top - 1) .null)
        { st with top := st.top - 1 }) :=
      .kept (gaveUp_releaseSlotEntry (st.top - 1) { st with top := st.top - 1 })
    cases hslot : st.slots.getD (st.top - 1) .null with
    | block d => exact popped_freeBlock hslot
    | _ =>
      rw [hslot] at hentry
      exact hentry

theorem Popped.slots {st st' : Stack} (h : Popped st st') : st'.slots = st.slots := by
  cases h with
  | kept h => exact h.slots
  | freed hslot hbase hlow h => exact h.slots

theorem Popped.top {st st' : Stack} (h : Popped st st') : st'.top = st.top - 1 := by
  cases h with
  | kept h => exact h.top
  | freed hslot hbase hlow h => exact h.top

theorem Popped.base {st st' : Stack} (h : Popped st st') : st'.base = st.base := by
  cases h with
  | kept h => exact h.base
  | freed hslot hbase hlow h => exact h.base

theorem Popped.floor {st st' : Stack} (h : Popped st st') : st'.floor = st.floor := by
  cases h with
  | kept h => exact h.floor
  | freed hslot hbase hlow h => exact h.floor

theorem Popped.entries {st st' : Stack} (h : Popped st st') : st'.entries ≤ st.entries := by
  cases h with
  | kept h => exact h.entries
  | freed hslot hbase hlow h => exact h.entries

/-- No entry below the floor is lost. -/
theorem Popped.floor_le {st st' : Stack} (h : Popped st st') {n : Nat} (hfloor : n ≤ st.floor)
    (hn : n ≤ st.entries) : n ≤ st'.entries := by
  cases h with
  | kept h => exact h.floor_le hfloor hn
  | freed hslot hbase hlow h => exact h.floor_le hfloor hn

/-- Blocks of locals are not freed. -/
theorem Popped.low_le {st st' : Stack} (h : Popped st st') {n : Nat} (hbase : st.base ≤ n)
    (hn : st.low ≤ n) : st'.low ≤ n := by
  cases h with
  | kept h => exact h.low ▸ hn
  | freed hslot hbelow hlow h =>
    rw [h.low]
    exact Nat.le_trans hbelow hbase

/-! ### The lowest address of a block -/

/-- What holds at the start of a fold and survives every step holds at its end. -/
theorem foldlM_ok {α β : Type} {f : β → α → Except Error β} {P : β → Prop} : (l : List α) →
    (∀ a ∈ l, ∀ b b', P b → f b a = .ok b' → P b') → {b b' : β} → P b → l.foldlM f b = .ok b' → P b'
  | [], _, _, _, hb, h => by
    cases h
    exact hb
  | a :: l, hstep, b, b', hb, h => by
    rw [List.foldlM_cons] at h
    cases ha : f b a with
    | error e => simp only [ha, bind, Except.bind, reduceCtorEq] at h
    | ok b₁ =>
      simp only [ha, bind, Except.bind] at h
      exact foldlM_ok l (fun a' ha' ↦ hstep a' (List.mem_cons_of_mem _ ha'))
        (hstep a List.mem_cons_self b b₁ hb ha) h

/-- The lowest address of a block is the least of its own and of those of the blocks in its
fields. -/
theorem blockLow_induct {P : Nat → Nat → Prop} {st : Stack}
    (hown : ∀ d t n, st.slots[d]? = some (.header t n) → P d (d - n))
    (hnested : ∀ d t n a e low low', st.slots[d]? = some (.header t n) → d - n ≤ a → a < d →
      st.slots.getD a .null = .block e → e < d → P d low → P e low' → P d (min low low')) :
    (d : Nat) → {low : Nat} → st.blockLow d = .ok low → P d low := by
  intro d
  induction d using Nat.strongRecOn with
  | ind d ih =>
    intro low h
    rw [blockLow] at h
    cases hheader : st.header d with
    | error e => simp only [hheader, bind, Except.bind, reduceCtorEq] at h
    | ok p =>
      obtain ⟨t, n⟩ := p
      simp only [hheader, bind, Except.bind] at h
      have hslot := header_ok hheader
      refine foldlM_ok _ (fun a ha low low' hlow hstep ↦ ?_) (hown d t n hslot) h
      rw [List.mem_range'_1] at ha
      split at hstep
      · next e he =>
        split at hstep
        · next hed =>
          cases hinner : st.blockLow e with
          | error e' => simp only [hinner, reduceCtorEq] at hstep
          | ok low'' =>
            simp only [hinner] at hstep
            cases hstep
            exact hnested d t n a e low low'' hslot ha.1 (by omega) he hed hlow (ih e hed hinner)
        · cases hstep
          exact hlow
      · cases hstep
        exact hlow

/-- A block whose lowest address can be told has a header. -/
theorem header_of_blockLow {st : Stack} {d low : Nat} (h : st.blockLow d = .ok low) :
    ∃ t n, st.slots[d]? = some (.header t n) := by
  rw [blockLow] at h
  cases hd : st.header d with
  | error e => simp only [hd, bind, Except.bind, reduceCtorEq] at h
  | ok p => exact ⟨p.1, p.2, header_ok hd⟩

theorem blockLow_le {st : Stack} {d low : Nat} (h : st.blockLow d = .ok low) : low ≤ d :=
  blockLow_induct (P := fun d low ↦ low ≤ d) (fun _ _ _ _ ↦ Nat.sub_le _ _)
    (fun _ _ _ _ _ _ _ _ _ _ _ _ hlow _ ↦ Nat.le_trans (Nat.min_le_left _ _) hlow) d h

/-! ### Popping many operands -/

theorem Popped.le_low {st st' : Stack} (h : Popped st st') : st.low ≤ st'.low := by
  cases h with
  | kept h => exact Nat.le_of_eq h.low.symm
  | freed hslot hbase hlow h =>
    rw [h.low]
    exact Nat.le_succ_of_le (blockLow_le hlow)

/-- Operands are gone, with entries and blocks that belong to no local. -/
structure Dropped (st st' : Stack) : Prop where
  slots : st'.slots = st.slots
  base : st'.base = st.base
  floor : st'.floor = st.floor
  top_le : st'.top ≤ st.top
  le_low : st.low ≤ st'.low
  low_le : ∀ n, st.base ≤ n → st.low ≤ n → st'.low ≤ n
  entries_le : st'.entries ≤ st.entries
  le_entries : ∀ n, n ≤ st.floor → n ≤ st.entries → n ≤ st'.entries

theorem Dropped.refl (st : Stack) : Dropped st st :=
  ⟨rfl, rfl, rfl, Nat.le_refl _, Nat.le_refl _, fun _ _ h ↦ h, Nat.le_refl _, fun _ _ h ↦ h⟩

theorem Dropped.trans {st st' st'' : Stack} (h : Dropped st st') (h' : Dropped st' st'') :
    Dropped st st'' :=
  ⟨h'.slots.trans h.slots, h'.base.trans h.base, h'.floor.trans h.floor,
    Nat.le_trans h'.top_le h.top_le, Nat.le_trans h.le_low h'.le_low,
    fun n hbase hn ↦ h'.low_le n (h.base ▸ hbase) (h.low_le n hbase hn),
    Nat.le_trans h'.entries_le h.entries_le,
    fun n hfloor hn ↦ h'.le_entries n (h.floor ▸ hfloor) (h.le_entries n hfloor hn)⟩

theorem Popped.dropped {st st' : Stack} (h : Popped st st') : Dropped st st' :=
  ⟨h.slots, h.base, h.floor, h.top ▸ Nat.sub_le _ _, h.le_low, fun _ ↦ h.low_le, h.entries,
    fun _ ↦ h.floor_le⟩

/-- The block that a slot points at cannot be released. -/
def Stuck (st : Stack) : Prop :=
  ∃ d e, st.slots[st.top]? = some (.block d) ∧ d < st.base ∧ st.blockLow d = .error e

/-- There was no operand, or the stack is broken in a way that stays. -/
theorem pop_error {e : Error} {st st' : Stack} (h : pop st = .error e st') :
    st.top = 0 ∧ st' = st ∨ Stuck st' := by
  unfold pop at h
  by_cases htop : st.top = 0
  · simp only [topAddr, fail, htop, if_true] at h
    cases h
    exact Or.inl ⟨htop, rfl⟩
  · simp only [topAddr, if_neg htop] at h
    refine Or.inr ?_
    cases hslot : st.slots.getD (st.top - 1) .null with
    | block d =>
      rw [hslot] at h
      replace h : freeBlock d { st with top := st.top - 1 } = .error e st' := h
      obtain rfl := freeBlock_error h
      unfold freeBlock at h
      split at h
      · cases h
      · next hbase =>
        split at h
        · next e' hlow =>
          refine ⟨d, e', ?_, Nat.lt_of_not_le hbase, hlow⟩
          dsimp only
          rw [Array.getD_eq_getD_getElem?] at hslot
          cases hget : st.slots[st.top - 1]? with
          | none => simp [hget] at hslot
          | some s =>
            rw [hget] at hslot
            exact congrArg some hslot
        · split at h <;> cases h
    | _ =>
      rw [hslot] at h
      cases h

theorem popMany_dropped : (n : Nat) → (st : Stack) → Dropped st (endState (popMany n) st)
  | 0, st => .refl st
  | n + 1, st => by
    have hpop := (popped st).dropped
    cases h : pop st with
    | error e st' =>
      have hrest : popMany (n + 1) st = .error e st' := bind_of_error h
      rw [endState_error hrest]
      rwa [endState_error h] at hpop
    | ok u st' =>
      have hrest : endState (popMany (n + 1)) st = endState (popMany n) st' := by
        simp only [endState, popMany, bind_of_ok h]
      rw [hrest]
      rw [endState_ok h] at hpop
      exact hpop.trans (popMany_dropped n st')

theorem popTo_dropped (a : Nat) (st : Stack) : Dropped st (endState (popTo a) st) := by
  by_cases ha : st.top < a
  · have hend : endState (popTo a) st = st := by
      simp only [endState, popTo, if_pos ha]
    rw [hend]
    exact .refl st
  · have hend : endState (popTo a) st = endState (popMany (st.top - a)) st := by
      simp only [endState, popTo, if_neg ha]
    rw [hend]
    exact popMany_dropped _ st

theorem popMany_ok : (n : Nat) → {st st' : Stack} → popMany n st = .ok () st' →
    st'.top = st.top - n
  | 0, _, _, h => by
    cases h
    rfl
  | n + 1, st, st', h => by
    obtain ⟨u, st₁, hpop, h⟩ := exists_of_bind h
    have htop := (popped st).top
    rw [endState_ok hpop] at htop
    rw [popMany_ok n h, htop]
    omega

theorem popTo_ok {a : Nat} {st st' : Stack} (h : popTo a st = .ok () st') : st'.top = a := by
  unfold popTo at h
  split at h
  · cases h
  · rw [popMany_ok _ h]
    omega

theorem popMany_error : (n : Nat) → {e : Error} → {st st' : Stack} → n ≤ st.top →
    popMany n st = .error e st' → Stuck st'
  | 0, _, _, _, _, h => by cases h
  | n + 1, e, st, st', hn, h => by
    cases hpop : pop st with
    | error e' st₁ =>
      rw [popMany, bind_of_error hpop] at h
      cases h
      rcases pop_error hpop with ⟨hzero, -⟩ | hstuck
      · omega
      · exact hstuck
    | ok u st₁ =>
      rw [popMany, bind_of_ok hpop] at h
      have htop := (popped st).top
      rw [endState_ok hpop] at htop
      exact popMany_error n (by omega) h

theorem popTo_error {a : Nat} {e : Error} {st st' : Stack} (h : popTo a st = .error e st') :
    st'.top ≤ a ∨ Stuck st' := by
  unfold popTo at h
  split at h
  · next ha =>
    cases h
    exact Or.inl (Nat.le_of_lt ha)
  · exact Or.inr (popMany_error _ (Nat.sub_le _ _) h)

end Stack

end ManagedMachine
