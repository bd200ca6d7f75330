import ManagedMachine.Proofs.BlockGrowth
import ManagedMachine.Proofs.StructCopies

/-!
# Blocks and their owners

Struct values come and go on a stack with the operands that point at them: a struct that is pushed
gets a tree of blocks below all the others, and when its operand is released, the tree is freed if
it is still the lowest one. Frames save where the stack ended when they were entered and go back
there.

`Framed.Orderly` is what these operations keep: the trees of different operands lie apart, in the
order of the operands, and each saved mark separates what is older from what is newer. It takes no
more than that a frame does not release operands from below its own start.

Two relations between a machine and a later one carry this. Along `Stays` no operand that lives
before and after points anywhere else, and the storage in use keeps its outline; along `Retreats`
the stack shrinks, and nothing is freed but what belongs to operands that are gone. Pushes, stores
and new frames stay (`Orderly.pushed`, `Orderly.storeTop`), pops and returns retreat
(`Orderly.popMany`, `Orderly.popTo`), and `Orderly.next` is the step: whatever struct operation is
done next, the order is kept.
-/

set_option autoImplicit false
set_option relaxedAutoImplicit false

namespace ManagedMachine

open Engine

namespace Running

variable {r r₁ r' : Running} {s : Slot}

/-! ### Pushing -/

/-- One operand was pushed at most, and a block that it points at is new. -/
inductive Pushed (r r' : Running) : Prop
  | adds (h : r.Adds r')
  | pushed {r₁ : Running} {s : Slot} {st : Stack} (h : r.Adds r₁) (hs : r.Fresh r₁ s)
      (hpush : Stack.push s r₁.stack = .ok () st) (hr' : r' = r₁.withStack st)

end Running

/-- Running `x` pushes one operand at most, counted from the machine `r₀`. -/
abbrev Pushing (r₀ : Running) (x : RunM Unit) (r : Running) : Prop := r₀.Pushed (endState x r)

namespace Pushing

variable {α : Type} {x : RunM α} {f : α → RunM Unit} {r₀ r : Running} {s : Slot}

theorem push (h : r₀.Adds r) (hs : r₀.Fresh r s) :
    Pushing r₀ (Running.onStack (Stack.push s)) r := by
  cases hpush : Stack.push s r.stack with
  | ok u st =>
    rw [Pushing, endState_ok (Running.onStack_ok hpush)]
    exact .pushed h hs hpush rfl
  | error e st =>
    have hst : st = r.stack := by
      unfold Stack.push at hpush
      split at hpush <;> cases hpush
      rfl
    subst hst
    rw [Pushing, endState_error (Running.onStack_error hpush)]
    exact .adds h

theorem pushPlain (h : r₀.Rewrites r) (hs : s.outline = .null) :
    Pushing r₀ (Running.onStack (Stack.push s)) r :=
  push h.adds (.plain hs h.low)

theorem bind {mid : α → Running → Prop} (hx : Adding r₀ x r mid)
    (hf : ∀ a r', r₀.Adds r' → mid a r' → Pushing r₀ (f a) r') : Pushing r₀ (x >>= f) r := by
  unfold Adding Ends at hx
  cases h : x r with
  | ok a r' =>
    rw [h] at hx
    rw [Pushing, endState_bind h]
    exact hf a r' hx.1 hx.2
  | error e r' =>
    rw [h] at hx
    rw [Pushing, endState_error (bind_of_error h)]
    exact .adds hx

theorem rewrite (h : r₀.Rewrites r) (hx : Rewriting x r)
    (hf : ∀ a r', x r = .ok a r' → r₀.Rewrites r' → Pushing r₀ (f a) r') :
    Pushing r₀ (x >>= f) r :=
  bind (.of_rewriting h.adds hx) fun a r' _ hr' ↦ hf a r' hr'.1 (h.trans hr'.2)

theorem look (h : r₀.Rewrites r) (hx : Looks x)
    (hf : ∀ a r', x r = .ok a r' → r₀.Rewrites r' → Pushing r₀ (f a) r') :
    Pushing r₀ (x >>= f) r :=
  rewrite h (.of_looks hx) hf

theorem pushBlock {x : RunM Nat} (h : Adding r₀ x r fun d r' ↦
    d + 1 = r₀.stack.low ∧ r'.Whole d r'.stack.low) :
    Pushing r₀ (do Stack.push (.block (← x))) r :=
  bind h fun _ _ hadds hd ↦ push hadds (.block hd.1 hd.2)

theorem pushObject (h : r₀.Rewrites r) (x : Value) :
    Pushing r₀ (Running.onStack (Stack.pushObject x)) r := by
  unfold Stack.pushObject
  split
  · exact pushPlain h rfl
  · rw [Spec.onStack_bind]
    exact rewrite h (.pushEntry x) fun i r' _ hr' ↦ pushPlain hr' rfl

end Pushing

namespace Engine

variable {r : Running}

theorem pushing_pushCopy (fuel addr : Nat) (hr : r.Blocky) : Pushing r (pushCopy fuel addr) r := by
  unfold pushCopy
  refine .look (.refl r) (looks_read _) fun s r₁ hread hr₁ ↦ ?_
  obtain ⟨hs, rfl⟩ := read_ok hread
  split
  · refine .look hr₁ (looks_read _) fun x r₂ _ hr₂ ↦ ?_
    exact .look hr₂ (looks_sharedOrCopied fuel x) fun x' r₃ _ hr₃ ↦ .pushObject hr₃ x'
  · next d => exact .pushBlock (adding_copyOfBlock fuel d hr)
  · refine .look hr₁ (looks_read _) fun x r₂ _ hr₂ ↦ ?_
    exact .rewrite hr₂ (.pushEntry x) fun i r₃ _ hr₃ ↦ .pushPlain hr₃ rfl
  · refine .look hr₁ (looks_read _) fun x r₂ _ hr₂ ↦ ?_
    exact .rewrite hr₂ (.pushEntry x) fun i r₃ _ hr₃ ↦ .pushPlain hr₃ rfl
  · exact .adds (.refl r₁)
  · next hobject hblock _ _ hheader =>
    exact .pushPlain hr₁ (Slot.outline_of_ne hblock hheader)

/-- Pushing a value adds one operand, which owns the tree that is made for it. -/
theorem pushing_pushValue (fuel : Nat) (x : Value) (t : TypeId) (hr : r.Blocky) :
    Pushing r (pushValue fuel x t) r := by
  unfold pushValue
  refine .look (.refl r) (looks_descriptor t) fun desc r₁ _ hr₁ ↦ ?_
  split
  · exact .adds hr₁.adds
  · next p _ _ =>
    refine .look hr₁ (looks_ofExcept (x.slotFor p)) fun s r₂ hs hr₂ ↦ ?_
    refine .pushPlain hr₂ ?_
    cases hslot : x.slotFor p with
    | error e =>
      rw [hslot] at hs
      cases hs
    | ok s' =>
      rw [hslot] at hs
      cases hs
      exact Slot.outline_of_isSimple (Slot.isSimple_of_numeric (slotFor_ok hslot))
  · refine .look hr₁ (looks_isInline fuel t) fun inline r₂ _ hr₂ ↦ ?_
    split
    · have hnew := Adding.since hr₂.adds (adding_materialize fuel x t (hr₂.blocky hr))
      exact .pushBlock (hnew.imp fun d r₃ _ h ↦ ⟨h.2.1.trans hr₂.low, h.2.2⟩)
    · split
      · exact .look hr₂ (looks_sharedOrCopied fuel x) fun x' r₃ _ hr₃ ↦ .pushObject hr₃ x'
      · exact .pushObject hr₂ x

theorem pushing_defaultSlot (fuel : Nat) (t : TypeId) (hr : r.Blocky) :
    Pushing r (do Stack.push (← defaultSlot fuel t)) r :=
  .bind (adding_defaultSlot fuel t hr) fun _ _ hadds hs ↦ .push hadds hs

end Engine

namespace Stack

/-- Popping frees the block of the operand, if it is the lowest one, and nothing else. -/
theorem low_pop (s : Stack) : (endState pop s).low = s.low ∨
    ∃ d, 0 < s.top ∧ s.slots[s.top - 1]? = some (.block d) ∧ s.blockLow d = .ok s.low ∧
      (endState pop s).low = d + 1 := by
  rcases Nat.eq_zero_or_pos s.top with htop | htop
  · have hend : endState pop s = s := by simp only [endState, pop, topAddr, fail, htop, if_true]
    exact Or.inl (congrArg low hend)
  · cases popped s with
    | kept hgave => exact Or.inl hgave.low
    | @freed d hslot hbase hlow hgave =>
      refine Or.inr ⟨d, htop, ?_, hlow, hgave.low⟩
      rw [Array.getD_eq_getD_getElem?] at hslot
      cases hget : s.slots[s.top - 1]? with
      | none => simp [hget] at hslot
      | some x =>
        rw [hget] at hslot
        exact congrArg some hslot

end Stack

/-! ### Owners -/

namespace Running

variable {r r' : Running} {a d low : Nat}

/-- The operand at `a` points at the block with header `d`. -/
structure Owner (r : Running) (a d : Nat) : Prop where
  live : a < r.stack.top
  slot : r.stack.slots[a]? = some (.block d)

/-- Every operand that points at a block owns a tree of blocks, and the trees follow each other
downwards in the order of their owners. -/
structure Owned (r : Running) : Prop where
  blocky : r.Blocky
  room : r.stack.top ≤ r.stack.low
  tree {a d : Nat} : r.Owner a d → ∃ low, r.Whole d low ∧ r.stack.low ≤ low
  order {a a' d d' low : Nat} : a < a' → r.Owner a d → r.Owner a' d' → r.Whole d low → d' < low

/-- What was on the stack at a mark is still there, and the blocks that came since lie below those
that were there. -/
structure Since (r : Running) (p : Stack.Mark) : Prop where
  top : p.top ≤ r.stack.top
  low : r.stack.low ≤ p.low
  fits : p.low ≤ r.stack.slots.size
  above {d n : Nat} {t : TypeId} : r.stack.slots[d]? = some (.header t n) → p.low ≤ d →
    p.low ≤ d - n
  older {a d low : Nat} : a < p.top → r.Owner a d → r.Whole d low → p.low ≤ low
  newer {a d : Nat} : p.top ≤ a → r.Owner a d → d < p.low

/-- Operands that both machines have look the same, and so does everything that the first one has in
blocks. -/
structure Stays (r r' : Running) : Prop where
  domain : r.domain.Extends r'.domain
  outline : ∀ a, a < r.stack.top ∧ a < r'.stack.top ∨ r.stack.low ≤ a →
    r'.stack.outline? a = r.stack.outline? a

theorem Stays.refl (r : Running) : r.Stays r := ⟨.refl _, fun _ _ ↦ rfl⟩

theorem Stays.owner (h : r.Stays r') (ha : r.Owner a d) (hlive : a < r'.stack.top) : r'.Owner a d :=
  ⟨hlive, Stack.outline?_eq_block.mp
    ((h.outline a (Or.inl ⟨ha.live, hlive⟩)).trans (Stack.outline?_eq_block.mpr ha.slot))⟩

theorem Stays.owner_of (h : r.Stays r') (ha : r'.Owner a d) (hlive : a < r.stack.top) :
    r.Owner a d :=
  ⟨hlive, Stack.outline?_eq_block.mp
    ((h.outline a (Or.inl ⟨hlive, ha.live⟩)).symm.trans (Stack.outline?_eq_block.mpr ha.slot))⟩

theorem Stays.whole (h : r.Stays r') (hr : r.Blocky) (hd : r.Whole d low)
    (hlow : r.stack.low ≤ low) : r'.Whole d low :=
  hd.congr (hr.bindsNoMore h.domain) fun x hx _ ↦ h.outline x (Or.inr (hlow.trans hx))

/-- What an operand owns afterwards, it owned before. -/
theorem Owned.whole_of_stays (hr : r.Owned) (h : r.Stays r') (ha : r.Owner a d)
    (hd : r'.Whole d low) : r.Whole d low ∧ r.stack.low ≤ low := by
  obtain ⟨low', hwhole, hle⟩ := hr.tree ha
  obtain rfl := (h.whole hr.blocky hwhole hle).unique hd
  exact ⟨hwhole, hle⟩

/-! ### What the operations come to -/

theorem Adds.stays (h : r.Adds r') (hr : r.Owned) : r.Stays r' := by
  have hroom := h.room hr.room
  refine ⟨h.domain, fun a ha ↦ h.outline a ?_⟩
  omega

theorem Adds.owned (h : r.Adds r') (hr : r.Owned) : r'.Owned := by
  have hstays := h.stays hr
  have htop := h.top
  have hlow := h.low
  have hroom := h.room hr.room
  have hold {a d : Nat} (ha : r'.Owner a d) : r.Owner a d :=
    hstays.owner_of ha (htop ▸ ha.live)
  refine ⟨h.blocky hr.blocky, by omega, fun ha ↦ ?_, fun haa' ha ha' hd ↦ ?_⟩
  · obtain ⟨low, hwhole, hle⟩ := hr.tree (hold ha)
    exact ⟨low, hstays.whole hr.blocky hwhole hle, hlow.trans hle⟩
  · exact hr.order haa' (hold ha) (hold ha') (hr.whole_of_stays hstays (hold ha) hd).1

theorem Adds.since {p : Stack.Mark} (h : r.Adds r') (hr : r.Owned) (hp : r.Since p) :
    r'.Since p := by
  have hstays := h.stays hr
  have htop := h.top
  have hlow := h.low
  have hold {a d : Nat} (ha : r'.Owner a d) : r.Owner a d :=
    hstays.owner_of ha (htop ▸ ha.live)
  refine ⟨htop ▸ hp.top, hlow.trans hp.low, h.size ▸ hp.fits, fun {d n t} hd hle ↦ ?_,
    fun ha hown hd ↦ ?_, fun ha hown ↦ hp.newer ha (hold hown)⟩
  · refine hp.above (t := t) (n := n) ?_ hle
    rw [← Stack.outline?_eq_header, ← h.outline d (Or.inr (hp.low.trans hle))]
    exact Stack.outline?_eq_header.mpr hd
  · exact hp.older ha (hold hown) (hr.whole_of_stays hstays (hold hown) hd).1

/-- A new operand on top. -/
structure Tops (r₁ r' : Running) (s : Slot) : Prop where
  domain : r'.domain = r₁.domain
  size : r'.stack.slots.size = r₁.stack.slots.size
  top : r'.stack.top = r₁.stack.top + 1
  low : r'.stack.low = r₁.stack.low
  room : r₁.stack.top < r₁.stack.low
  slot : r'.stack.slots[r₁.stack.top]? = some s
  outline : ∀ a, a ≠ r₁.stack.top → r'.stack.outline? a = r₁.stack.outline? a

variable {r₁ : Running} {s : Slot}

theorem tops_of_push {st : Stack} (hfits : r₁.stack.low ≤ r₁.stack.slots.size)
    (h : Stack.push s r₁.stack = .ok () st) : r₁.Tops (r₁.withStack st) s := by
  obtain ⟨hroom, rfl⟩ := Stack.push_ok h
  have hsize : r₁.stack.top < r₁.stack.slots.size := hroom.trans_le hfits
  exact ⟨rfl, Array.size_setIfInBounds, rfl, rfl, hroom, by simp [hsize],
    fun a ha ↦ (Stack.outline?_set hsize a).trans (if_neg ha)⟩

theorem Tops.stays (h : r₁.Tops r' s) : r₁.Stays r' := by
  have hroom := h.room
  exact ⟨h.domain ▸ .refl _, fun a ha ↦ h.outline a (by omega)⟩

theorem Tops.header (h : r₁.Tops r' s) (hs : s.isHeader = false) {n : Nat} {t : TypeId}
    (hd : r'.stack.slots[d]? = some (.header t n)) :
    d ≠ r₁.stack.top ∧ r₁.stack.slots[d]? = some (.header t n) := by
  have hne : d ≠ r₁.stack.top := by
    rintro rfl
    obtain rfl := Option.some.inj (h.slot.symm.trans hd)
    cases hs
  refine ⟨hne, ?_⟩
  rw [← Stack.outline?_eq_header, ← h.outline d hne]
  exact Stack.outline?_eq_header.mpr hd

theorem Tops.blocky (h : r₁.Tops r' s) (hs : s.isHeader = false) (hr : r₁.Blocky) : r'.Blocky := by
  refine hr.of_subset (h.domain ▸ .refl _) (h.low ▸ h.size ▸ hr.fits) h.low fun d t n hd ↦ ?_
  obtain ⟨hne, hold⟩ := h.header hs hd
  have htop := h.top
  have hle := hr.operands hold
  exact ⟨hold, by omega⟩

/-- The owners after a push: those there were, and the new operand if it points at a new block. -/
theorem Tops.owner (h : r₁.Tops r' s) (hr : r₁.Blocky) (hs : r.Fresh r₁ s) (ha : r'.Owner a d) :
    r₁.Owner a d ∨ a = r₁.stack.top ∧ d + 1 = r.stack.low ∧ r'.Whole d r'.stack.low := by
  rcases Nat.lt_or_ge a r₁.stack.top with hlt | hge
  · exact Or.inl (h.stays.owner_of ha hlt)
  · have hlive := ha.live
    have htop := h.top
    obtain rfl : a = r₁.stack.top := by omega
    refine Or.inr ⟨rfl, ?_⟩
    obtain rfl := Option.some.inj (h.slot.symm.trans ha.slot)
    cases hs with
    | plain hs hlow => cases hs
    | block hd hwhole =>
      exact ⟨hd, h.low ▸ h.stays.whole hr hwhole (Nat.le_refl _)⟩

/-- A new operand on top owns what was made for it, and nobody else does. -/
theorem Tops.owned (h : r₁.Tops r' s) (hadds : r.Adds r₁) (hr : r.Owned) (hs : r.Fresh r₁ s) :
    r'.Owned := by
  have hr₁ := hadds.owned hr
  have htop := h.top
  have hlow := h.low
  have hroom := h.room
  refine ⟨h.blocky hs.isHeader hr₁.blocky, by omega, fun ha ↦ ?_, fun haa' ha ha' hd ↦ ?_⟩
  · rcases h.owner hr₁.blocky hs ha with hold | ⟨-, -, hwhole⟩
    · obtain ⟨low, hwhole, hle⟩ := hr₁.tree hold
      exact ⟨low, h.stays.whole hr₁.blocky hwhole hle, hlow.trans_le hle⟩
    · exact ⟨_, hwhole, Nat.le_refl _⟩
  · have hlive := ha'.live
    have hold := h.stays.owner_of ha (by omega)
    have hwhole := (hr₁.whole_of_stays h.stays hold hd).1
    rcases h.owner hr₁.blocky hs ha' with hold' | ⟨-, hbelow, -⟩
    · exact hr₁.order haa' hold hold' hwhole
    · -- The new block lies below all that were there before it was made.
      have hold₀ := (hadds.stays hr).owner_of hold (hadds.top ▸ hold.live)
      have hle := (hr.whole_of_stays (hadds.stays hr) hold₀ hwhole).2
      omega

theorem Tops.since (h : r₁.Tops r' s) (hadds : r.Adds r₁) (hr : r.Owned) (hs : r.Fresh r₁ s)
    {p : Stack.Mark} (hp : r.Since p) : r'.Since p := by
  have hr₁ := hadds.owned hr
  have hp₁ := hadds.since hr hp
  have htop := h.top
  have hptop := hp₁.top
  have hplow := hp.low
  refine ⟨by omega, h.low.trans_le hp₁.low, h.size ▸ hp₁.fits,
    fun hd hle ↦ hp₁.above (h.header hs.isHeader hd).2 hle, fun ha hown hd ↦ ?_, fun ha hown ↦ ?_⟩
  · have hold := h.stays.owner_of hown (by omega)
    exact hp₁.older ha hold (hr₁.whole_of_stays h.stays hold hd).1
  · rcases h.owner hr₁.blocky hs hown with hold | ⟨-, hbelow, -⟩
    · exact hp₁.newer ha hold
    · omega

/-- The stack went back: operands are gone, and only blocks that no operand owns were given up. -/
structure Retreats (r r' : Running) : Prop where
  domain : r'.domain = r.domain
  slots : r'.stack.slots = r.stack.slots
  top : r'.stack.top ≤ r.stack.top
  low : r.stack.low ≤ r'.stack.low
  blocky : r.Blocky → r'.Blocky
  spared {a d low : Nat} : a < r'.stack.top → r.Owner a d → r.Whole d low → r'.stack.low ≤ low

theorem Retreats.outline (h : r.Retreats r') (a : Nat) :
    r'.stack.outline? a = r.stack.outline? a := by
  rw [Stack.outline?, Stack.outline?, h.slots]

theorem Retreats.stays (h : r.Retreats r') : r.Stays r' :=
  ⟨h.domain ▸ .refl _, fun a _ ↦ h.outline a⟩

theorem Retreats.owner (h : r.Retreats r') (ha : r'.Owner a d) : r.Owner a d :=
  h.stays.owner_of ha (ha.live.trans_le h.top)

theorem Retreats.whole_iff (h : r.Retreats r') : r'.Whole d low ↔ r.Whole d low :=
  ⟨fun hd ↦ hd.congr (fun _ _ _ _ hb ↦ h.domain ▸ hb) fun x _ _ ↦ (h.outline x).symm,
    fun hd ↦ hd.congr (fun _ _ _ _ hb ↦ h.domain ▸ hb) fun x _ _ ↦ h.outline x⟩

theorem Retreats.owned (h : r.Retreats r') (hr : r.Owned) : r'.Owned := by
  have htop := h.top
  have hlow := h.low
  have hroom := hr.room
  refine ⟨h.blocky hr.blocky, by omega, fun ha ↦ ?_, fun haa' ha ha' hd ↦ ?_⟩
  · obtain ⟨low, hwhole, -⟩ := hr.tree (h.owner ha)
    exact ⟨low, h.whole_iff.mpr hwhole, h.spared ha.live (h.owner ha) hwhole⟩
  · exact hr.order haa' (h.owner ha) (h.owner ha') (h.whole_iff.mp hd)

theorem Retreats.since (h : r.Retreats r') {p : Stack.Mark} (hp : r.Since p)
    (htop : p.top ≤ r'.stack.top) (hlow : r'.stack.low ≤ p.low) : r'.Since p where
  top := htop
  low := hlow
  fits := h.slots ▸ hp.fits
  above hd hle := hp.above (h.slots ▸ hd) hle
  older ha hown hd := hp.older ha (h.owner hown) (h.whole_iff.mp hd)
  newer ha hown := hp.newer ha (h.owner hown)

theorem Retreats.trans {r'' : Running} (h : r.Retreats r') (h' : r'.Retreats r'') :
    r.Retreats r'' where
  domain := h'.domain.trans h.domain
  slots := h'.slots.trans h.slots
  top := h'.top.trans h.top
  low := h.low.trans h'.low
  blocky := h'.blocky ∘ h.blocky
  spared ha hown hd :=
    h'.spared ha (h.stays.owner hown (ha.trans_le h'.top)) (h.whole_iff.mpr hd)

/-- Only the bounds of the frame changed. -/
theorem Retreats.of_slots (hdomain : r'.domain = r.domain)
    (hslots : r'.stack.slots = r.stack.slots) (htop : r'.stack.top = r.stack.top)
    (hlow : r'.stack.low = r.stack.low) (hr : r.Owned) : r.Retreats r' where
  domain := hdomain
  slots := hslots
  top := htop.le
  low := hlow.ge
  blocky h := h.of_subset (hdomain ▸ .refl _) (hlow ▸ hslots ▸ h.fits) hlow fun _ _ _ hd ↦
    ⟨hslots ▸ hd, htop ▸ h.operands (hslots ▸ hd)⟩
  spared _ hown hd := by
    obtain ⟨low', hwhole, hle⟩ := hr.tree hown
    rw [hlow, hwhole.unique hd]
    exact hle

/-- What stays while nothing is released stays afterwards. -/
theorem Stays.retreat {r'' : Running} (h : r.Stays r') (h' : r'.Retreats r'') : r.Stays r'' := by
  have hlive := h'.top
  refine ⟨h'.domain ▸ h.domain, fun a ha ↦ (h'.outline a).trans (h.outline a ?_)⟩
  omega

/-- Releasing the top operand frees its own tree at most. -/
theorem Owned.retreats_pop (hr : r.Owned) :
    r.Retreats (r.withStack (endState Stack.pop r.stack)) := by
  have hpopped := Stack.popped r.stack
  refine ⟨rfl, hpopped.slots, hpopped.top ▸ Nat.sub_le _ _, hpopped.le_low,
    fun h ↦ h.popped hpopped, fun {a d low} ha hown hd ↦ ?_⟩
  replace ha : a < (endState Stack.pop r.stack).top := ha
  change (endState Stack.pop r.stack).low ≤ low
  rw [hpopped.top] at ha
  rcases Stack.low_pop r.stack with hsame | ⟨e, htop, hslot, hlow, hfreed⟩
  · obtain ⟨low', hwhole, hle⟩ := hr.tree hown
    rw [hsame, hwhole.unique hd]
    exact hle
  · have hlast : r.Owner (r.stack.top - 1) e := ⟨by omega, hslot⟩
    have horder := hr.order ha hown hlast hd
    omega

/-! ### Where struct values are -/

/-- An operand, or a slot of a block that an operand owns. -/
def Live (r : Running) (a : Nat) : Prop :=
  a < r.stack.top ∨ ∃ o d, r.Owner o d ∧ r.stack.Holds d a

/-- A live slot that points at a block is in the row of some operand. -/
theorem Owned.exists_row (hr : r.Owned) (ha : r.Live a) (hd : r.stack.slots[a]? = some (.block d)) :
    ∃ o e low, r.Owner o e ∧ r.Whole e low ∧ r.stack.low ≤ low ∧ InRow o 1 (e + 1) low a := by
  rcases ha with ha | ⟨o, e, hown, hholds⟩
  · obtain ⟨low, hwhole, hle⟩ := hr.tree ⟨ha, hd⟩
    exact ⟨a, d, low, ⟨ha, hd⟩, hwhole, hle, Or.inl ⟨0, Nat.zero_lt_one, rfl⟩⟩
  · obtain ⟨low, hwhole, hle⟩ := hr.tree hown
    obtain ⟨hlow, hhigh⟩ := hwhole.holds_iff.mp hholds
    exact ⟨o, e, low, hown, hwhole, hle, Or.inr ⟨hlow, Nat.lt_succ_of_le hhigh⟩⟩

theorem Owned.whole_of_live (hr : r.Owned) (ha : r.Live a)
    (hd : r.stack.slots[a]? = some (.block d)) : ∃ low, r.Whole d low ∧ r.stack.low ≤ low := by
  obtain ⟨o, e, low, hown, hwhole, hle, hrow⟩ := hr.exists_row ha hd
  obtain ⟨low', hwhole', hle', -⟩ := (hwhole.tiles hown.slot).whole hrow hd
  exact ⟨low', hwhole', hle.trans hle'⟩

/-- The storage of live slots lies apart, unless one of the slots lies in the storage of the
other. -/
theorem Owned.apart (hr : r.Owned) {a' d' x : Nat} (ha : r.Live a) (ha' : r.Live a') (hne : a ≠ a')
    (hd : r.stack.slots[a]? = some (.block d)) (hd' : r.stack.slots[a']? = some (.block d'))
    (hx : r.stack.Holds d x) (hx' : r.stack.Holds d' x) :
    r.stack.Holds d a' ∨ r.stack.Holds d' a := by
  obtain ⟨o, e, low, hown, hwhole, -, hrow⟩ := hr.exists_row ha hd
  obtain ⟨o', e', low', hown', hwhole', -, hrow'⟩ := hr.exists_row ha' hd'
  have hrange {o e low b d : Nat} (hown : r.Owner o e) (hwhole : r.Whole e low)
      (hrow : InRow o 1 (e + 1) low b) (hd : r.stack.slots[b]? = some (.block d))
      (hx : r.stack.Holds d x) : low ≤ x ∧ x ≤ e := by
    obtain ⟨low', hinner, hle, hlt⟩ := (hwhole.tiles hown.slot).whole hrow hd
    have hbounds := hinner.holds_iff.mp hx
    omega
  have hin := hrange hown hwhole hrow hd hx
  have hin' := hrange hown' hwhole' hrow' hd' hx'
  rcases Nat.lt_trichotomy o o' with hlt | rfl | hgt
  · have horder := hr.order hlt hown hown' hwhole
    omega
  · obtain rfl := Slot.block.inj (Option.some.inj (hown.slot.symm.trans hown'.slot))
    obtain rfl := hwhole.unique hwhole'
    exact ((hwhole'.tiles hown.slot).nested_of_shared hrow hd hx hrow' hd' hx').resolve_left hne
  · have horder := hr.order hgt hown' hown hwhole'
    omega

/-- Struct values may be stored to live slots. -/
theorem Owned.isLocation (hr : r.Owned) (ha : r.Live a)
    (hheader : ∀ t n, r.stack.slots[a]? ≠ some (.header t n)) : r.IsLocation a where
  plain hs hblock := .of_null <| (Stack.outline?_of_some hs).trans <| congrArg some <|
    Slot.outline_of_ne hblock fun t n h ↦ hheader t n (h ▸ hs)
  whole hd :=
    have ⟨low, hwhole, _⟩ := hr.whole_of_live ha hd
    ⟨low, hwhole⟩

end Running

/-! ### A struct with one reference -/

/-- Two structs with one reference each, the second one in a frame. -/
def Stack.inners : Stack :=
  ⟨#[.block 15, .block 13, .null, .null, .null, .null, .null, .null, .null, .null, .null, .null,
    .object 1, .header ⟨4⟩ 1, .object 0, .header ⟨4⟩ 1], 2, 12, 16, 1, #[.null, .null]⟩

namespace Engine

variable {r : Running} {d : Nat} {s₁ s₂ s₃ : Stack}

theorem freshSlot_text (alloc : TypeId → RunM Nat) (fuel : Nat) (h : r.domain = .pairs) :
    freshSlot alloc fuel ⟨1⟩ r = .ok (.object r.stack.managed.size)
      (r.withStack { r.stack with managed := r.stack.managed.push .null }) := by
  have hstyle : r.domain.style? ⟨1⟩ = none := by
    rw [h]
    exact Domain.style?_of_unbound rfl Std.HashMap.getElem?_empty
  have hkind : inlineKind fuel ⟨1⟩ r = .ok none r := by rw [inlineKind_eq, hstyle]
  have hinline : isInline fuel ⟨1⟩ r = .ok false r := bind_of_ok hkind
  have hdescriptor : descriptor ⟨1⟩ r = .ok (Domain.pairs.registry.type ⟨1⟩) r := h ▸ rfl
  unfold freshSlot
  exact (bind_of_ok hdescriptor).trans (bind_of_ok hinline)

/-- Declaring a local of a struct type with one reference. -/
theorem declare_inner (h : r.domain = .pairs)
    (halloc : Stack.allocBlock ⟨4⟩ 1 r.stack = .ok d s₁)
    (hset : Stack.setSlot (d - 1) (.object s₁.managed.size)
      { s₁ with managed := s₁.managed.push .null } = .ok () s₂)
    (hpush : Stack.push (.block d) s₂ = .ok () s₃) :
    (do Stack.push (← defaultSlot 3 ⟨4⟩) : RunM Unit) r = .ok () (r.withStack s₃) := by
  have hlayout : Domain.pairs.registry.facts.layouts[(⟨4⟩ : TypeId)]? =
      some (.ofTypes [⟨1⟩]) := by
    rw [Domain.pairs, Std.HashMap.getElem?_insert_self]
  have hstyle : r.domain.style? ⟨4⟩ = some .fields := by
    rw [h]
    exact Domain.style?_of_interpreted rfl rfl Std.HashMap.getElem?_empty
  have hkind (fuel : Nat) : inlineKind (fuel + 1) ⟨4⟩ r = _ := inlineKind_known hstyle (h ▸ hlayout)
  have hinline : isInline 3 ⟨4⟩ r = .ok true r := bind_of_ok (hkind 2)
  have hdescriptor : descriptor ⟨4⟩ r = .ok (Domain.pairs.registry.type ⟨4⟩) r := h ▸ rfl
  have hslot : defaultSlot 3 ⟨4⟩ r = .ok (.block d) (r.withStack s₂) := by
    unfold defaultSlot freshSlot
    refine (bind_of_ok hdescriptor).trans ((bind_of_ok hinline).trans (bind_of_ok ?_))
    unfold allocInline
    refine (bind_of_ok (hkind 1)).trans ((bind_of_ok (Running.onStack_ok halloc)).trans ?_)
    have htext := freshSlot_text (r := r.withStack s₁) (allocInline 2) 2 h
    exact bind_of_ok (bind_of_ok ((bind_of_ok htext).trans (Running.onStack_ok hset)))
  exact (bind_of_ok hslot).trans (Running.onStack_ok hpush)

end Engine

/-! ### Operations -/

/-- A machine with the marks and bounds that were saved when its open frames were entered, the
innermost first. -/
structure Framed where
  run : Running
  saved : List (Stack.Mark × Stack.Bounds)

/-- What the engine does with struct values on a stack, and the steps that open and close frames. -/
inductive StructOp where
  | alloc (fuel : Nat) (t : TypeId)
  /-- Pushes a fresh location of some type, as for a local. -/
  | declare (fuel : Nat) (t : TypeId)
  | pushCopy (fuel addr : Nat)
  | pushValue (fuel : Nat) (v : Value) (t : TypeId)
  | storeTop (fuel addr : Nat)
  | pop
  | popTo (addr : Nat)
  | enterFrame
  | sealLocals
  /-- Leaves the innermost frame and resets the stack to its mark. -/
  | leaveFrame

namespace Framed

/-- The machine after a piece of code, in the same frames. -/
def does {α : Type} (m : Framed) (x : RunM α) : Framed := { m with run := endState x m.run }

/-- What was saved separates what is older from what is newer, frame by frame. -/
structure Orderly (m : Framed) : Prop where
  owned : m.run.Owned
  marks : ∀ p ∈ m.saved, m.run.Since p.1
  nested : m.saved.Pairwise fun p q ↦ q.1.top ≤ p.1.top ∧ p.1.low ≤ q.1.low

variable {m : Framed} {r : Running} {n : Nat}

/-- The address is not below the start of the running frame. -/
def Over (m : Framed) (n : Nat) : Prop := ∀ p ∈ m.saved.head?, p.1.top ≤ n

theorem Orderly.top_le (h : m.Orderly) (hn : m.Over n) : ∀ p ∈ m.saved, p.1.top ≤ n := by
  obtain ⟨r, saved⟩ := m
  cases saved with
  | nil => exact fun p hp ↦ nomatch hp
  | cons q rest =>
    intro p hp
    have hq : q.1.top ≤ n := hn q rfl
    rcases List.mem_cons.mp hp with rfl | hp
    · exact hq
    · exact ((List.pairwise_cons.mp h.nested).1 p hp).1.trans hq

theorem Orderly.adds (h : m.Orderly) (hr : m.run.Adds r) :
    Orderly { m with run := r } ∧ m.run.Stays r :=
  ⟨⟨hr.owned h.owned, fun p hp ↦ hr.since h.owned (h.marks p hp), h.nested⟩, hr.stays h.owned⟩

/-- Pushing keeps the order, because the new tree is below all others. -/
theorem Orderly.pushed (h : m.Orderly) (hr : m.run.Pushed r) :
    Orderly { m with run := r } ∧ m.run.Stays r := by
  cases hr with
  | adds hr => exact h.adds hr
  | @pushed r₁ s st hadds hs hpush hr =>
    subst hr
    have htops := Running.tops_of_push (hadds.owned h.owned).blocky.fits hpush
    refine ⟨⟨htops.owned hadds h.owned hs, fun p hp ↦ htops.since hadds h.owned hs (h.marks p hp),
      h.nested⟩, ?_⟩
    have hstays := hadds.stays h.owned
    have hstays' := htops.stays
    have htop := hadds.top
    have htop' := htops.top
    have hlow := hadds.low
    refine ⟨hstays.domain.trans hstays'.domain, fun a ha ↦ ?_⟩
    exact (hstays'.outline a (by omega)).trans (hstays.outline a (by omega))

theorem Orderly.retreats (h : m.Orderly) (hr : m.run.Retreats r) (htop : m.Over r.stack.top)
    (hlow : ∀ p ∈ m.saved, r.stack.low ≤ p.1.low) : Orderly { m with run := r } :=
  ⟨hr.owned h.owned, fun p hp ↦ hr.since (h.marks p hp) (h.top_le htop p hp) (hlow p hp), h.nested⟩

/-- An operand of the running frame is popped. -/
theorem Orderly.pop (h : m.Orderly) (hn : m.Over (m.run.stack.top - 1)) :
    (m.does Stack.pop).Orderly ∧ m.run.Retreats (m.does Stack.pop).run := by
  have hrun : m.does Stack.pop =
      { m with run := m.run.withStack (endState Stack.pop m.run.stack) } :=
    congrArg (Framed.mk · m.saved) (Running.endState_onStack _ _)
  rw [hrun]
  have hretreats := h.owned.retreats_pop
  have htop : (endState Stack.pop m.run.stack).top = m.run.stack.top - 1 :=
    (Stack.popped m.run.stack).top
  refine ⟨h.retreats hretreats (htop.symm ▸ hn) fun p hp ↦ ?_, hretreats⟩
  rw [Running.withStack_stack]
  rcases Stack.low_pop m.run.stack with hsame | ⟨e, hpos, hslot, -, hfreed⟩
  · exact hsame.le.trans (h.marks p hp).low
  · have hlast : m.run.Owner (m.run.stack.top - 1) e := ⟨by omega, hslot⟩
    have hnewer := (h.marks p hp).newer (h.top_le hn p hp) hlast
    omega

/-- What follows is left out if the first part fails. -/
theorem does_seqRight (m : Framed) (x y : RunM Unit) :
    (m.does (do x; y) = m.does x ∧ ∃ e, x m.run = .error e (m.does x).run) ∨
      m.does (do x; y) = (m.does x).does y ∧ x m.run = .ok () (m.does x).run := by
  cases hx : x m.run with
  | error e r =>
    have hrun : (m.does x).run = r := endState_error hx
    refine Or.inl ⟨congrArg (Framed.mk · m.saved) ?_, e, by rw [hrun]⟩
    exact (endState_error (bind_of_error hx)).trans hrun.symm
  | ok u r =>
    have hrun : (m.does x).run = r := endState_ok hx
    refine Or.inr ⟨congrArg (Framed.mk · m.saved) ?_, by rw [hrun]⟩
    exact (endState_bind hx).trans (congrArg (endState y) hrun.symm)

/-- Releasing operands of the current frame, from the newest one down, gives their trees back in
that order. -/
theorem Orderly.popMany (n : Nat) (h : m.Orderly) (hn : m.Over (m.run.stack.top - n)) :
    (m.does (Stack.popMany n)).Orderly ∧ m.run.Retreats (m.does (Stack.popMany n)).run := by
  induction n generalizing m with
  | zero => exact ⟨h, .of_slots rfl rfl rfl rfl h.owned⟩
  | succ n ih =>
    have hover : m.Over (m.run.stack.top - 1) := fun p hp ↦ (hn p hp).trans (by omega)
    obtain ⟨hpop, hretreats⟩ := h.pop hover
    have hlift : (Running.onStack (Stack.popMany (n + 1))) =
        (do Running.onStack Stack.pop; Running.onStack (Stack.popMany n)) :=
      Spec.onStack_bind Stack.pop fun _ ↦ Stack.popMany n
    change (m.does (Running.onStack (Stack.popMany (n + 1)))).Orderly ∧
      m.run.Retreats (m.does (Running.onStack (Stack.popMany (n + 1)))).run
    rw [hlift]
    rcases m.does_seqRight (Running.onStack Stack.pop) (Running.onStack (Stack.popMany n)) with
      ⟨hsame, -⟩ | ⟨hnext, -⟩
    · rw [hsame]
      exact ⟨hpop, hretreats⟩
    · have htop : (m.does Stack.pop).run.stack.top = m.run.stack.top - 1 :=
        (congrArg (·.stack.top) (Running.endState_onStack _ _)).trans (Stack.popped m.run.stack).top
      rw [hnext]
      refine (ih hpop fun p hp ↦ ?_).imp_right hretreats.trans
      rw [htop, Nat.sub_sub, Nat.add_comm 1]
      exact hn p hp

/-- Leaving a frame frees what was made in it. -/
theorem Orderly.leave {p : Stack.Mark × Stack.Bounds} {rest : List (Stack.Mark × Stack.Bounds)}
    (h : Orderly ⟨r, p :: rest⟩) :
    Orderly ⟨r.withStack ((r.stack.leaveFrame p.2).reset p.1), rest⟩ ∧
      r.Retreats (r.withStack ((r.stack.leaveFrame p.2).reset p.1)) := by
  have hp := h.marks p List.mem_cons_self
  have htop : ((r.stack.leaveFrame p.2).reset p.1).top = p.1.top := Nat.min_eq_left hp.top
  have hlow : ((r.stack.leaveFrame p.2).reset p.1).low = p.1.low := by
    change min (max p.1.low r.stack.low) r.stack.slots.size = p.1.low
    rw [Nat.max_eq_left hp.low, Nat.min_eq_left hp.fits]
  have hr := h.owned.blocky
  have hretreats : r.Retreats (r.withStack ((r.stack.leaveFrame p.2).reset p.1)) :=
    { domain := rfl
      slots := rfl
      top := htop.trans_le hp.top
      low := hp.low.trans_eq hlow.symm
      blocky := fun _ ↦
        { fits := hlow.trans_le hp.fits
          count := hr.count
          room := hr.room
          inner := hr.inner
          above := fun hd hle ↦ by
            rw [Running.withStack_stack, hlow] at hle ⊢
            exact hp.above hd hle
          operands := fun hd ↦ htop.trans_le (hp.top.trans (hr.operands hd)) }
      spared := fun ha hown hd ↦ by
        rw [Running.withStack_stack] at ha ⊢
        rw [hlow]
        exact hp.older (htop ▸ ha) hown hd }
  obtain ⟨hnested, hrest⟩ := List.pairwise_cons.mp h.nested
  refine ⟨⟨hretreats.owned h.owned, fun q hq ↦ ?_, hrest⟩, hretreats⟩
  exact hretreats.since (h.marks q (List.mem_cons_of_mem p hq)) (htop ▸ (hnested q hq).1)
    (hlow ▸ (hnested q hq).2)

/-- Entering a frame saves where the stack ends. -/
theorem Orderly.enter (h : m.Orderly) :
    Orderly ⟨m.run.withStack m.run.stack.enterFrame,
      (m.run.stack.mark, m.run.stack.bounds) :: m.saved⟩ ∧
      m.run.Retreats (m.run.withStack m.run.stack.enterFrame) := by
  have hretreats : m.run.Retreats (m.run.withStack m.run.stack.enterFrame) :=
    .of_slots rfl rfl rfl rfl h.owned
  refine ⟨⟨hretreats.owned h.owned, fun p hp ↦ ?_, List.pairwise_cons.mpr ⟨fun p hp ↦ ?_,
    h.nested⟩⟩, hretreats⟩
  · rcases List.mem_cons.mp hp with rfl | hp
    · have hblocky := h.owned.blocky
      refine ⟨Nat.le_refl _, Nat.le_refl _, hblocky.fits, hblocky.above, fun _ hown hd ↦ ?_,
        fun ha hown ↦ absurd hown.live (Nat.not_lt_of_le ha)⟩
      exact hretreats.spared hown.live (hretreats.owner hown) (hretreats.whole_iff.mp hd)
    · exact hretreats.since (h.marks p hp) (h.marks p hp).top (h.marks p hp).low
  · exact ⟨(h.marks p hp).top, (h.marks p hp).low⟩

/-- What the top operand points at is freed with it, if anything is. -/
theorem Orderly.freed (h : m.Orderly)
    (hraised : m.run.stack.low < (endState Stack.pop m.run.stack).low) :
    ∃ d, m.run.Owner (m.run.stack.top - 1) d ∧ ∀ x, m.run.stack.Holds d x ↔
      m.run.stack.low ≤ x ∧ x < (endState Stack.pop m.run.stack).low := by
  rcases Stack.low_pop m.run.stack with hsame | ⟨d, htop, hslot, hlow, hfreed⟩
  · exact absurd hsame hraised.ne'
  · have hown : m.run.Owner (m.run.stack.top - 1) d := ⟨Nat.sub_lt htop Nat.one_pos, hslot⟩
    obtain ⟨low, hwhole, -⟩ := h.owned.tree hown
    obtain rfl : low = m.run.stack.low := Except.ok.inj (hwhole.blockLow_eq.symm.trans hlow)
    refine ⟨d, hown, fun x ↦ ?_⟩
    rw [hwhole.holds_iff, hfreed, Nat.lt_succ_iff]

/-! ### Runs -/

/-- What an operation leaves, also when it fails. -/
def next (m : Framed) : StructOp → Framed
  | .alloc fuel t => m.does (Engine.allocInline fuel t)
  | .declare fuel t => m.does (do Stack.push (← Engine.defaultSlot fuel t))
  | .pushCopy fuel addr => m.does (Engine.pushCopy fuel addr)
  | .pushValue fuel v t => m.does (Engine.pushValue fuel v t)
  | .storeTop fuel addr => m.does (Engine.storeTop fuel addr)
  | .pop => m.does Stack.pop
  | .popTo addr => m.does (Stack.popTo addr)
  | .enterFrame =>
    ⟨m.run.withStack m.run.stack.enterFrame, (m.run.stack.mark, m.run.stack.bounds) :: m.saved⟩
  | .sealLocals => ⟨m.run.withStack m.run.stack.sealLocals, m.saved⟩
  | .leaveFrame =>
    match m.saved with
    | [] => m
    | p :: rest => ⟨m.run.withStack ((m.run.stack.leaveFrame p.2).reset p.1), rest⟩

/-- The top operand may be stored to the live slot at `addr`: one that points at a block takes
structs, which are blocks or boxed, and null. -/
structure Storable (m : Framed) (addr : Nat) : Prop where
  live : m.run.Live addr
  field (t : TypeId) (n : Nat) : m.run.stack.slots[addr]? ≠ some (.header t n)
  fits {d : Nat} {s : Slot} : m.run.stack.slots[addr]? = some (.block d) →
    m.run.stack.slots[m.run.stack.top - 1]? = some s → s.FitsBlock

/-- Frames release operands of their own only, and stores keep to the types of the locations. -/
def Allows (m : Framed) : StructOp → Prop
  | .storeTop _ addr => m.Over (m.run.stack.top - 1) ∧ m.Storable addr
  | .pop => m.Over (m.run.stack.top - 1)
  | .popTo addr => m.Over addr
  | _ => True

/-- The operation pops the top operand of the machine. -/
inductive Releases (m : Framed) : StructOp → Running → Prop
  | pop : m.Releases .pop m.run
  | popTo {addr k : Nat} (hk : k < m.run.stack.top - addr) :
      m.Releases (.popTo addr) (m.does (Stack.popMany k)).run
  | storeTop {fuel addr : Nat} {r : Running}
      (hstore : (do Engine.storeInto fuel addr (← Engine.loadTop)) m.run = .ok () r) :
      m.Releases (.storeTop fuel addr) r

/-- The machine comes about from an empty one. -/
inductive Reached : Framed → Prop
  | start (d : Domain) (id capacity : Nat) : Reached ⟨⟨d, .fresh id capacity⟩, []⟩
  | step {m : Framed} (op : StructOp) (h : m.Reached) (hop : m.Allows op) : Reached (m.next op)

theorem orderly_start (d : Domain) (id capacity : Nat) :
    Orderly ⟨⟨d, .fresh id capacity⟩, []⟩ where
  owned :=
    { blocky := blocky_fresh d id capacity
      room := Nat.zero_le _
      tree := fun hown ↦ absurd hown.live (Nat.not_lt_zero _)
      order := fun _ hown ↦ absurd hown.live (Nat.not_lt_zero _) }
  marks _ hp := nomatch hp
  nested := .nil

theorem Orderly.storeInto (fuel : Nat) {addr : Nat} (h : m.Orderly) (hstorable : m.Storable addr) :
    (m.does (do Engine.storeInto fuel addr (← Engine.loadTop))).Orderly ∧
      m.run.Rewrites (m.does (do Engine.storeInto fuel addr (← Engine.loadTop))).run := by
  have hr := h.owned.blocky
  have hrewrites : Rewriting (do Engine.storeInto fuel addr (← Engine.loadTop)) m.run := by
    refine .bind (.of_looks Engine.looks_loadTop) fun c r hload _ ↦ ?_
    obtain ⟨a, r₁, hread, hcarry⟩ := exists_of_bind hload
    obtain ⟨htop, rfl⟩ := Engine.read_ok hread
    obtain ⟨rfl, s, hs, hloads⟩ := Engine.loadCarry_ok hcarry
    obtain rfl : a = m.run.stack.top - 1 := (Nat.sub_eq_of_eq_add (Stack.topAddr_ok htop)).symm
    exact Engine.rewriting_storeInto fuel hr (h.owned.isLocation hstorable.live hstorable.field)
      hloads fun d hd ↦ hstorable.fits hd hs
  exact ⟨(h.adds hrewrites.adds).1, hrewrites⟩

/-- A store into a location consumes the operand on top and changes no tree. -/
theorem Orderly.storeTop {fuel addr : Nat} (h : m.Orderly) (hn : m.Over (m.run.stack.top - 1))
    (hstorable : m.Storable addr) :
    (m.does (Engine.storeTop fuel addr)).Orderly ∧
      m.run.Stays (m.does (Engine.storeTop fuel addr)).run := by
  obtain ⟨hstored, hrewrites⟩ := h.storeInto fuel hstorable
  have hstays := hrewrites.adds.stays h.owned
  have hparts : Engine.storeTop fuel addr =
      (do (do Engine.storeInto fuel addr (← Engine.loadTop)); Running.onStack Stack.pop) :=
    (bind_assoc _ _ _).symm
  rw [hparts]
  rcases m.does_seqRight (do Engine.storeInto fuel addr (← Engine.loadTop))
    (Running.onStack Stack.pop) with ⟨hsame, -⟩ | ⟨hnext, -⟩
  · rw [hsame]
    exact ⟨hstored, hstays⟩
  · rw [hnext]
    exact (hstored.pop (hrewrites.top.symm ▸ hn)).imp_right hstays.retreat

/-- Releasing down to an address is releasing operands one by one, as long as the frame has some. -/
theorem Orderly.popTo {addr : Nat} (h : m.Orderly) (hn : m.Over addr) :
    (m.does (Stack.popTo addr)).Orderly ∧ m.run.Retreats (m.does (Stack.popTo addr)).run := by
  by_cases htop : m.run.stack.top < addr
  · have hsame : m.does (Stack.popTo addr) = m :=
      congrArg (Framed.mk · m.saved) (endState_error (Running.onStack_error (if_pos htop)))
    rw [hsame]
    exact ⟨h, .of_slots rfl rfl rfl rfl h.owned⟩
  · have hmany : m.does (Stack.popTo addr) = m.does (Stack.popMany (m.run.stack.top - addr)) := by
      refine congrArg (Framed.mk · m.saved) ?_
      change endState (Running.onStack (Stack.popTo addr)) m.run =
        endState (Running.onStack (Stack.popMany (m.run.stack.top - addr))) m.run
      rw [Running.endState_onStack, Running.endState_onStack]
      simp only [endState, Stack.popTo, if_neg htop]
    rw [hmany]
    exact h.popMany _ fun p hp ↦ (hn p hp).trans (by omega)

/-- The step: every operation that the frame allows keeps the order, and the older operands stay. -/
theorem Orderly.next {op : StructOp} (h : m.Orderly) (hop : m.Allows op) :
    (m.next op).Orderly ∧ m.run.Stays (m.next op).run := by
  cases op with
  | alloc fuel t =>
    exact h.adds (Engine.adding_allocInline fuel t m.run h.owned.blocky).endState
  | declare fuel t => exact h.pushed (Engine.pushing_defaultSlot fuel t h.owned.blocky)
  | pushCopy fuel addr => exact h.pushed (Engine.pushing_pushCopy fuel addr h.owned.blocky)
  | pushValue fuel v t => exact h.pushed (Engine.pushing_pushValue fuel v t h.owned.blocky)
  | storeTop fuel addr => exact h.storeTop hop.1 hop.2
  | pop => exact (h.pop hop).imp_right Running.Retreats.stays
  | popTo addr => exact (h.popTo hop).imp_right Running.Retreats.stays
  | enterFrame => exact h.enter.imp_right Running.Retreats.stays
  | sealLocals =>
    have hretreats : m.run.Retreats (m.run.withStack m.run.stack.sealLocals) :=
      .of_slots rfl rfl rfl rfl h.owned
    refine ⟨⟨hretreats.owned h.owned, fun p hp ↦ ?_, h.nested⟩, hretreats.stays⟩
    exact hretreats.since (h.marks p hp) (h.marks p hp).top (h.marks p hp).low
  | leaveFrame =>
    obtain ⟨r, saved⟩ := m
    cases saved with
    | nil => exact ⟨h, .refl r⟩
    | cons p rest => exact h.leave.imp_right Running.Retreats.stays

theorem Reached.orderly (h : m.Reached) : m.Orderly := by
  induction h with
  | start d id capacity => exact orderly_start d id capacity
  | step op h hop ih => exact (ih.next hop).1

/-- The top operand is released from an orderly stack. -/
theorem Orderly.releases {op : StructOp} (h : m.Orderly) (hop : m.Allows op)
    (hr : m.Releases op r) : Orderly { m with run := r } := by
  cases hr with
  | pop => exact h
  | @popTo addr k hk => exact (h.popMany k fun p hp ↦ (hop p hp).trans (by omega)).1
  | @storeTop fuel addr r hstore =>
    obtain ⟨hstored, -⟩ := h.storeInto fuel hop.2
    rwa [does, endState_ok hstore] at hstored

/-- What an operand owns stays as long as the operand does. -/
theorem Orderly.keeps {op : StructOp} (h : m.Orderly) (hop : m.Allows op) {a d : Nat}
    (hown : m.run.Owner a d) (ha : a < (m.next op).run.stack.top) :
    (m.next op).run.Owner a d ∧
      (∀ x, (m.next op).run.stack.Holds d x ↔ m.run.stack.Holds d x) ∧
      ∀ x, m.run.stack.Holds d x → (m.next op).run.stack.outline? x = m.run.stack.outline? x := by
  have hstays := (h.next hop).2
  obtain ⟨low, hwhole, hle⟩ := h.owned.tree hown
  have hwhole' := hstays.whole h.owned.blocky hwhole hle
  refine ⟨hstays.owner hown ha, fun x ↦ ?_, fun x hx ↦ ?_⟩
  · exact hwhole'.holds_iff.trans hwhole.holds_iff.symm
  · exact hstays.outline x (Or.inr (hle.trans (hwhole.holds_iff.mp hx).1))

theorem next_declare_inner {d : Nat} {s₁ s₂ s₃ : Stack} (h : m.run.domain = .pairs)
    (halloc : Stack.allocBlock ⟨4⟩ 1 m.run.stack = .ok d s₁)
    (hset : Stack.setSlot (d - 1) (.object s₁.managed.size)
      { s₁ with managed := s₁.managed.push .null } = .ok () s₂)
    (hpush : Stack.push (.block d) s₂ = .ok () s₃) :
    m.next (.declare 3 ⟨4⟩) = { m with run := m.run.withStack s₃ } :=
  congrArg (Framed.mk · m.saved) (endState_ok (Engine.declare_inner h halloc hset hpush))

theorem reached_inners : ∃ m : Framed, m.Reached ∧ m.run.stack = .inners ∧
    m.saved = [⟨⟨1, 14, 16, 0, 1⟩, ⟨16, 0⟩⟩] := by
  have hreached := (Reached.start .pairs 0 16).step (.declare 3 ⟨4⟩) trivial
  rw [next_declare_inner rfl rfl rfl rfl] at hreached
  replace hreached := (hreached.step .enterFrame trivial).step (.declare 3 ⟨4⟩) trivial
  rw [next_declare_inner rfl rfl rfl rfl] at hreached
  exact ⟨_, hreached, rfl, rfl⟩

theorem low_pop_inners : (endState Stack.pop .inners).low = 14 := by
  have hlow : Stack.blockLow { Stack.inners with top := 1 } 13 = .ok 12 := by
    rw [Stack.blockLow]
    rfl
  have hpop : Stack.pop .inners = Stack.freeBlock 13 { Stack.inners with top := 1 } := rfl
  rw [endState, hpop, Stack.freeBlock]
  simp only [hlow]
  rfl

/-- Operations on struct values keep the blocks of different operands apart and intact. When an
operand is released, nothing is freed but the storage of the block that it points at. -/
theorem blocks_freed_by_owner (h : m.Reached) :
    m.run.stack.top ≤ m.run.stack.low ∧
    (∀ a d, m.run.Live a → m.run.stack.slots[a]? = some (.block d) →
      (∃ t n, m.run.stack.slots[d]? = some (.header t n)) ∧
      ∀ x, m.run.stack.Holds d x → m.run.stack.low ≤ x ∧ x < m.run.stack.slots.size) ∧
    (∀ a a' d d', m.run.Live a → m.run.Live a' → a ≠ a' →
      m.run.stack.slots[a]? = some (.block d) → m.run.stack.slots[a']? = some (.block d') →
      (∃ x, m.run.stack.Holds d x ∧ m.run.stack.Holds d' x) →
      m.run.stack.Holds d a' ∨ m.run.stack.Holds d' a) ∧
    ∀ op, m.Allows op →
      (∀ a d, m.run.Owner a d → a < (m.next op).run.stack.top →
        (m.next op).run.Owner a d ∧
        (∀ x, (m.next op).run.stack.Holds d x ↔ m.run.stack.Holds d x) ∧
        ∀ x, m.run.stack.Holds d x →
          (m.next op).run.stack.outline? x = m.run.stack.outline? x) ∧
      ∀ r, m.Releases op r → r.stack.low < (endState Stack.pop r.stack).low →
        ∃ d, r.Owner (r.stack.top - 1) d ∧ ∀ x, r.stack.Holds d x ↔
          r.stack.low ≤ x ∧ x < (endState Stack.pop r.stack).low := by
  have horderly := h.orderly
  refine ⟨horderly.owned.room, fun a d ha hd ↦ ?_, fun a a' d d' ha ha' hne hd hd' hx ↦ ?_,
    fun op hop ↦ ⟨fun a d hown ha ↦ horderly.keeps hop hown ha, fun r hr hraised ↦ ?_⟩⟩
  · obtain ⟨low, hwhole, hle⟩ := horderly.owned.whole_of_live ha hd
    obtain ⟨t, n, htree⟩ := hwhole
    refine ⟨⟨t, n, htree.header⟩, fun x hx ↦ ?_⟩
    have hbounds := Running.Whole.holds_iff ⟨t, n, htree⟩ |>.mp hx
    have hsize := (Array.getElem?_eq_some_iff.mp htree.header).1
    omega
  · obtain ⟨x, hx, hx'⟩ := hx
    exact horderly.owned.apart ha ha' hne hd hd' hx hx'
  · exact (horderly.releases hop hr).freed hraised

/-- Two operands point at one block after a frame has released an operand from below its start. -/
theorem owners_of_one_block :
    let m := [.declare 0 ⟨0⟩, .enterFrame, .pop, .declare 3 ⟨4⟩, .sealLocals, .leaveFrame,
      .declare 3 ⟨4⟩].foldl next ⟨⟨.pairs, .fresh 0 16⟩, []⟩
    m.run.Owner 0 15 ∧ m.run.Owner 1 15 := by
  dsimp only [List.foldl]
  have hinside : next (next (next (next ⟨⟨.pairs, .fresh 0 16⟩, []⟩ (.declare 0 ⟨0⟩)) .enterFrame)
      .pop) (.declare 3 ⟨4⟩) = _ := next_declare_inner rfl rfl rfl rfl
  have hafter : next (next (next _ .sealLocals) .leaveFrame) (.declare 3 ⟨4⟩) = _ :=
    (congrArg (fun m ↦ next (next (next m .sealLocals) .leaveFrame) (.declare 3 ⟨4⟩)) hinside).trans
      (next_declare_inner rfl rfl rfl rfl)
  rw [hafter]
  exact ⟨⟨by decide, rfl⟩, ⟨by decide, rfl⟩⟩

/-- The struct of the frame is freed when its operand is released, and the other one stays. -/
theorem blocks_freed_by_owner_inners : ∃ m : Framed, m.Reached ∧ m.Allows .pop ∧
    m.run.Owner 0 15 ∧ m.run.Owner 1 13 ∧ (m.next .pop).run.Owner 0 15 ∧
    ∀ x, m.run.stack.Holds 13 x ↔ 12 ≤ x ∧ x < 14 := by
  obtain ⟨m, hm, hstack, hsaved⟩ := reached_inners
  obtain ⟨-, -, -, hops⟩ := blocks_freed_by_owner hm
  have hallows : m.Allows .pop := fun p hp ↦ by
    rw [hsaved] at hp
    obtain rfl := Option.some.inj hp
    rw [hstack]
    decide
  have howner {a d : Nat} (ha : a < 2) (hd : Stack.inners.slots[a]? = some (.block d)) :
      m.run.Owner a d := ⟨hstack ▸ ha, hstack ▸ hd⟩
  obtain ⟨hkeeps, hfrees⟩ := hops .pop hallows
  have htop : (m.next .pop).run.stack.top = 1 := by
    have hend := congrArg (·.stack.top) (Running.endState_onStack Stack.pop m.run)
    exact hend.trans ((Stack.popped m.run.stack).top.trans (hstack ▸ rfl))
  refine ⟨m, hm, hallows, howner (by decide) rfl, howner (by decide) rfl,
    (hkeeps 0 15 (howner (by decide) rfl) (by rw [htop]; decide)).1, ?_⟩
  obtain ⟨d, hown, hholds⟩ := hfrees m.run .pop (by rw [hstack, low_pop_inners]; decide)
  have hslot : Stack.inners.slots[1]? = some (.block d) := by
    rw [← hstack]
    exact hstack ▸ hown.slot
  obtain rfl := Slot.block.inj (Option.some.inj hslot)
  rw [hstack, low_pop_inners] at hholds
  rw [hstack]
  exact hholds

end Framed

end ManagedMachine
