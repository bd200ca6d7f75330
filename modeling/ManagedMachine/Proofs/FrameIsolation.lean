import ManagedMachine.Proofs.Headers

/-!
# Frame isolation

A method gets at the slots of its caller only through the addresses that its arguments lead to. What
it can reach is a closed set of addresses: it has the arguments, and with a slot or a block what
they point at. Edits write to addresses of such a set or to new ones, as long as every instruction
finds its operands above the locals of its frame.

That condition is needed. The engine counts the operands of calls, but every other instruction takes
them from the stack as it is.

What a frame may reach is `View.Closed`, and what one edit does to it is `View.Confined`: the set
stays closed, it grows by new addresses only, and no slot outside of it changes. Each kind of edit
has its lemma (`Quiet.confined`, `Build.confined`, `Edit.confined`), a list of edits is an induction
(`Edits.confined`), and a call that a frame makes is isolated from it in the same way
(`meet_isolating`), which gives the result for whole runs (`frame_isolation`).
-/

set_option autoImplicit false
set_option relaxedAutoImplicit false

namespace ManagedMachine

open Engine

namespace Slot

/-- Slots that lead nowhere and own nothing. -/
def Plain (s : Slot) : Prop := s.isHeader = false ∧ s.entry? = none ∧ s.target? = none

end Slot

/-! ### Closed sets of addresses -/

namespace View

/-- What is known leads only to what is known. -/
structure Closed (v : View) : Prop where
  target {a b : Nat} {s : Slot} : a ∈ v.known → v.slot? a = some s → s.target? = some b →
    b ∈ v.known
  field {d n i : Nat} {t : TypeId} : d ∈ v.known → v.slot? d = some (.header t n) → i < n →
    d - 1 - i ∈ v.known
  cells {a : Nat} : a ∈ v.cells → a ∈ v.known
  pending {d : Nat} : d ∈ v.pending → d ∈ v.known

/-- Only slots that are known, or lie from an address on, were written. -/
structure Confined (a : Nat) (v v' : View) : Prop where
  closed : v'.Closed
  known {x : Nat} : x ∈ v'.known → x ∈ v.known ∨ a ≤ x
  slots {x : Nat} : x ∉ v'.known → v'.slot? x = v.slot? x

theorem Confined.refl {v : View} (a : Nat) (h : v.Closed) :
    Confined a v v := ⟨h, Or.inl, fun _ ↦ rfl⟩

theorem Confined.trans {a : Nat} {v v' v'' : View} (h : Confined a v v') (h' : Confined a v' v'')
    (hk : v'.known ⊆ v''.known) : Confined a v v'' where
  closed := h'.closed
  known hx := (h'.known hx).elim h.known Or.inr
  slots hx := (h'.slots hx).trans (h.slots fun hx' ↦ hx (hk hx'))

theorem Confined.mono {a b : Nat} {v v' : View} (h : Confined b v v') (hab : a ≤ b) :
    Confined a v v' := ⟨h.closed, fun hx ↦ (h.known hx).imp_right hab.trans, h.slots⟩

theorem Closed.knowing {v : View} (h : v.Closed) : (View.knowing v.run v.known).Closed :=
  ⟨h.target, h.field, False.elim, nofun⟩

theorem learn_of_mem {v : View} {a : Nat} (h : a ∈ v.known) : v.learn a = v := by
  unfold learn
  rw [Set.insert_eq_of_mem h]

theorem Storable.target_mem {v : View} {s : Slot} (h : v.Storable s) (hv : v.Closed) {b : Nat}
    (hb : s.target? = some b) : b ∈ v.known := by
  cases s with
  | stackRef a =>
    cases hb
    exact h
  | block d =>
    cases hb
    exact hv.pending (by
      rw [show v.pending = [b] from h]
      exact List.mem_singleton_self b)
  | _ => cases hb

end View

variable {S : Scope} {v v' : View}

/-- A slot that leads to what is known is written to a known address. -/
theorem confined_write {a x : Nat} {s : Slot} {st : Stack} {own : Option Nat} {pending : List Nat}
    {fresh : Prop} (ha : a ∈ v.known) (hheader : s.isHeader = false)
    (htarget : ∀ b, s.target? = some b → b ∈ v.known)
    (hpending : ∀ d ∈ pending, d ∈ v.known) (h : Stack.setSlot a s v.stack = .ok () st)
    (hv : v.Closed) : View.Confined x v { v.withStack st with own, pending, fresh } := by
  obtain ⟨hsize, rfl⟩ := Stack.setSlot_ok h
  have hget (y : Nat) :
      (v.stack.slots.setIfInBounds a s)[y]? = if a = y then some s else v.slot? y := by
    rw [Array.getElem?_setIfInBounds, if_pos hsize]
    rfl
  refine ⟨⟨fun {y b s'} hy hs' hb ↦ ?_, fun {d n i t} hd hheader' hi ↦ ?_, fun h ↦ hv.cells h,
    fun h ↦ hpending _ h⟩, fun hy ↦ Or.inl hy, fun {y} hy ↦ ?_⟩
  · replace hs' := (hget y).symm.trans hs'
    split at hs'
    · cases hs'
      exact htarget b hb
    · exact hv.target hy hs' hb
  · replace hheader' := (hget d).symm.trans hheader'
    split at hheader'
    · cases hheader'
      cases hheader
    · exact hv.field hd hheader' hi
  · refine (hget y).trans (if_neg fun heq ↦ hy ?_)
    exact heq ▸ ha

/-- What a call of isolated code keeps. -/
def isolating (_ : MethodId) (a : Nat) (v v' : View) : Prop :=
  KeptBlocks v.run v'.run ∧ (v.Closed → View.Confined a v v')

/-- Code that takes operands from an address on, with host code that writes plain slots. -/
def isolationScope (bottom : Nat) : Scope := ⟨bottom, Set.univ, Slot.Plain, isolating⟩

theorem lawful_isolationScope (bottom : Nat) : (isolationScope bottom).Lawful :=
  ⟨fun h ↦ h.1, fun h ↦ h.1⟩

variable {bottom a : Nat}

/-- A quiet edit writes to addresses that the code knows, and a slot that it writes points to others
of them. -/
theorem Quiet.confined (h : Quiet (isolationScope bottom) v v') (hsolid : v.Solid) (hv : v.Closed) :
    View.Confined a v v' := by
  cases h with
  | domain hd => exact ⟨⟨hv.target, hv.field, hv.cells, hv.pending⟩, Or.inl, fun _ ↦ rfl⟩
  | follow ha hs hb =>
    rw [View.learn_of_mem (hv.target ha hs hb)]
    exact .refl a hv
  | cell hd hs hk hi =>
    obtain rfl := hsolid.blocky.sizes_eq hs hk
    have hmem := hv.field hd hs hi
    rw [View.learn_of_mem hmem]
    refine ⟨⟨hv.target, hv.field, fun hx ↦ ?_, hv.pending⟩, Or.inl, fun _ ↦ rfl⟩
    rcases hx with rfl | hx
    · exact hmem
    · exact hv.cells hx
  | entry x => exact ⟨⟨hv.target, hv.field, hv.cells, hv.pending⟩, Or.inl, fun _ ↦ rfl⟩
  | setEntry h =>
    obtain ⟨-, rfl⟩ := Stack.setEntry_ok h
    exact ⟨⟨hv.target, hv.field, hv.cells, hv.pending⟩, Or.inl, fun _ ↦ rfl⟩
  | write ha hs hsimple h =>
    exact confined_write ha.1 hs.not_header (fun _ ↦ hs.target_mem hv) (fun _ ↦ hv.pending) h hv
  | host ha hc hs h =>
    exact confined_write ha hs.1 (fun b hb ↦ absurd (hs.2.2.symm.trans hb) nofun)
      (fun _ ↦ hv.pending) h hv
  | share ha hac hb hbc hs hobject hblock hfresh h =>
    exact confined_write hb (hsolid.cells _ hac _ hs) (fun _ ↦ hv.target ha hs) (fun _ ↦ hv.pending)
      h hv

/-- A new block leads nowhere. -/
theorem confined_alloc {t : TypeId} {n d : Nat} {st : Stack} {cells : Set Nat}
    (halloc : Stack.allocBlock t n v.stack = .ok d st) (hfits : v.stack.low ≤ v.stack.slots.size)
    (ha : a ≤ v.stack.top) (hv : v.Closed)
    (hcells : ∀ x ∈ cells, x ∈ v.known ∨ st.low ≤ x ∧ x < v.stack.low) :
    View.Confined a v { v.withStack st with
      known := v.known ∪ {x | st.low ≤ x ∧ x < v.stack.low}
      cells := cells
      pending := d :: v.pending } := by
  obtain ⟨hroom, rfl, rfl⟩ := Stack.allocBlock_ok halloc
  have hget (x : Nat) := @Stack.getElem?_withBlock (v.stack.low - 1) n t v.stack.slots (by omega)
    (by omega) x
  have hout {x : Nat} (hx : x ∈ v.known ∪ {x | v.stack.low - 1 - n ≤ x ∧ x < v.stack.low})
      (hne : x ≠ v.stack.low - 1) (hin : ¬(v.stack.low - 1 - n ≤ x ∧ x < v.stack.low - 1)) :
      x ∈ v.known := by
    rcases hx with hx | ⟨hlow, hx⟩
    · exact hx
    · omega
  refine ⟨⟨fun {x b s} hx hs hb ↦ ?_, fun {e k i t'} he hs hi ↦ ?_, fun hx ↦ hcells _ hx,
    fun {e} he ↦ ?_⟩, fun {x} hx ↦ ?_, fun {x} hx ↦ ?_⟩
  · replace hs := (hget x).symm.trans hs
    split at hs
    · cases hs
      cases hb
    · split at hs
      · cases hs
        cases hb
      · exact Or.inl (hv.target (hout hx ‹_› ‹_›) hs hb)
  · replace hs := (hget e).symm.trans hs
    split at hs
    · cases hs
      refine Or.inr ⟨?_, ?_⟩
      · change v.stack.low - 1 - n ≤ e - 1 - i
        omega
      · omega
    · split at hs
      · cases hs
      · exact Or.inl (hv.field (hout he ‹_› ‹_›) hs hi)
  · rcases List.mem_cons.mp he with rfl | he
    · exact Or.inr ⟨Nat.sub_le _ _, by omega⟩
    · exact Or.inl (hv.pending he)
  · rcases hx with hx | ⟨hlow, -⟩
    · exact Or.inl hx
    · change v.stack.low - 1 - n ≤ x at hlow
      exact Or.inr (by omega)
  · refine (hget x).trans ?_
    have hnot : ¬(v.stack.low - 1 - n ≤ x ∧ x < v.stack.low) := fun h ↦ hx (Or.inr h)
    rw [if_neg (by omega), if_neg (by omega)]
    rfl

/-- New blocks are below everything in use, so they are new addresses. -/
theorem Build.confined (h : Build (isolationScope bottom) v v') (hsolid : v.Solid) (hv : v.Closed)
    (ha : a ≤ v.stack.top) : View.Confined a v v' := by
  cases h with
  | quiet h => exact h.confined hsolid hv
  | alloc hn h =>
    refine confined_alloc h hsolid.blocky.fits ha hv fun x hx ↦ ?_
    obtain ⟨-, rfl, -⟩ := Stack.allocBlock_ok h
    rcases hx with ⟨hx, -⟩ | ⟨hlow, hx⟩
    · exact Or.inl (hv.cells hx)
    · exact Or.inr ⟨hlow, by omega⟩
  | @nest x e d rest st hp hlow hea had hx hc h =>
    have hpending {y : Nat} (hy : y ∈ v.pending) : y ∈ v.known := hv.pending hy
    rw [hp] at hpending
    refine confined_write hx rfl (fun b hb ↦ ?_) (fun y hy ↦ ?_) h hv
    · cases hb
      exact hpending List.mem_cons_self
    · exact hpending (List.mem_cons_of_mem _ hy)

/-- An operand comes in between those that are known; the later ones move up. -/
theorem confined_put {b : Nat} {s : Slot} {st : Stack} {fresh : Prop}
    (hget : ∀ x, st.slots[x]? = if x = b then some s
      else if b < x ∧ x ≤ v.stack.top then v.slot? (x - 1) else v.slot? x)
    (hb : b ≤ v.stack.top) (ha : a ≤ v.stack.top)
    (hknown : ∀ x, b ≤ x → x < v.stack.top → x ∈ v.known) (hs : v.Storable s) (hv : v.Closed) :
    View.Confined a v { v.withStack st with
      known := insert v.stack.top v.known, own := none, pending := [], fresh } := by
  have hold {x : Nat} (hx : x ∈ insert v.stack.top v.known) (hxb : x ≠ b)
      (hmoved : ¬(b < x ∧ x ≤ v.stack.top)) : x ∈ v.known := by
    rcases hx with rfl | hx
    · omega
    · exact hx
  refine ⟨⟨fun {x c s'} hx hs' hc ↦ ?_, fun {d n i t} hd hs' hi ↦ ?_, fun h ↦ Or.inr (hv.cells h),
    nofun⟩, fun {x} hx ↦ ?_, fun {x} hx ↦ ?_⟩
  · replace hs' := (hget x).symm.trans hs'
    split at hs'
    · cases hs'
      exact Or.inr (hs.target_mem hv hc)
    · split at hs'
      · next hmoved => exact Or.inr (hv.target (hknown (x - 1) (by omega) (by omega)) hs' hc)
      · exact Or.inr (hv.target (hold hx ‹_› ‹_›) hs' hc)
  · replace hs' := (hget d).symm.trans hs'
    split at hs'
    · cases hs'
      exact absurd hs.not_header nofun
    · split at hs'
      · next hmoved =>
        have hbefore := hknown (d - 1) (by omega) (by omega)
        cases i with
        | zero => exact Or.inr hbefore
        | succ i =>
          have hfield := hv.field (i := i) hbefore hs' (by omega)
          exact Or.inr ((show d - 1 - 1 - i = d - 1 - (i + 1) by omega) ▸ hfield)
      · exact Or.inr (hv.field (hold hd ‹_› ‹_›) hs' hi)
  · rcases hx with rfl | hx
    · exact Or.inr ha
    · exact Or.inl hx
  · have hne : x ≠ v.stack.top := fun h ↦ hx (Or.inl h)
    have hnot (hbx : b ≤ x) : ¬x < v.stack.top := fun h ↦ hx (Or.inr (hknown x hbx h))
    refine (hget x).trans ?_
    rw [if_neg (by omega), if_neg (by omega)]

/-- Operands come and go above the locals of the frame. -/
theorem Edit.confined (h : Edit (isolationScope bottom) v v') (hsolid : v.Solid) (hv : v.Closed)
    (hcovers : (isolationScope bottom).Covers v) (hbottom : bottom ≤ v.stack.top)
    (ha : a ≤ bottom) :
    View.Confined a v v' := by
  have hfits : v.stack.low ≤ v.stack.slots.size := hsolid.blocky.fits
  cases h with
  | build h => exact h.confined hsolid hv (ha.trans hbottom)
  | drop => exact ⟨⟨hv.target, hv.field, hv.cells, nofun⟩, Or.inl, fun _ ↦ rfl⟩
  | storeRef hx hs href h =>
    exact confined_write hx.1 hs.not_header (fun _ ↦ hs.target_mem hv) (fun _ ↦ hv.pending) h hv
  | @push s st hs h =>
    obtain ⟨hroom, rfl⟩ := Stack.push_ok h
    refine confined_put (b := v.stack.top) (fun x ↦ ?_) (Nat.le_refl _) (ha.trans hbottom)
      (fun x hx hx' ↦ absurd hx (Nat.not_le_of_lt hx')) hs hv
    dsimp only
    rw [Array.getElem?_setIfInBounds]
    by_cases hx : x = v.stack.top
    · rw [if_pos hx.symm, if_pos (by omega), if_pos hx]
    · rw [if_neg (Ne.symm hx), if_neg hx, if_neg (by omega)]
      rfl
  | @insert b s st hb hs h =>
    obtain ⟨hab, hroom, rfl⟩ := Stack.insert_ok h
    exact confined_put (b := b) (fun x ↦ Stack.getElem?_shifted s (by omega) hab x) hab
      (ha.trans hbottom) (fun x hx hx' ↦ hcovers x (hb.trans hx) hx') hs hv
  | pop hpop =>
    have hslots : (endState Stack.pop v.stack).slots = v.stack.slots := (Stack.popped v.stack).slots
    have hget (x : Nat) : (v.withStack (endState Stack.pop v.stack)).slot? x = v.slot? x :=
      congrArg (·[x]?) hslots
    exact ⟨⟨fun hx hs ↦ hv.target hx ((hget _).symm.trans hs),
      fun hd hs ↦ hv.field hd ((hget _).symm.trans hs), hv.cells, hv.pending⟩, Or.inl,
      fun _ ↦ hget _⟩
  | @retag i s st htop hpop hobject hs href h =>
    have htarget : s.isHeader = false ∧ s.target? = none := by
      cases s <;> first | exact ⟨rfl, rfl⟩ | cases href
    refine confined_write (hcovers _ hpop (by omega)) htarget.1 (fun b hb ↦ ?_) (fun _ ↦ hv.pending)
      h hv
    exact absurd (htarget.2.symm.trans hb) nofun
  | @call v' id b hb h hdomain hknown htop hover =>
    have hcall := (h.2 hv).mono (ha.trans hb)
    exact ⟨⟨hcall.closed.target, hcall.closed.field, False.elim, nofun⟩, hcall.known, hcall.slots⟩

/-- By induction on the edits. -/
theorem Edits.confined (h : Edits (isolationScope bottom) v v') (hsolid : v.Solid) (hv : v.Closed)
    (hcovers : (isolationScope bottom).Covers v) (hbottom : bottom ≤ v.stack.top)
    (ha : a ≤ bottom) :
    v'.Solid ∧ View.Confined a v v' := by
  induction h with
  | refl => exact ⟨hsolid, .refl a hv⟩
  | tail hR h ih =>
    obtain ⟨hsolid', hconfined⟩ := ih
    refine ⟨(h.solid (lawful_isolationScope bottom) hsolid').1, hconfined.trans ?_ h.known⟩
    exact h.confined hsolid' hconfined.closed (Edits.covers hR hcovers)
      (Edits.bottom_le hR hbottom) ha

/-! ### Isolation of a piece of code -/

/-- The addresses of a call: a closed set that has the slots from an address up. -/
structure Has (a : Nat) (r : Running) (known : Set Nat) : Prop where
  closed : (View.knowing r known).Closed
  slots {x : Nat} : a ≤ x → x < r.stack.top → x ∈ known

/-- Whatever a call has, it writes no other slots below the address. -/
def Isolates (a : Nat) (r r' : Running) (result : Option Carry) : Prop :=
  ∀ known, Has a r known → ∃ known', Has a r' known' ∧ known ⊆ known' ∧
    View.Confined a (.knowing r known) (.knowing r' known') ∧
    (View.knowing r' known').Returns result

namespace Isolates

variable {r r' r'' : Running} {result : Option Carry}

/-- Two stretches of code that are isolated one after the other. The second one knows what the first
has left it. -/
theorem trans (h : Isolates a r r' none) (h' : Isolates a r' r'' result) :
    Isolates a r r'' result := by
  intro known hknown
  obtain ⟨known', hknown', hsub, hconfined, -⟩ := h known hknown
  obtain ⟨known'', hknown'', hsub', hconfined', hreturns⟩ := h' known' hknown'
  exact ⟨known'', hknown'', hsub.trans hsub', hconfined.trans hconfined' hsub', hreturns⟩

/-- The result stays good when something is done after it. -/
theorem trans_none (h : Isolates a r r' result) (h' : Isolates a r' r'' none) :
    Isolates a r r'' result := by
  intro known hknown
  obtain ⟨known', hknown', hsub, hconfined, hreturns⟩ := h known hknown
  obtain ⟨known'', hknown'', hsub', hconfined', -⟩ := h' known' hknown'
  refine ⟨known'', hknown'', hsub.trans hsub', hconfined.trans hconfined' hsub', fun c hc ↦ ?_⟩
  exact ⟨(hreturns c hc).1.mono hsub', (hreturns c hc).2⟩

theorem without_result (h : Isolates a r r' result) : Isolates a r r' none := by
  intro known hknown
  obtain ⟨known', hknown', hsub, hconfined, -⟩ := h known hknown
  exact ⟨known', hknown', hsub, hconfined, nofun⟩

/-- The same slots with no more operands. -/
theorem of_slots (hslots : r'.stack.slots = r.stack.slots) (htop : r'.stack.top ≤ r.stack.top) :
    Isolates a r r' none := by
  intro known h
  have hget (x : Nat) : (View.knowing r' known).slot? x = (View.knowing r known).slot? x :=
    congrArg (·[x]?) hslots
  have hclosed : (View.knowing r' known).Closed :=
    ⟨fun hx hs ↦ h.closed.target hx ((hget _).symm.trans hs),
      fun hd hs ↦ h.closed.field hd ((hget _).symm.trans hs), False.elim, nofun⟩
  exact ⟨known, ⟨hclosed, fun hx hx' ↦ h.slots hx (hx'.trans_le htop)⟩, subset_rfl,
    ⟨hclosed, Or.inl, fun _ ↦ hget _⟩, nofun⟩

theorem refl (a : Nat) (r : Running) : Isolates a r r none := of_slots rfl (Nat.le_refl _)

end Isolates

namespace Engine

variable {α : Type} {r : Running} {c : Callees}

/-- Edits isolate. -/
theorem isolates_of_edits {known : Set Nat} (hblocky : r.Blocky) (hknown : Has a r known)
    (ha : a ≤ bottom) (hbottom : bottom ≤ r.stack.top)
    (hR : Edits (isolationScope bottom) (.knowing r known) v) {result : Option Carry}
    (hreturns : v.Returns result) :
    ∃ known', Has a v.run known' ∧ known ⊆ known' ∧
      View.Confined a (.knowing r known) (.knowing v.run known') ∧
      (View.knowing v.run known').Returns result := by
  have hcovers : (isolationScope bottom).Covers (.knowing r known) :=
    fun x hx hx' ↦ hknown.slots (ha.trans hx) hx'
  obtain ⟨-, hconfined⟩ :=
    Edits.confined hR (.of_empty hblocky rfl) hknown.closed hcovers hbottom ha
  have hsub : known ⊆ v.known := Edits.known hR
  refine ⟨v.known, ⟨hconfined.closed.knowing, fun {x} hx hx' ↦ ?_⟩, hsub,
    ⟨hconfined.closed.knowing, hconfined.known, hconfined.slots⟩, fun carry hcarry ↦ ?_⟩
  · rcases Nat.lt_or_ge x bottom with hlt | hge
    · exact hsub (hknown.slots hx (hlt.trans_le hbottom))
    · exact Edits.covers hR hcovers x hge hx'
  · exact ⟨(hreturns carry hcarry).1.mono subset_rfl, (hreturns carry hcarry).2⟩

/-- Code that amounts to edits, whatever is known, isolates. -/
theorem ends_isolates {x : RunM α} (result : α → Option Carry) (hblocky : r.Blocky)
    (ha : a ≤ bottom) (hbottom : bottom ≤ r.stack.top)
    (h : ∀ known, Has a r known → Spec (Edit (isolationScope bottom)) x (.knowing r known)
      fun y w ↦ w.Returns (result y)) :
    Ends x r (fun y r' ↦ Isolates a r r' (result y)) fun r' ↦ Isolates a r r' none := by
  refine Ends.forall fun known hknown ↦ (ends_of_spec (h known hknown)).imp (fun y r' h' ↦ ?_)
    fun r' h' ↦ ?_
  · obtain ⟨w, rfl, hR, hreturns⟩ := h'
    exact isolates_of_edits hblocky hknown ha hbottom hR hreturns
  · obtain ⟨w, rfl, hR⟩ := h'
    exact isolates_of_edits hblocky hknown ha hbottom hR nofun

end Engine

/-! ### Calls -/

/-- The instruction finds the operands that it takes above the locals of its frame. -/
def Moment.Finds (m : Moment) : Prop :=
  m.frame.evalBase + takes m.fuel m.frame m.before m.instruction ≤ m.before.stack.top

/-- Redirections write only plain slots. -/
def WritesPlain (r : Running) : Prop := r.domain.bindings.Writes Slot.Plain

theorem WritesPlain.extends {r r' : Running} (h : WritesPlain r) (hd : r.domain.Extends r'.domain) :
    WritesPlain r' := by
  unfold WritesPlain
  rw [hd.bindings]
  exact h

theorem has_univ (a : Nat) (r : Running) : Has a r Set.univ :=
  ⟨⟨fun _ _ _ ↦ trivial, fun _ _ _ ↦ trivial, fun _ ↦ trivial, fun _ ↦ trivial⟩,
    fun _ _ ↦ trivial⟩

namespace Engine

variable {r entry : Running} {c : Callees} {f : Frame}

/-- The machine on which a method may be called in isolation. -/
structure Callable (a : Nat) (r : Running) : Prop where
  blocky : r.Blocky
  host : WritesPlain r
  top : a ≤ r.stack.top

/-- Opening a frame isolates. -/
theorem isolates_openFrame {fuel a : Nat} {id : MethodId} {code : Body} {home : ModuleId}
    (h : Callable a r) :
    Ends (openFrame fuel id (r.domain.registry.method id) code home a) (r.entered id)
      (fun _ r' ↦ Isolates a r r' none) fun r' ↦ Isolates a r r' none := by
  have hentered : Isolates a r (r.entered id) none := .of_slots rfl (Nat.le_refl _)
  have hopen : Ends (openFrame fuel id (r.domain.registry.method id) code home a) (r.entered id)
      (fun _ r' ↦ Isolates a (r.entered id) r' none) fun r' ↦ Isolates a (r.entered id)
      r' none := by
    refine Ends.forall fun known hknown ↦ ?_
    refine (ends_opening (S := isolationScope a) (v := .knowing (r.entered id) known) fuel id code
      home rfl (fun htop x hx hx' ↦ ⟨trivial, hknown.slots hx (htop ▸ hx')⟩) rfl).imp
      (fun f r' h' ↦ ?_) fun r' h' ↦ ?_
    · obtain ⟨-, -, w, hR, -, rfl⟩ := h'
      obtain ⟨known', hknown', hsub, hconfined, -⟩ := isolates_of_edits (h.blocky.entered id) hknown
        (Nat.le_refl a) h.top (Grows.edits hR) w.returns_none
      exact ⟨known', ⟨⟨hknown'.closed.target, hknown'.closed.field, False.elim, nofun⟩,
        hknown'.slots⟩, hsub, ⟨⟨hconfined.closed.target, hconfined.closed.field, False.elim, nofun⟩,
        hconfined.known, hconfined.slots⟩, nofun⟩
    · obtain ⟨w, hR, rfl⟩ := h'
      exact isolates_of_edits (h.blocky.entered id) hknown (Nat.le_refl a) h.top (Grows.edits hR)
        w.returns_none
  exact hopen.imp (fun _ _ h ↦ hentered.trans h) fun _ h ↦ hentered.trans h

/-- Calls that isolate are edits of isolated code. -/
theorem meet_isolating {known : Set Nat} {a : Nat} (hserve : ∀ q, Domain.Grows (c.serve q))
    (hrun : ∀ id a s, Callable a s → Ends (c.run id a) s
      (fun v r' ↦ r'.stack.top = a ∧ KeptBlocks s r' ∧ Isolates a s r' v)
      fun r' ↦ a ≤ r'.stack.top ∧ KeptBlocks s r' ∧ r'.stack.top ≤ s.stack.top ∧
      Isolates a s r' none)
    (hblocky : r.Blocky) (hhost : WritesPlain r) (hknown : Has a r known) (ha : a ≤ bottom)
    (hbottom : bottom ≤ r.stack.top) : c.Meet (isolationScope bottom) (.knowing r known) := by
  refine meet_of_ends hserve hhost fun id b w hw hb ↦ ?_
  have hcovers : (isolationScope bottom).Covers (.knowing r known) :=
    fun x hx hx' ↦ hknown.slots (ha.trans hx) hx'
  obtain ⟨hsolid, hconfined⟩ := Edits.confined hw (.of_empty hblocky rfl) hknown.closed hcovers
    hbottom ha
  have hcall : Callable b w.run := ⟨hsolid.blocky, hhost.extends (Edits.domain hw), hb.top⟩
  have hhas : Has b w.run w.known :=
    ⟨hconfined.closed.knowing, fun hx hx' ↦ hb.covers _ (hb.bottom.trans hx) hx'⟩
  have hedit {r' : Running} {known' : Set Nat} (hkept : KeptBlocks w.run r')
      (hc : View.Confined b (.knowing w.run w.known) (.knowing r' known')) :
      isolating id b w (.knowing r' known') := ⟨hkept, fun _ ↦ ⟨hc.closed, hc.known, hc.slots⟩⟩
  refine (hrun id b w.run hcall).imp (fun v r' h ↦ ?_) fun r' h ↦ ?_
  · obtain ⟨htop, hkept, hisolates⟩ := h
    obtain ⟨known', hknown', hsub, hc, hreturns⟩ := hisolates w.known hhas
    exact ⟨htop, known', hsub, hedit hkept hc, hkept.domain, hreturns⟩
  · obtain ⟨hle, hkept, htop, hisolates⟩ := h
    obtain ⟨known', hknown', hsub, hc, -⟩ := hisolates w.known hhas
    exact ⟨htop, Nat.le_trans hb.bottom hle, known', hsub, hedit hkept hc, hkept.domain⟩

/-- The machine between two instructions of an isolated call. -/
structure Isolated (entry : Running) (a : Nat) (f : Frame) (r : Running) : Prop extends
    Placed entry r where
  argBase : f.argBase = a
  ordered : Ordered f
  evalBase : f.evalBase ≤ r.stack.top
  isolates : Isolates a entry r none

theorem Isolated.le_evalBase {a : Nat} (h : Isolated entry a f r) : a ≤ f.evalBase := by
  obtain ⟨hargs, hlocals⟩ := h.ordered
  have hbase := h.argBase
  omega

theorem Frame.argBase_of_core {f f' : Frame} (h : f'.core = f.core) :
    f'.argBase = f.argBase ∧ f'.evalBase = f.evalBase := by
  cases f
  cases f'
  cases h
  exact ⟨rfl, rfl⟩

/-- An instruction of an isolated call, for what the call may have. -/
theorem does_isolated {a : Nat} (fuel addr : Nat) (i : Instruction) {known : Set Nat}
    (hserve : ∀ q, Domain.Grows (c.serve q))
    (hrun : ∀ id a s, Callable a s → Ends (c.run id a) s
      (fun v r' ↦ r'.stack.top = a ∧ KeptBlocks s r' ∧ Isolates a s r' v)
      fun r' ↦ a ≤ r'.stack.top ∧ KeptBlocks s r' ∧ r'.stack.top ≤ s.stack.top ∧
      Isolates a s r' none)
    (hhost : WritesPlain entry) (h : Isolated entry a f r)
    (hfinds : f.evalBase + takes fuel f r i ≤ r.stack.top) (hknown : Has a r known) :
    Does (isolationScope f.evalBase) c (fun c ↦ advance c fuel f addr i) (.knowing r known)
      fun ctl w ↦ Continues f w ctl := by
  have hle := h.le_evalBase
  refine does_advance (meet_isolating hserve hrun h.blocky (hhost.extends h.domain) hknown hle
    h.evalBase) fuel addr i ?_ ?_
  · refine ⟨Nat.le_refl _, h.ordered.1, h.ordered.2, fun x hx hx' ↦ ⟨trivial, ?_⟩⟩
    exact hknown.slots (h.argBase ▸ hx) (hx'.trans_le h.evalBase)
  · refine ⟨?_, fun x hx hx' ↦ hknown.slots (hle.trans hx) hx', rfl, trivial⟩
    exact Nat.le_sub_of_add_le hfinds

/-- Giving the arguments up isolates. -/
theorem isolates_close {a : Nat} {result : Option Carry} (hentry : Callable a entry)
    (hbegun : Begun entry r) (htop : a ≤ r.stack.top) (h : Isolates a entry r result) :
    Ends (popArguments a) (r.left entry)
      (fun _ r' ↦ r'.stack.top = a ∧ KeptBlocks entry r' ∧ Isolates a entry r' result)
      fun r' ↦ a ≤ r'.stack.top ∧ KeptBlocks entry r' ∧ r'.stack.top ≤ entry.stack.top ∧
        Isolates a entry r' none := by
  have hblocky : (r.left entry).Blocky := (hbegun.left hentry.blocky).blocky hentry.blocky
  have htop' : a ≤ (r.left entry).stack.top := Nat.le_min.mpr ⟨hentry.top, htop⟩
  have hleft : Isolates a entry (r.left entry) result :=
    h.trans_none (.of_slots rfl (Nat.min_le_right _ _))
  have hclose (known : Set Nat) := ends_close known (lawful_isolationScope a) (Nat.le_refl a)
    hentry.blocky hbegun
  have hpops : Ends (popArguments a) (r.left entry)
      (fun _ r' ↦ Isolates a (r.left entry) r' none) fun r' ↦ Isolates a (r.left entry)
      r' none := by
    refine Ends.forall fun known hknown ↦ (hclose known).imp (fun _ r' h' ↦ ?_) fun r' h' ↦ ?_
    · obtain ⟨w, rfl, hR, -⟩ := h'
      exact isolates_of_edits hblocky hknown (Nat.le_refl a) htop' hR w.returns_none
    · obtain ⟨w, rfl, hR, -⟩ := h'
      exact isolates_of_edits hblocky hknown (Nat.le_refl a) htop' hR w.returns_none
  refine ((hclose Set.univ).and hpops).imp (fun _ r' h' ↦ ?_) fun r' h' ↦ ?_
  · obtain ⟨⟨w, -, -, hbase, hkept, -⟩, hpop⟩ := h'
    exact ⟨hbase, hkept, hleft.trans_none hpop⟩
  · obtain ⟨⟨w, rfl, hR, hkept, hle⟩, hpop⟩ := h'
    exact ⟨Edits.bottom_le hR htop', hkept, hle, (hleft.trans_none hpop).without_result⟩

/-- Every call whose instructions find their operands isolates. -/
def isolationInvariant : CallInvariant Moment.Finds fun _ ↦ True where
  pre := Callable
  body := Isolated
  returned entry a v r := Begun entry r ∧ a ≤ r.stack.top ∧ Isolates a entry r v
  failed entry a r := Begun entry r ∧ a ≤ r.stack.top ∧ Isolates a entry r none
  good a r v r' := r'.stack.top = a ∧ KeptBlocks r r' ∧ Isolates a r r' v
  bad a r r' := a ≤ r'.stack.top ∧ KeptBlocks r r' ∧ r'.stack.top ≤ r.stack.top ∧
    Isolates a r r' none
  refuse h := ⟨h.top, .refl _, Nat.le_refl _, .refl _ _⟩
  fail h := ⟨h.toPlaced.begun, h.le_evalBase.trans h.evalBase, h.isolates⟩
  opens {fuel a id code home r} hpre _ := by
    have hbegun {w : View} (hR : Grows (isolationScope a) (.start (r.entered id)) w) :
        Begun r w.run := .of_grows (lawful_isolationScope a) hpre.blocky rfl rfl hR
    refine ((ends_opening (S := isolationScope a) (v := .start (r.entered id)) fuel id code home rfl
      (fun _ _ _ _ ↦ ⟨trivial, trivial⟩) rfl).and (isolates_openFrame hpre)).imp
      (fun f r' h ↦ ?_) fun r' h ↦ ?_
    · obtain ⟨⟨hbase, hord, w, hR, htop, rfl⟩, hisolates⟩ := h
      exact ⟨(hbegun hR).sealed, hbase, hord, htop.ge, hisolates⟩
    · obtain ⟨⟨w, hR, rfl⟩, hisolates⟩ := h
      exact ⟨hbegun hR, Edits.bottom_le (Grows.edits hR) hpre.top, hisolates⟩
  step {c} hserve hrun {entry r a fuel addr f i} hpre hbody hfinds := by
    have hbefore : Isolated entry a f (r.noting addr) :=
      { hbody.toPlaced.noting addr with
        argBase := hbody.argBase
        ordered := hbody.ordered
        evalBase := (r.noting_stack addr).symm ▸ hbody.evalBase
        isolates := hbody.isolates.trans (.of_slots (by rw [Running.noting_stack])
          (by rw [Running.noting_stack])) }
    have hdoes (known : Set Nat) (hknown : Has a (r.noting addr) known) :=
      does_isolated fuel addr i hserve
        (fun id a s hs ↦ (hrun id a s hs).imp (fun _ _ h ↦ h) fun _ h ↦ h) hpre.host hbefore hfinds
        hknown
    have hall := hdoes Set.univ (has_univ a _)
    have hkept {w : View} (hw : Edits (isolationScope f.evalBase) (.start (r.noting addr)) w) :
        Placed entry w.run ∧ f.evalBase ≤ w.stack.top :=
      ⟨hbefore.toPlaced.kept (Edits.keptBlocks (lawful_isolationScope _) hw rfl),
        Edits.bottom_le hw hbefore.evalBase⟩
    refine ⟨trivial, fun run hrun' ↦ hall.only run fun id b s ⟨w, hw, hR, hready⟩ ↦ ?_, ?_⟩
    · subst hw
      obtain ⟨hplaced, -⟩ := hkept hR
      exact hrun' id b w.run ⟨hplaced.blocky, hpre.host.extends hplaced.domain, hready.top⟩
    · refine ((ends_of_spec hall.spec).and (ends_isolates (fun
        | .at _ _ => none
        | .done v => v) hbefore.blocky hbefore.le_evalBase hbefore.evalBase
        fun known hknown ↦ (hdoes known hknown).spec.imp fun ctl w _ h ↦ ?_)).imp
        (fun ctl r' h ↦ ?_) fun r' h ↦ ?_
      · cases ctl with
        | «at» next f' => exact nofun
        | done v => exact h
      · obtain ⟨⟨w, rfl, hw, hcontinues⟩, hisolates⟩ := h
        obtain ⟨hplaced, htop⟩ := hkept hw
        cases ctl with
        | «at» next f' =>
          obtain ⟨hbase, heval⟩ := Frame.argBase_of_core hcontinues
          exact ⟨hplaced, hbase.trans hbody.argBase, hbody.ordered.core hcontinues, heval ▸ htop,
            hbefore.isolates.trans hisolates⟩
        | done v =>
          exact ⟨hplaced.begun, hbefore.le_evalBase.trans htop, hbefore.isolates.trans hisolates⟩
      · obtain ⟨⟨w, rfl, hw⟩, hisolates⟩ := h
        obtain ⟨hplaced, htop⟩ := hkept hw
        exact ⟨hplaced.begun, hbefore.le_evalBase.trans htop, hbefore.isolates.trans hisolates⟩
  returns hpre h := isolates_close hpre h.1 h.2.1 h.2.2
  fails {a r r'} hpre h := by
    refine (isolates_close hpre h.1 h.2.1 h.2.2).endState
      (O := fun r'' ↦ a ≤ r''.stack.top ∧ KeptBlocks r r'' ∧ r''.stack.top ≤ r.stack.top ∧
        Isolates a r r'' none) (fun _ r'' h' ↦ ?_) fun _ h' ↦ h'
    obtain ⟨htop, hkept, hisolates⟩ := h'
    exact ⟨htop.ge, hkept, htop.trans_le hpre.top, hisolates⟩

end Engine

/-! ### What a caller may rely on -/

/-- The addresses that a call on the slots from `a` up can get at. -/
inductive Reaches (r : Running) (a : Nat) : Nat → Prop
  | operand {x : Nat} (ha : a ≤ x) (hx : x < r.stack.top) : Reaches r a x
  | target {x b : Nat} {s : Slot} (hx : Reaches r a x) (hs : r.stack.slots[x]? = some s)
      (hb : s.target? = some b) : Reaches r a b
  | field {d n i : Nat} {t : TypeId} (hd : Reaches r a d)
      (hs : r.stack.slots[d]? = some (.header t n)) (hi : i < n) : Reaches r a (d - 1 - i)

theorem has_reaches (a : Nat) (r : Running) : Has a r {x | Reaches r a x} :=
  ⟨⟨.target, .field, False.elim, nofun⟩, .operand⟩

/-- The slots below an address that a call could not get at are what they were. -/
def Untouched (a : Nat) (r r' : Running) : Prop :=
  ∀ x < a, ¬Reaches r a x → r'.stack.slots[x]? = r.stack.slots[x]?

theorem Isolates.untouched {a : Nat} {r r' : Running} {result : Option Carry}
    (h : Isolates a r r' result) : Untouched a r r' := by
  intro x hx hreach
  obtain ⟨known', -, -, hconfined, -⟩ := h _ (has_reaches a r)
  exact hconfined.slots fun hknown ↦ (hconfined.known hknown).elim hreach (Nat.not_le_of_lt hx)

namespace Engine

/-- A call that finds fewer operands than its method takes is refused, and takes none. -/
theorem call_refused (c : Callees) (fuel : Nat) (f : Frame) (token : Token) (virtual_ : Bool)
    {r r' : Running} {id : MethodId} (hfound : methodOperand fuel f token r = .ok (some id) r')
    (hcount : r'.stack.top < f.evalBase + (r'.domain.registry.method id).argCount) :
    call c fuel f token virtual_ r = .error (.stack (.callOperands
      (r'.domain.registry.fullName f.method) (r'.domain.registry.method id).argCount)) r' := by
  have hmethod : method id r' = .ok (r'.domain.registry.method id) r' := rfl
  have hbase : operandsBase f (r'.domain.registry.method id).argCount r' =
      .error (.stack (.callOperands (r'.domain.registry.fullName f.method)
        (r'.domain.registry.method id).argCount)) r' := by
    have htop : ask Stack.top r' = .ok r'.stack.top r' := rfl
    unfold operandsBase
    rw [bind_of_ok htop, if_neg (Nat.not_le_of_lt hcount)]
    rfl
  unfold call
  rw [bind_of_ok hfound]
  dsimp only
  rw [bind_of_ok hmethod, bind_of_error hbase]

/-- A call whose instructions find their operands leaves the slots below its arguments alone, except
for those that it was given the address of. The instructions that count their operands find them:
with too few, a call is refused. -/
theorem frame_isolation {fuel a : Nat} {id : MethodId} {r : Running} (h : Callable a r)
    (hfinds : Along Moment.Finds fuel id a r) :
    Ends (run fuel id a) r (fun _ r' ↦ r'.stack.top = a ∧ Untouched a r r') (Untouched a r) ∧
    ∀ (c : Callees) (bound : Nat) (f : Frame) (token : Token) (virtual_ : Bool) (s s' : Running)
      (m : MethodId), methodOperand bound f token s = .ok (some m) s' →
        s'.stack.top < f.evalBase + (s'.domain.registry.method m).argCount →
          call c bound f token virtual_ s = .error (.stack (.callOperands
            (s'.domain.registry.fullName f.method) (s'.domain.registry.method m).argCount)) s' :=
  ⟨(isolationInvariant.along fuel id a r h hfinds).2.imp
      (fun _ _ h ↦ ⟨h.1, h.2.2.untouched⟩) fun _ h ↦ h.2.2.2.untouched,
    fun c bound f token virtual_ _ _ _ hfound hcount ↦
      call_refused c bound f token virtual_ hfound hcount⟩

/-! ### Runs on a stack with one operand of the caller -/

/-- A method that puts a number on the stack and returns it. -/
def constantSample : Running := .sampleOn [#[.constInt32 7, .ret]] [.int32 1]

/-- A method that takes an operand before it has one. -/
def underflowSample : Running :=
  .sampleOn [#[.pop, .constInt32 42, .constInt32 0, .ret]] [.int32 1]

/-- A stack without headers is in order. -/
theorem callable_sampleOn {codes : List (Array Instruction)} {operands : List Slot} {a : Nat}
    (h : (Running.sampleOn codes operands).stack.slots.all fun s ↦ !s.isHeader)
    (hfits : (Running.sampleOn codes operands).stack.low ≤
      (Running.sampleOn codes operands).stack.slots.size)
    (htop : a ≤ (Running.sampleOn codes operands).stack.top) :
    Callable a (.sampleOn codes operands) := by
  have hnone {d n : Nat} {t : TypeId} {P : Prop}
      (hd : (Running.sampleOn codes operands).stack.slots[d]? = some (.header t n)) : P := by
    have hheader := Array.all_eq_true'.mp h _ (Array.mem_of_getElem? hd)
    cases hheader
  refine ⟨⟨hfits, hnone, hnone, fun hd _ _ _ ↦ hnone hd, fun hd _ ↦ hnone hd, hnone⟩, ?_, htop⟩
  intro key code hcode
  have hempty : ({} : Std.HashMap String Redirection)[key]? = none := Std.HashMap.getElem?_empty
  cases hempty.symm.trans hcode

theorem push_eq (s : Slot) : push s = Running.onStack (Stack.push s) := rfl

/-- Pushing a constant is the next instruction and one operand more. -/
theorem advance_constInt32 {c : Callees} {fuel addr next : Nat} {f f' : Frame} {x : Int32}
    {r r' : Running} (h : advance c fuel f addr (.constInt32 x) r = .ok (.at next f') r') :
    next = addr + 1 ∧ f' = f ∧ r'.stack.top = r.stack.top + 1 := by
  obtain ⟨d, n, st, frames⟩ := r
  unfold advance step onward at h
  dsimp only at h
  cases hst : Stack.push (.int32 x) st with
  | error e st' =>
    have hpush : push (.int32 x) ⟨d, n, st, frames⟩ = .error e ⟨d, n, st', frames⟩ := by
      rw [push_eq]
      simp only [Running.onStack, hst]
    rw [bind_of_error hpush] at h
    obtain rfl : e = .stackOverflow := by
      unfold Stack.push at hst
      split at hst
      · cases hst
        rfl
      · cases hst
    cases h
  | ok u st' =>
    have hpush : push (.int32 x) ⟨d, n, st, frames⟩ = .ok () ⟨d, n, st', frames⟩ := by
      rw [push_eq]
      simp only [Running.onStack, hst]
    rw [bind_of_ok hpush] at h
    cases h
    obtain ⟨-, rfl⟩ := Stack.push_ok hst
    exact ⟨rfl, rfl, rfl⟩

/-- The condition on the operands, for a body that pushes a constant and returns it. -/
theorem finds_constantSample : Along Moment.Finds 3 ⟨0⟩ 1 constantSample := by
  intro body home f r' henters hopen
  obtain rfl : (⟨[], #[.constInt32 7, .ret], []⟩ : Body) = body := Option.some.inj henters.body
  obtain ⟨m, token, hm, rfl⟩ := henters.home
  obtain ⟨rfl, rfl⟩ := Prod.mk.inj (Option.some.inj hm)
  have hopens : Ends (openFrame 2 ⟨0⟩ (constantSample.domain.registry.method ⟨0⟩)
      ⟨[], #[.constInt32 7, .ret], []⟩ ⟨0⟩ 1) (constantSample.entered ⟨0⟩)
      (fun f r ↦ f.body.code = #[.constInt32 7, .ret] ∧ f.evalBase = 1 ∧ r.stack.top = 1)
      fun _ ↦ True := by cbv
  rw [Ends, hopen] at hopens
  obtain ⟨hcode, heval, htop⟩ := hopens
  intro i hi
  rw [hcode] at hi
  obtain rfl : Instruction.constInt32 7 = i := Option.some.inj hi
  refine ⟨?_, callsIn_of_same fun _ ↦ rfl, fun next f' r'' hstep i hi ↦
    ⟨?_, ?_, fun _ _ _ _ ↦ trivial⟩⟩
  · exact heval.trans_le ((Running.noting_stack ..).symm ▸ htop.ge)
  all_goals
    obtain ⟨rfl, rfl, htop'⟩ := advance_constInt32 hstep
    rw [hcode] at hi
    obtain rfl : Instruction.ret = i := Option.some.inj hi
  · unfold Moment.Finds momentOf takes
    dsimp only
    rw [Running.noting_stack, htop', Running.noting_stack, htop, heval]
    split <;> decide
  · exact callsIn_of_same fun _ ↦ rfl

theorem frame_isolation_constInt32 :
    Callable 1 constantSample ∧ Along Moment.Finds 3 ⟨0⟩ 1 constantSample ∧
    Ends (run 3 ⟨0⟩ 1) constantSample
      (fun _ r' ↦ r'.stack.top = 1 ∧ Untouched 1 constantSample r')
      (Untouched 1 constantSample) := by
  have hcallable : Callable 1 constantSample := callable_sampleOn (by cbv) (by cbv) (by cbv)
  exact ⟨hcallable, finds_constantSample, (frame_isolation hcallable finds_constantSample).1⟩

/-- Without that condition, a method can put something else in the place of an operand of its caller
that it was not given the address of, and return. -/
theorem caller_operand_replaced : ¬∀ (fuel a : Nat) (id : MethodId) (r : Running), Callable a r →
    Ends (run fuel id a) r (fun _ r' ↦ Untouched a r r') fun _ ↦ True := by
  intro h
  have hends := h 5 1 ⟨0⟩ underflowSample (callable_sampleOn (by cbv) (by cbv) (by cbv))
  have hreplaced : Ends (run 5 ⟨0⟩ 1) underflowSample
      (fun _ r ↦ r.stack.slots[0]? = some (.int32 42)) fun _ ↦ False := by cbv
  have hreach (x : Nat) : ¬Reaches underflowSample 1 x := by
    intro hx
    induction hx with
    | operand ha hx => exact absurd (ha.trans_lt hx) (by cbv)
    | target _ _ _ ih => exact ih
    | field _ _ _ ih => exact ih
  have hfirst : underflowSample.stack.slots[0]? = some (.int32 1) := by cbv
  obtain ⟨_, hkept, hslot⟩ := ((hends.and hreplaced).imp (fun _ _ h ↦ h) fun _ h ↦ h.2).succeeds
  cases hslot.symm.trans ((hkept 0 Nat.zero_lt_one (hreach 0)).trans hfirst)

end Engine

end ManagedMachine
