import ManagedMachine.Proofs.Runs

/-!
# The headers on a stack

A header stands for a block: its fields are the slots below it, as many as its type has, and none of
them is a header. `Running.Blocky` says so of every header in the array, those of blocks that were
given up included, and code that writes no header of its own accord keeps it: new headers come only
from new blocks.

Where headers may be is followed along the edits. Writing a slot that is no header takes headers
away at most (`header_of_setSlot`), and new headers come where new blocks are (`Build.solid`), so
every header above what was in use before was there before (`HeadersAbove`). The rest of the module
carries this through frames, calls and whole runs.
-/

set_option autoImplicit false
set_option relaxedAutoImplicit false

namespace ManagedMachine

open Engine

/-- Every header stands for a block of its type. -/
structure Running.Blocky (r : Running) : Prop where
  fits : r.stack.low ≤ r.stack.slots.size
  count {d n : Nat} {t : TypeId} : r.stack.slots[d]? = some (.header t n) →
    r.domain.fieldCount? t = some n
  room {d n : Nat} {t : TypeId} : r.stack.slots[d]? = some (.header t n) → n ≤ d
  inner {d n a : Nat} {t : TypeId} {s : Slot} : r.stack.slots[d]? = some (.header t n) → d - n ≤ a →
    a < d → r.stack.slots[a]? = some s → s.isHeader = false
  above {d n : Nat} {t : TypeId} : r.stack.slots[d]? = some (.header t n) → r.stack.low ≤ d →
    r.stack.low ≤ d - n
  operands {d n : Nat} {t : TypeId} : r.stack.slots[d]? = some (.header t n) → r.stack.top ≤ d

/-- From an address on, headers were there before. -/
def HeadersAbove (a : Nat) (r r' : Running) : Prop :=
  ∀ ⦃d k : Nat⦄ ⦃t : TypeId⦄, a ≤ d → r'.stack.slots[d]? = some (.header t k) →
    r.stack.slots[d]? = some (.header t k)

theorem HeadersAbove.refl (a : Nat) (r : Running) : HeadersAbove a r r := fun _ _ _ _ h ↦ h

theorem HeadersAbove.mono {a b : Nat} {r r' : Running} (h : HeadersAbove a r r') (hab : a ≤ b) :
    HeadersAbove b r r' := fun _ _ _ hd ↦ h (hab.trans hd)

theorem HeadersAbove.trans {a : Nat} {r r' r'' : Running} (h : HeadersAbove a r r')
    (h' : HeadersAbove a r' r'') : HeadersAbove a r r'' :=
  fun _ _ _ hd hheader ↦ h hd (h' hd hheader)

/-- Headers beyond everything that may be given up were there before. -/
def HeadersFrom (r r' : Running) : Prop :=
  ∀ n, r.stack.base ≤ n → r.stack.low ≤ n → HeadersAbove n r r'

theorem HeadersFrom.refl (r : Running) : HeadersFrom r r := fun n _ _ ↦ .refl n r

theorem HeadersFrom.trans {r r' r'' : Running} (h : HeadersFrom r r') (hkept : Kept r r')
    (h' : HeadersFrom r' r'') : HeadersFrom r r'' :=
  fun n hbase hlow ↦ (h n hbase hlow).trans (h' n (hkept.base ▸ hbase) (hkept.low_le n hbase hlow))

theorem Slot.eq_header {s : Slot} (h : s.isHeader = true) : ∃ t n, s = .header t n := by
  cases s with
  | header t n => exact ⟨t, n, rfl⟩
  | _ => cases h

namespace Running.Blocky

variable {r r' : Running}

/-- Headers that are gone do no harm. -/
theorem of_subset (h : r.Blocky) (hdomain : r.domain.Extends r'.domain)
    (hfits : r'.stack.low ≤ r'.stack.slots.size) (hlow : r'.stack.low = r.stack.low)
    (hsub : ∀ d t n, r'.stack.slots[d]? = some (.header t n) →
      r.stack.slots[d]? = some (.header t n) ∧ r'.stack.top ≤ d) : r'.Blocky where
  fits := hfits
  count hd := hdomain.fieldCount? (h.count (hsub _ _ _ hd).1)
  room hd := h.room (hsub _ _ _ hd).1
  inner := by
    intro d n a t s hd hlow ha hs
    refine Bool.eq_false_iff.mpr fun hheader ↦ ?_
    obtain ⟨t', n', rfl⟩ := Slot.eq_header hheader
    exact absurd (h.inner (hsub _ _ _ hd).1 hlow ha (hsub _ _ _ hs).1) nofun
  above hd hle := hlow ▸ h.above (hsub _ _ _ hd).1 (hlow ▸ hle)
  operands hd := (hsub _ _ _ hd).2

/-- A type has one number of fields. -/
theorem sizes_eq {v : View} (h : v.run.Blocky) {d n k : Nat} {t : TypeId}
    (hd : v.slot? d = some (.header t n)) (hk : v.Sizes t k) : k = n := by
  have hn := h.count hd
  rcases hk with ⟨d', hd'⟩ | hk
  · exact Option.some.inj ((h.count hd').symm.trans hn)
  · exact Option.some.inj (hk.symm.trans hn)

theorem field_not_header (h : r.Blocky) {d n i : Nat} {t : TypeId} {s : Slot}
    (hd : r.stack.slots[d]? = some (.header t n)) (hi : i < n)
    (hs : r.stack.slots[d - 1 - i]? = some s) : s.isHeader = false := by
  have hroom := h.room hd
  exact h.inner hd (by omega) (by omega) hs

end Running.Blocky

namespace View

/-- The headers are in order, and the fields that the code knows are no headers. -/
structure Solid (v : View) : Prop where
  blocky : v.run.Blocky
  cells : ∀ a ∈ v.cells, ∀ s, v.slot? a = some s → s.isHeader = false

theorem Solid.of_empty {v : View} (h : v.run.Blocky) (hcells : v.cells = ∅) : v.Solid := by
  refine ⟨h, fun a ha ↦ ?_⟩
  rw [hcells] at ha
  exact ha.elim

end View

/-- What a call keeps, the headers included. -/
structure KeptBlocks (r r' : Running) : Prop extends Kept r r' where
  blocky : r.Blocky → r'.Blocky
  headers : r.Blocky → HeadersFrom r r'

theorem KeptBlocks.refl (r : Running) : KeptBlocks r r := ⟨.refl r, id, fun _ ↦ .refl r⟩

theorem KeptBlocks.trans {r r' r'' : Running} (h : KeptBlocks r r') (h' : KeptBlocks r' r'') :
    KeptBlocks r r'' :=
  ⟨h.toKept.trans h'.toKept, fun hr ↦ h'.blocky (h.blocky hr),
    fun hr ↦ (h.headers hr).trans h.toKept (h'.headers (h.blocky hr))⟩

/-- Code outside of the scope, host code and methods, keeps the headers in order. -/
structure Scope.Lawful (S : Scope) : Prop where
  host {s : Slot} : S.host s → s.isHeader = false
  call {id : MethodId} {a : Nat} {v v' : View} : S.call id a v v' → KeptBlocks v.run v'.run

variable {S : Scope} {v v' : View}

theorem View.Storable.not_header {s : Slot} (h : v.Storable s) : s.isHeader = false := by
  cases s with
  | header t n => exact h.elim
  | _ => rfl

/-- Changes that make no header. -/
theorem solid_of_subset {st : Stack} {known : Set Nat} {own : Option Nat} {pending : List Nat}
    {fresh : Prop} (hv : v.Solid) (hlow : st.low = v.stack.low)
    (hsize : st.slots.size = v.stack.slots.size)
    (hsub : ∀ d t n, st.slots[d]? = some (.header t n) →
      v.stack.slots[d]? = some (.header t n) ∧ st.top ≤ d) :
    View.Solid { v.withStack st with known, own, pending, fresh } ∧
      HeadersAbove 0 v.run (v.withStack st).run := by
  have hfits : st.low ≤ st.slots.size := by
    rw [hlow, hsize]
    exact hv.blocky.fits
  refine ⟨⟨hv.blocky.of_subset (.refl _) hfits hlow hsub, fun a ha s hs ↦ ?_⟩, ?_⟩
  · refine Bool.eq_false_iff.mpr fun hheader ↦ ?_
    obtain ⟨t, n, rfl⟩ := Slot.eq_header hheader
    exact absurd (hv.cells a ha _ (hsub a t n hs).1) nofun
  · exact fun d k t _ hd ↦ (hsub d t k hd).1

/-- After a slot that is no header was written, a header is one of before. -/
theorem header_of_setSlot {slots : Array Slot} {a d n : Nat} {s : Slot} {t : TypeId}
    (hs : s.isHeader = false) (hd : (slots.setIfInBounds a s)[d]? = some (.header t n)) :
    slots[d]? = some (.header t n) ∧ (a < slots.size → d ≠ a) := by
  rw [Array.getElem?_setIfInBounds] at hd
  by_cases had : a = d
  · subst had
    by_cases ha : a < slots.size
    · rw [if_pos rfl, if_pos ha] at hd
      cases hd
      cases hs
    · rw [if_pos rfl, if_neg ha] at hd
      cases hd
  · rw [if_neg had] at hd
    exact ⟨hd, fun _ ↦ Ne.symm had⟩

/-- A slot that is no header is written. -/
theorem solid_write {a : Nat} {s : Slot} {st : Stack} {own : Option Nat} {pending : List Nat}
    {fresh : Prop} (hs : s.isHeader = false) (h : Stack.setSlot a s v.stack = .ok () st)
    (hv : v.Solid) : View.Solid { v.withStack st with own, pending, fresh } ∧
      HeadersAbove 0 v.run (v.withStack st).run := by
  obtain ⟨-, rfl⟩ := Stack.setSlot_ok h
  refine solid_of_subset hv rfl Array.size_setIfInBounds fun d t n hd ↦ ?_
  have hold := (header_of_setSlot hs hd).1
  exact ⟨hold, hv.blocky.operands hold⟩

/-- Quiet edits bring no header. -/
theorem Quiet.solid (hS : S.Lawful) (h : Quiet S v v') (hv : v.Solid) :
    v'.Solid ∧ HeadersAbove 0 v.run v'.run := by
  cases h with
  | domain hd =>
    refine ⟨⟨hv.blocky.of_subset hd hv.blocky.fits rfl fun d t n h ↦ ?_, hv.cells⟩, .refl _ _⟩
    exact ⟨h, hv.blocky.operands h⟩
  | follow ha hs hb => exact ⟨⟨hv.blocky, hv.cells⟩, .refl _ _⟩
  | cell hd hs hk hi =>
    refine ⟨⟨hv.blocky, fun a ha s' hs' ↦ ?_⟩, .refl _ _⟩
    rcases ha with rfl | ha
    · obtain rfl := hv.blocky.sizes_eq hs hk
      exact hv.blocky.field_not_header hs hi hs'
    · exact hv.cells a ha s' hs'
  | entry x =>
    refine ⟨⟨hv.blocky.of_subset (.refl _) hv.blocky.fits rfl fun d t n h ↦ ?_, hv.cells⟩,
      .refl _ _⟩
    exact ⟨h, hv.blocky.operands h⟩
  | setEntry h =>
    obtain ⟨-, rfl⟩ := Stack.setEntry_ok h
    refine ⟨⟨hv.blocky.of_subset (.refl _) hv.blocky.fits rfl fun d t n h ↦ ?_, hv.cells⟩,
      .refl _ _⟩
    exact ⟨h, hv.blocky.operands h⟩
  | write ha hs hsimple h => exact solid_write hs.not_header h hv
  | host ha hc hs h => exact solid_write (hS.host hs) h hv
  | share ha hac hb hbc hs hobject hblock hfresh h => exact solid_write (hv.cells _ hac _ hs) h hv

/-- After an allocation a header is the new one, or an old one outside of the new block. -/
theorem header_of_withBlock {r : Running} (hfits : r.stack.low ≤ r.stack.slots.size) {n : Nat}
    (hroom : n + 1 ≤ r.stack.low) {t t' : TypeId} {d k : Nat}
    (hd : (Stack.withBlock (r.stack.low - 1) n t r.stack.slots)[d]? = some (.header t' k)) :
    d = r.stack.low - 1 ∧ t' = t ∧ k = n ∨
      (d < r.stack.low - 1 - n ∨ r.stack.low ≤ d) ∧ r.stack.slots[d]? = some (.header t' k) := by
  rw [Stack.getElem?_withBlock t (by omega) (by omega)] at hd
  split at hd
  · cases hd
    exact Or.inl ⟨‹_›, rfl, rfl⟩
  · split at hd
    · cases hd
    · exact Or.inr ⟨by omega, hd⟩

/-- A new block is in order, and the others stay so. -/
theorem Running.Blocky.alloc {r : Running} (h : r.Blocky) {t : TypeId} {n d : Nat} {st : Stack}
    (hn : r.domain.fieldCount? t = some n) (halloc : Stack.allocBlock t n r.stack = .ok d st) :
    Running.Blocky { r with interpreter := { r.interpreter with stack := st } } := by
  obtain ⟨hroom, rfl, rfl⟩ := Stack.allocBlock_ok halloc
  have hfits := h.fits
  have hheader {d k : Nat} {t' : TypeId}
      (hd : (Stack.withBlock (r.stack.low - 1) n t r.stack.slots)[d]? = some (.header t' k)) :=
    header_of_withBlock hfits (by omega) hd
  exact
    { fits := by
        change r.stack.low - 1 - n ≤ (Stack.withBlock _ _ _ _).size
        rw [Stack.size_withBlock]
        omega
      count := fun hd ↦ by
        rcases hheader hd with ⟨-, rfl, rfl⟩ | ⟨-, hd⟩
        · exact hn
        · exact h.count hd
      room := fun hd ↦ by
        rcases hheader hd with ⟨rfl, rfl, rfl⟩ | ⟨-, hd⟩
        · omega
        · exact h.room hd
      inner := fun {d k a t' s} hd hlow ha hs ↦ by
        refine Bool.eq_false_iff.mpr fun hs' ↦ ?_
        obtain ⟨t'', k', rfl⟩ := Slot.eq_header hs'
        rcases hheader hd with ⟨rfl, rfl, rfl⟩ | ⟨hout, hd⟩
        · rcases hheader hs with ⟨rfl, -, -⟩ | ⟨hout, -⟩ <;> omega
        · rcases hheader hs with ⟨rfl, -, -⟩ | ⟨-, hs⟩
          · have habove := h.above hd
            omega
          · exact absurd (h.inner hd hlow ha hs) nofun
      above := fun {d k t'} hd hle ↦ by
        change r.stack.low - 1 - n ≤ d at hle
        change r.stack.low - 1 - n ≤ d - k
        rcases hheader hd with ⟨rfl, rfl, rfl⟩ | ⟨hout, hd⟩
        · exact Nat.le_refl _
        · have habove := h.above hd
          omega
      operands := fun {d k t'} hd ↦ by
        change r.stack.top ≤ d
        rcases hheader hd with ⟨rfl, rfl, rfl⟩ | ⟨-, hd⟩
        · omega
        · exact h.operands hd }

/-- A header that is new belongs to a new block, and has its fields below it. -/
theorem Build.solid (hS : S.Lawful) (h : Build S v v') (hv : v.Solid) :
    v'.Solid ∧ HeadersAbove v.stack.low v.run v'.run := by
  cases h with
  | quiet h => exact (h.solid hS hv).imp_right fun h ↦ h.mono (Nat.zero_le _)
  | nest hp hlow hea had ha hc h =>
    exact (solid_write rfl h hv).imp_right fun h ↦ h.mono (Nat.zero_le _)
  | @alloc t n d st hn h =>
    have hblocky := hv.blocky.alloc hn h
    obtain ⟨hroom, rfl, rfl⟩ := Stack.allocBlock_ok h
    have hheader {d k : Nat} {t' : TypeId}
        (hd : (Stack.withBlock (v.stack.low - 1) n t v.stack.slots)[d]? = some (.header t' k)) :=
      header_of_withBlock (r := v.run) hv.blocky.fits
        (show n + 1 ≤ v.stack.low by omega) hd
    refine ⟨⟨hblocky, fun a ha s hs ↦ ?_⟩, fun d k t' hd hnew ↦ ?_⟩
    · refine Bool.eq_false_iff.mpr fun hs' ↦ ?_
      obtain ⟨t', k, rfl⟩ := Slot.eq_header hs'
      rcases hheader hs with ⟨rfl, -, -⟩ | ⟨hout, hs⟩
      · rcases ha with ⟨-, ha⟩ | ⟨-, ha⟩
        · change v.stack.low ≤ v.stack.low - 1 at ha
          omega
        · exact absurd ha (Nat.lt_irrefl _)
      · rcases ha with ⟨ha, -⟩ | ⟨ha, ha'⟩
        · exact absurd (hv.cells a ha _ hs) nofun
        · change v.stack.low - 1 - n ≤ a at ha
          change a < v.stack.low - 1 at ha'
          change a < v.stack.low - 1 - n ∨ v.stack.low ≤ a at hout
          omega
    · rcases hheader hnew with ⟨rfl, -, -⟩ | ⟨-, hold⟩
      · change v.stack.low ≤ v.stack.low - 1 at hd
        omega
      · exact hold

/-- Blocks above one that is given up lie above it. -/
theorem Running.Blocky.popped {r : Running} (h : r.Blocky) {st : Stack}
    (hst : Stack.Popped r.stack st) :
    Running.Blocky { r with interpreter := { r.interpreter with stack := st } } := by
  have hslots := hst.slots
  have hfits : st.low ≤ st.slots.size ∧ ∀ {d n : Nat} {t : TypeId},
      r.stack.slots[d]? = some (.header t n) → st.low ≤ d → st.low ≤ d - n := by
    cases hst with
    | kept hgave =>
      rw [hgave.low, hgave.slots]
      exact ⟨h.fits, h.above⟩
    | @freed e hslot hbase hlow hgave =>
      obtain ⟨t, n, he⟩ := Stack.header_of_blockLow hlow
      rw [hgave.low, hgave.slots]
      refine ⟨(Array.getElem?_eq_some_iff.mp he).1, fun {d k t'} hd hle ↦ ?_⟩
      change e + 1 ≤ d at hle
      change e + 1 ≤ d - k
      refine Nat.lt_of_not_le fun hek ↦ ?_
      exact absurd (h.inner hd hek hle he) nofun
  exact
    { fits := hfits.1
      count := fun hd ↦ h.count (hslots ▸ hd)
      room := fun hd ↦ h.room (hslots ▸ hd)
      inner := fun hd hlow ha hs ↦ h.inner (hslots ▸ hd) hlow ha (hslots ▸ hs)
      above := fun hd ↦ hfits.2 (hslots ▸ hd)
      operands := fun hd ↦ Nat.le_trans (hst.top.le.trans (Nat.sub_le _ _))
        (h.operands (hslots ▸ hd)) }

/-- Edits of all kinds bring headers to new blocks only. -/
theorem Edit.solid (hS : S.Lawful) (h : Edit S v v') (hv : v.Solid) :
    v'.Solid ∧ HeadersFrom v.run v'.run := by
  have hfits : v.stack.low ≤ v.stack.slots.size := hv.blocky.fits
  have hfrom {w : View} (h : w.Solid ∧ HeadersAbove 0 v.run w.run) :
      w.Solid ∧ HeadersFrom v.run w.run :=
    h.imp_right fun h n _ _ ↦ h.mono (Nat.zero_le n)
  cases h with
  | build h => exact (h.solid hS hv).imp_right fun h n _ hn ↦ h.mono hn
  | drop => exact ⟨⟨hv.blocky, hv.cells⟩, .refl _⟩
  | storeRef ha hs href h => exact hfrom (solid_write hs.not_header h hv)
  | retag htop hbottom hobject hs href h =>
    refine hfrom (solid_write ?_ h hv)
    cases hs' : Slot.isHeader _ with
    | false => rfl
    | true =>
      obtain ⟨t, n, rfl⟩ := Slot.eq_header hs'
      cases href
  | @push s st hs h =>
    obtain ⟨hroom, rfl⟩ := Stack.push_ok h
    refine hfrom (solid_of_subset hv rfl Array.size_setIfInBounds fun d t n hd ↦ ?_)
    obtain ⟨hold, hne⟩ := header_of_setSlot hs.not_header hd
    have htop : v.stack.top ≤ d := hv.blocky.operands hold
    exact ⟨hold, Nat.lt_of_le_of_ne htop (Ne.symm (hne (by omega)))⟩
  | @insert a s st hbottom hs h =>
    obtain ⟨ha, hroom, rfl⟩ := Stack.insert_ok h
    refine hfrom (solid_of_subset hv rfl (Stack.size_shifted _ _ _ _) fun d t n hd ↦ ?_)
    -- Operands that move are no headers, so a header lies after all of them.
    have hoperands {x : Nat} (hx : v.stack.slots[x]? = some (.header t n)) : v.stack.top ≤ x :=
      hv.blocky.operands hx
    rw [Stack.getElem?_shifted s (by omega) ha] at hd
    split at hd
    · cases hd
      exact absurd hs.not_header nofun
    · split at hd
      · have htop := hoperands hd
        omega
      · have htop := hoperands hd
        exact ⟨hd, by
          change v.stack.top + 1 ≤ d
          omega⟩
  | pop hbottom =>
    have hpopped := Stack.popped v.stack
    have hslots : (endState Stack.pop v.stack).slots = v.stack.slots := hpopped.slots
    refine hfrom ⟨⟨hv.blocky.popped hpopped, fun a ha s hs ↦ hv.cells a ha s ?_⟩, ?_⟩
    · exact (congrArg (·[a]?) hslots).symm.trans hs
    · exact fun d k t _ hd ↦ (congrArg (·[d]?) hslots).symm.trans hd
  | call hbottom h hdomain hknown htop hover =>
    have hkept := hS.call h
    exact ⟨⟨hkept.blocky hv.blocky, nofun⟩, hkept.headers hv.blocky⟩

theorem Edits.keptBlocks (hS : S.Lawful) (h : Edits S v v') (hcells : v.cells = ∅) :
    KeptBlocks v.run v'.run := by
  have hsolid (hv : v.run.Blocky) : v'.Solid ∧ HeadersFrom v.run v'.run := by
    induction h with
    | refl => exact ⟨.of_empty hv hcells, .refl _⟩
    | tail hR h ih =>
      obtain ⟨hsolid, hfrom⟩ := h.solid hS ih.1
      exact ⟨hsolid, ih.2.trans (Edits.kept (fun _ _ _ _ h ↦ (hS.call h).toKept) hR) hfrom⟩
  exact ⟨Edits.kept (fun _ _ _ _ h ↦ (hS.call h).toKept) h, fun hv ↦ (hsolid hv).1.blocky,
    fun hv ↦ (hsolid hv).2⟩

/-- While a frame is opened, headers come only from new blocks. -/
theorem Grows.solid (hS : S.Lawful) (h : Grows S v v') (hv : v.Solid) :
    v'.Solid ∧ HeadersAbove v.stack.low v.run v'.run := by
  induction h with
  | refl => exact ⟨hv, .refl _ _⟩
  | @tail w w' hR h ih =>
    have hlow : w.stack.low ≤ v.stack.low := (Grows.grown hR).low
    cases h with
    | build h =>
      obtain ⟨hsolid, habove⟩ := h.solid hS ih.1
      exact ⟨hsolid, ih.2.trans (habove.mono hlow)⟩
    | push hs href h =>
      obtain ⟨hsolid, -⟩ := (Edit.push hs h).solid hS ih.1
      refine ⟨hsolid, ih.2.trans fun d k t _ hd ↦ ?_⟩
      obtain ⟨-, rfl⟩ := Stack.push_ok h
      exact (header_of_setSlot hs.not_header hd).1

/-! ### Headers through a call -/

variable {entry r : Running}

/-- From the start of a call until its frame is left: the caller's blocks have the headers that the
call found. -/
structure Begun (entry r : Running) : Prop extends Within entry r where
  blocky : r.Blocky
  old : HeadersAbove entry.stack.low entry r

/-- The same while the body runs. -/
structure Placed (entry r : Running) : Prop extends Inside entry r where
  blocky : r.Blocky
  old : HeadersAbove entry.stack.low entry r

theorem Placed.begun (h : Placed entry r) : Begun entry r := ⟨h.toWithin, h.blocky, h.old⟩

theorem Running.Blocky.entered (h : r.Blocky) (id : MethodId) : (r.entered id).Blocky :=
  ⟨h.fits, h.count, h.room, h.inner, h.above, h.operands⟩

theorem Begun.of_grows (hS : S.Lawful) (hentry : entry.Blocky) {id : MethodId}
    (hv : v.run = entry.entered id) (hcells : v.cells = ∅) (hR : Grows S v v') :
    Begun entry v'.run := by
  have hsolid : v.Solid := .of_empty (hv ▸ hentry.entered id) hcells
  obtain ⟨hsolid', habove⟩ := Grows.solid hS hR hsolid
  refine ⟨Grows.within hR hv, hsolid'.blocky, ?_⟩
  obtain ⟨r, known, cells, own, pending, fresh⟩ := v
  subst hv
  exact habove

theorem Begun.sealed (h : Begun entry r) : Placed entry r.sealed :=
  ⟨h.toWithin.sealed, ⟨h.blocky.fits, h.blocky.count, h.blocky.room, h.blocky.inner, h.blocky.above,
    h.blocky.operands⟩, h.old⟩

theorem Placed.kept {r' : Running} (h : Placed entry r) (hr : KeptBlocks r r') : Placed entry r' :=
  ⟨h.toInside.kept hr.toKept, hr.blocky h.blocky,
    h.old.trans (hr.headers h.blocky _ h.base h.low)⟩

/-- Only stack and domain matter. -/
theorem Running.Blocky.congr {r r' : Running} (h : r.Blocky) (hstack : r'.stack = r.stack)
    (hdomain : r'.domain = r.domain) : r'.Blocky := by
  refine h.of_subset (hdomain ▸ .refl _) (hstack ▸ h.fits) (hstack ▸ rfl) fun d t n hd ↦ ?_
  rw [hstack] at hd ⊢
  exact ⟨hd, h.operands hd⟩

theorem Placed.noting (h : Placed entry r) (addr : Nat) : Placed entry (r.noting addr) := by
  refine ⟨h.toInside.noting addr, h.blocky.congr (r.noting_stack addr) (r.noting_domain addr),
    fun d k t hd hheader ↦ ?_⟩
  rw [Running.noting_stack] at hheader
  exact h.old hd hheader

/-- When a frame is left, the blocks of the caller are the lowest ones again. -/
theorem Begun.left (h : Begun entry r) (hentry : entry.Blocky) :
    KeptBlocks entry (r.left entry) := by
  have hlow : (r.left entry).stack.low = entry.stack.low := by
    change min (max entry.stack.low r.stack.low) r.stack.slots.size = _
    rw [Nat.max_eq_left h.low, h.size, Nat.min_eq_left hentry.fits]
  refine ⟨h.toWithin.left.toKept, fun _ ↦ ?_, fun _ n _ hn ↦ ?_⟩
  · exact
      { fits := by
          rw [hlow]
          exact hentry.fits.trans h.size.ge
        count := h.blocky.count
        room := h.blocky.room
        inner := h.blocky.inner
        above := fun hd hle ↦ by
          rw [hlow] at hle ⊢
          exact hentry.above (h.old hle hd) hle
        operands := fun hd ↦ (Nat.min_le_right _ _).trans (h.blocky.operands hd) }
  · exact fun d k t hd hheader ↦ h.old (hn.trans hd) hheader

namespace Engine

variable {c : Callees}

/-- Popping the arguments is an edit of code that may take operands from them on. -/
theorem ends_close {a : Nat} (known : Set Nat) (hS : S.Lawful) (hbottom : S.bottom ≤ a)
    (hentry : entry.Blocky) (h : Begun entry r) :
    Ends (popArguments a) (r.left entry)
      (fun _ r' ↦ ∃ w, w.run = r' ∧ Edits S (.knowing (r.left entry) known) w ∧
        r'.stack.top = a ∧ KeptBlocks entry r' ∧ r'.stack.top ≤ entry.stack.top)
      fun r' ↦ ∃ w, w.run = r' ∧ Edits S (.knowing (r.left entry) known) w ∧
        KeptBlocks entry r' ∧ r'.stack.top ≤ entry.stack.top := by
  have hspec : Spec (Edit S) (popArguments a) (.knowing (r.left entry) known)
      fun _ w ↦ w.stack.top = a := (Spec.popTo hbottom).imp fun _ _ _ h ↦ h.1
  have hkept {w : View} (hR : Edits S (.knowing (r.left entry) known) w) :
      KeptBlocks entry w.run :=
    (h.left hentry).trans (Edits.keptBlocks hS hR rfl)
  refine ((ends_popArguments a h.toWithin.left).and (ends_of_spec hspec)).imp (fun _ r' h ↦ ?_)
    fun r' h ↦ ?_
  · obtain ⟨hleft, w, rfl, hR, htop⟩ := h
    exact ⟨w, rfl, hR, htop, hkept hR, hleft.1.top⟩
  · obtain ⟨hleft, w, rfl, hR⟩ := h
    exact ⟨w, rfl, hR, hkept hR, hleft.1.top⟩

/-! ### Runs -/

/-- Code that may use every address, with host code that writes no headers. -/
def headerScope : Scope :=
  ⟨0, Set.univ, fun s ↦ s.isHeader = false, fun _ _ v v' ↦ KeptBlocks v.run v'.run⟩

theorem lawful_headerScope : headerScope.Lawful := ⟨id, id⟩

/-- Redirections write no headers. -/
def WritesNoHeaders (r : Running) : Prop := r.domain.bindings.Writes fun s ↦ s.isHeader = false

/-- What host code writes is fixed by the bindings, which stay. -/
theorem WritesNoHeaders.extends {r r' : Running} (h : WritesNoHeaders r)
    (hd : r.domain.Extends r'.domain) : WritesNoHeaders r' := by
  unfold WritesNoHeaders
  rw [hd.bindings]
  exact h

/-- Headers stay in order through every run, whatever its bytecode is. -/
def headerInvariant : CallInvariant (fun _ ↦ True) fun m ↦ m.before.Blocky ∧ m.after.Blocky where
  pre _ r := r.Blocky ∧ WritesNoHeaders r
  body entry _ f r := Ordered f ∧ Placed entry r
  returned entry _ v r := Begun entry r ∧ (View.start r).Returns v
  failed entry _ r := Begun entry r
  good a r v r' := r'.stack.top = a ∧ KeptBlocks r r' ∧ r'.stack.top ≤ r.stack.top ∧
    (View.start r').Returns v
  bad _ r r' := KeptBlocks r r' ∧ r'.stack.top ≤ r.stack.top
  refuse _ := ⟨.refl _, Nat.le_refl _⟩
  fail h := h.2.begun
  opens {fuel a id code home r} hpre _ := by
    have hbegun {w : View} (hR : Grows headerScope (View.start (r.entered id)) w) :
        Begun r w.run := .of_grows lawful_headerScope hpre.1 rfl rfl hR
    refine (ends_opening (S := headerScope) (v := View.start (r.entered id)) fuel id code home rfl
      (fun _ _ _ _ ↦ ⟨trivial, trivial⟩) rfl).imp (fun f r' h ↦ ?_) fun r' h ↦ ?_
    · obtain ⟨-, hord, w, hR, -, rfl⟩ := h
      exact ⟨hord, (hbegun hR).sealed⟩
    · obtain ⟨w, hR, rfl⟩ := h
      exact hbegun hR
  step {c} hserve hrun {entry r a fuel addr f i} hpre hbody _ := by
    have hplaced := hbody.2.noting addr
    have hmeet : c.Meet headerScope (View.start (r.noting addr)) := by
      refine meet_of_ends hserve ?_ fun id a w hw ha ↦ ?_
      · exact hplaced.domain.bindings ▸ hpre.2
      · have hw' := hplaced.kept (Edits.keptBlocks lawful_headerScope hw rfl)
        have hnone : WritesNoHeaders w.run := hpre.2.extends hw'.domain
        refine (hrun id a w.run ⟨hw'.blocky, hnone⟩).imp (fun v r' h ↦ ?_) fun r' h ↦ ?_
        · exact ⟨h.1, Set.univ, Set.subset_univ _, h.2.1, h.2.1.domain, h.2.2.2⟩
        · exact ⟨h.2, Nat.zero_le _, Set.univ, Set.subset_univ _, h.1, h.1.domain⟩
    have hdoes := does_advance hmeet fuel addr i (f := f)
      ⟨Nat.zero_le _, hbody.1.1, hbody.1.2, fun _ _ _ ↦ ⟨trivial, trivial⟩⟩
      ⟨Nat.zero_le _, fun _ _ _ ↦ trivial, rfl, trivial⟩
    have hkeeps {w : View} (hw : Edits headerScope (View.start (r.noting addr)) w) :
        Placed entry w.run := hplaced.kept (Edits.keptBlocks lawful_headerScope hw rfl)
    refine ⟨⟨hplaced.blocky, ?_⟩, fun run hrun' ↦ hdoes.only run fun id a s ⟨w, hw, hR, _⟩ ↦ ?_,
      (ends_of_spec hdoes.spec).imp (fun ctl r' h ↦ ?_) fun r' h ↦ ?_⟩
    · obtain ⟨w, hend, hw⟩ := hdoes.spec.ends
      have hafter := (hkeeps hw).blocky
      rw [hend] at hafter
      exact hafter
    · subst hw
      have hw' := hkeeps hR
      have hnone : WritesNoHeaders w.run := hpre.2.extends hw'.domain
      exact hrun' id a w.run ⟨hw'.blocky, hnone⟩
    · obtain ⟨w, rfl, hw, hcontinues⟩ := h
      cases ctl with
      | «at» next f' => exact ⟨hbody.1.core hcontinues, hkeeps hw⟩
      | done v =>
        refine ⟨(hkeeps hw).begun, fun carry hcarry ↦ ?_⟩
        exact ⟨(hcontinues carry hcarry).1.mono (Set.subset_univ _), (hcontinues carry hcarry).2⟩
    · obtain ⟨w, rfl, hw⟩ := h
      exact (hkeeps hw).begun
  returns {a r r' v} hpre h := by
    refine (ends_close Set.univ lawful_headerScope (Nat.zero_le a) hpre.1 h.1).imp
      (fun _ r'' h' ↦ ?_) fun r'' h' ↦ ?_
    · obtain ⟨w, rfl, -, htop, hkept, hle⟩ := h'
      refine ⟨htop, hkept, hle, fun carry hcarry ↦ ?_⟩
      exact ⟨(h.2 carry hcarry).1.mono (Set.subset_univ _), (h.2 carry hcarry).2⟩
    · obtain ⟨w, rfl, -, hkept, hle⟩ := h'
      exact ⟨hkept, hle⟩
  fails {a r r'} hpre h := by
    refine (ends_close Set.univ lawful_headerScope (Nat.zero_le a) hpre.1 h).endState
      (O := fun r'' ↦ KeptBlocks r r'' ∧ r''.stack.top ≤ r.stack.top) (fun _ r'' h' ↦ ?_)
      fun r'' h' ↦ ?_
    · obtain ⟨w, rfl, -, -, hkept, hle⟩ := h'
      exact ⟨hkept, hle⟩
    · obtain ⟨w, rfl, -, hkept, hle⟩ := h'
      exact ⟨hkept, hle⟩

/-- A new interpreter has no headers. -/
theorem blocky_fresh (d : Domain) (id capacity : Nat) :
    Running.Blocky ⟨d, .fresh id capacity⟩ := by
  have hnull {a : Nat} {s : Slot}
      (h : (Running.mk d (.fresh id capacity)).stack.slots[a]? = some s) : s = .null := by
    change (Array.replicate capacity Slot.null)[a]? = some s at h
    rw [Array.getElem?_replicate] at h
    split at h
    · exact (Option.some.inj h).symm
    · cases h
  have hnone {a n : Nat} {t : TypeId} {P : Prop}
      (h : (Running.mk d (.fresh id capacity)).stack.slots[a]? = some (.header t n)) : P := by
    cases hnull h
  exact
    { fits := (Array.size_replicate ..).ge
      count := hnone
      room := hnone
      inner := fun hd _ _ _ ↦ hnone hd
      above := fun hd _ ↦ hnone hd
      operands := hnone }

end Engine

end ManagedMachine
