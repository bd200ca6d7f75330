import ManagedMachine.Proofs.StackSpecs

/-!
Inline structs as edits. Making a block takes allocations, and a block waits in `View.pending` until
a slot points at it. Everything that copies or overwrites blocks is quiet: it writes to fields of
blocks that the code knows, and a field that takes an object over gets an entry of its own.

The functions on blocks call one another by fuel, and the specification of each is proved by
recursion on it, for every fuel: `spec_allocInline` for making, `spec_copyBlock` for copying and
`spec_writeBoxed` for writing a boxed struct. What the callers need is said of the two functions
that they use, `spec_pushValue` and the store of a carry.
-/

set_option autoImplicit false
set_option relaxedAutoImplicit false

namespace ManagedMachine

open Engine

/-- The number of slots that a struct takes. -/
def Inline.count : Inline → Nat
  | .struct layout => layout.instance_.length
  | .bound binder => binder.fields.length

theorem Engine.inRegistry_ok {α : Type} {x : RegistryM α} {r r' : Running} {a : α}
    (h : Running.onDomain (Domain.inRegistry x) r = .ok a r') :
    ∃ registry, x r.domain.registry = .ok a registry ∧
      r' = { r with domain := { r.domain with registry } } := by
  simp only [Running.onDomain, Domain.inRegistry] at h
  cases hx : x r.domain.registry with
  | error e registry => simp only [hx, reduceCtorEq] at h
  | ok a registry =>
    simp only [hx] at h
    cases h
    exact ⟨registry, rfl, rfl⟩

/-- A kind that was found for a type counts the fields that the domain counts. -/
theorem Engine.fieldCount?_of_inlineKind {fuel : Nat} {t : TypeId} {r r' : Running} {k : Inline}
    (h : inlineKind fuel t r = .ok (some k) r') : r'.domain.fieldCount? t = some k.count := by
  unfold inlineKind at h
  obtain ⟨desc, r, hdesc, h⟩ := exists_of_bind h
  cases hdesc
  split at h
  · cases h
  · next hinline =>
    obtain ⟨binder, r, hask, h⟩ := exists_of_bind h
    cases hask
    dsimp only at h
    cases hbinder : r.domain.bindings.binder? (r.domain.registry.type t).name with
    | some binder =>
      simp only [hbinder] at h
      cases h
      simp only [Domain.fieldCount?, if_neg hinline, hbinder]
      rfl
    | none =>
      simp only [hbinder] at h
      split at h
      · next hinterpreted =>
        obtain ⟨l, r', hlayout, h⟩ := exists_of_bind h
        cases h
        obtain ⟨registry, hbuilt, rfl⟩ := inRegistry_ok hlayout
        have hextends : Registry.Extends _ registry := (Registry.grows_layout fuel t).ok hbuilt
        have hstruct : (r.domain.registry.type t).isStruct = true := by
          simp only [Bool.or_eq_true, not_or] at hinline
          simpa using hinline.1
        have htype := hextends.type_eq (Domain.lt_size_of_isStruct hstruct)
        simp only [Domain.fieldCount?, htype, if_neg hinline, hbinder, if_pos hinterpreted,
          Registry.layouts_of_layout hbuilt]
        rfl
      · cases h

namespace View

/-- The code may use the first `n` fields of the block with header `d`. -/
def Fields (v : View) (d n : Nat) : Prop := ∀ i < n, d - 1 - i ∈ v.known ∧ d - 1 - i ∈ v.cells

variable {v v' : View} {d n : Nat}

theorem Fields.level {w : View} (h : v.Fields d n) (hl : v.Level w) : w.Fields d n :=
  fun i hi ↦ ⟨hl.known (h i hi).1, hl.cells (h i hi).2⟩

theorem Fields.raised (h : v.Fields d n) (hr : v.Raised v') (hlow : v.stack.low + n ≤ d) :
    v'.Fields d n :=
  fun i hi ↦ ⟨hr.known (h i hi).1, hr.cells _ (h i hi).2 (by omega)⟩

theorem Fields.writable {S : Scope} (h : v.Fields d n) {i : Nat} (hi : i < n) :
    S.Writable v (d - 1 - i) :=
  ⟨(h i hi).1, Or.inr (Or.inl (h i hi).2)⟩

end View

namespace Spec

variable {α β : Type} {R : View → View → Prop} {S : Scope} {v : View} {x : RunM α}
variable {mid : α → View → Prop}

/-- An address that lies in a slot that the code may read becomes known. -/
theorem follow [Quieter S R] {a b : Nat} {s : Slot} (ha : a ∈ v.known) (hs : v.slot? a = some s)
    (hb : s.target? = some b) (h : Spec R x (v.learn b) mid) : Spec R x v mid :=
  h.after (.single (Quieter.quiet (.follow ha hs hb))) rfl

theorem exists_leads {a : Nat} {s : Slot} (ha : a ∈ v.known) (hs : v.slot? a = some s) :
    ∃ w, Quiets S v w ∧ w.run = v.run ∧ w.Leads s := by
  cases hb : s.target? with
  | none => exact ⟨v, .refl, rfl, fun b hb' ↦ by simp [hb] at hb'⟩
  | some b =>
    refine ⟨v.learn b, .single (.follow ha hs hb), rfl, fun c hc ↦ ?_⟩
    obtain rfl : b = c := by simpa [hb] using hc
    exact Or.inl rfl

/-- Code that has read a slot may follow it. -/
theorem leads [Quieter S R] {a : Nat} {s : Slot} (ha : a ∈ v.known) (hs : v.slot? a = some s)
    (h : ∀ w, v.Level w → w.Leads s → Spec R x w mid) : Spec R x v mid := by
  obtain ⟨w, hquiet, hrun, hleads⟩ := exists_leads (S := S) ha hs
  exact (h w hquiet.level hleads).after
    (Relation.ReflTransGen.mono (fun _ _ ↦ Quieter.quiet) _ _ hquiet) hrun

theorem exists_fields {d n m : Nat} {t : TypeId} (hd : d ∈ v.known)
    (hs : v.slot? d = some (.header t m)) (hk : v.Sizes t n) :
    (k : Nat) → k ≤ n → ∃ v', Quiets S v v' ∧ v'.run = v.run ∧ v'.Fields d k
  | 0, _ => ⟨v, .refl, rfl, fun _ hi ↦ absurd hi (Nat.not_lt_zero _)⟩
  | k + 1, hle => by
    obtain ⟨v', hquiet, hrun, hfields⟩ := exists_fields hd hs hk k (by omega)
    have hslot : v'.slot? d = some (.header t m) := by
      rw [← hs, View.slot?, View.stack, hrun]
      rfl
    have hsize : v'.Sizes t n := by
      simp only [View.Sizes, View.slot?, View.stack, View.domain, hrun]
      exact hk
    refine ⟨_,
      hquiet.tail (.cell (quiet_known hquiet hd) hslot hsize (Nat.lt_of_succ_le hle)), hrun,
        fun i hi ↦ ?_⟩
    rcases Nat.lt_succ_iff_lt_or_eq.mp hi with hi | rfl
    · exact ⟨Or.inr (hfields i hi).1, Or.inr (hfields i hi).2⟩
    · exact ⟨Or.inl rfl, Or.inl rfl⟩
where
  quiet_known {v v' : View} {d : Nat} (h : Quiets S v v') (hd : d ∈ v.known) : d ∈ v'.known :=
    h.level.known hd

/-- The fields of a known block become known. -/
theorem fields [Quieter S R] {d n m : Nat} {t : TypeId} (hd : d ∈ v.known)
    (hs : v.slot? d = some (.header t m)) (hk : v.Sizes t n)
    (h : ∀ v', v.Level v' → v'.run = v.run → v'.Fields d n → Spec R x v' mid) :
    Spec R x v mid := by
  obtain ⟨v', hquiet, hrun, hfields⟩ := exists_fields (S := S) hd hs hk n (Nat.le_refl n)
  exact (h v' hquiet.level hrun hfields).after
    (Relation.ReflTransGen.mono (fun _ _ ↦ Quieter.quiet) _ _ hquiet) hrun

end Spec

namespace Engine

variable {S : Scope} {v : View}

/-! ### Field slots -/

theorem spec_writeFields {d n : Nat} {slots : List Slot} (hf : v.Fields d n)
    (hlength : slots.length ≤ n) (hslots : ∀ s ∈ slots, s = .null ∨ s.isNumeric = true) :
    Spec (Quiet S) (writeFields d slots) v fun _ _ ↦ True := by
  refine (Spec.forM (I := fun v' ↦ v'.Fields d n) slots.zipIdx ?_ hf).trivially
  rintro ⟨s, i⟩ hmem v' - hf'
  have hs := hslots s (List.fst_mem_of_mem_zipIdx hmem)
  have hi : i < slots.length := List.snd_lt_of_mem_zipIdx hmem
  exact (Spec.setSlot (hf'.writable (Nat.lt_of_lt_of_le hi hlength))
    (View.storable_of_numeric v' hs) (Slot.isSimple_of_numeric hs)).imp
      fun _ _ hquiet _ ↦ hf'.level (Quiets.level hquiet)

theorem spec_resetBound {binder : StructBinder} {d : Nat} (t : TypeId)
    (hf : v.Fields d binder.fields.length) :
    Spec (Quiet S) (resetBound binder t d) v fun _ _ ↦ True := by
  unfold resetBound
  refine (spec_writeFields hf (by simp) ?_).quietly fun _ v' hlevel _ ↦ ?_
  · simp only [List.mem_map]
    rintro s ⟨p, -, rfl⟩
    exact Slot.zero_numeric p
  · refine Spec.look (looks_descriptor t) fun _ d' _ _ ↦ ?_
    split
    · refine Spec.ofExcept fun slots hwrite ↦ ?_
      exact spec_writeFields (View.Fields.level (w := v') hf hlevel) (binder.length_write hwrite).le
        (binder.primitive_write hwrite)
    · exact Spec.pure trivial

/-! ### Fresh locations -/

end Engine

namespace View

/-- A slot for a new location: a simple one, or one for the block that was made last. -/
inductive Made (v : View) (s : Slot) (v' : View) : Prop
  | simple (hs : s.isSimple = true) (hstorable : v'.Storable s) (hpending : v'.pending = v.pending)
  | block {e : Nat} (hs : s = .block e) (hlow : e < v.stack.low)
      (hpending : v'.pending = e :: v.pending)

theorem Made.storable {v v' : View} {s : Slot} (h : v.Made s v') (hv : v.pending = []) :
    v'.Storable s := by
  cases h with
  | simple hs hstorable hpending => exact hstorable
  | block hs hlow hpending =>
    rw [hv] at hpending
    exact hs ▸ hpending

theorem Made.isManagedRef {v v' : View} {s : Slot} (h : v.Made s v') : s.isManagedRef = false := by
  cases h with
  | simple hs hstorable hpending => cases s <;> simp_all [Slot.isSimple, Slot.isManagedRef]
  | block hs hlow hpending =>
    rw [hs]
    rfl

end View

namespace Engine

variable {S : Scope} {v : View}

theorem spec_allocBlock {t : TypeId} {n : Nat} (hn : v.domain.fieldCount? t = some n) :
    Spec (Build S) (Running.onStack (Stack.allocBlock t n)) v fun d v' ↦
      v'.pending = d :: v.pending ∧ d ∈ v'.known ∧ d < v.stack.low ∧ v'.stack.low + n = d ∧
        v'.Fields d n := by
  refine Spec.stackOp (fun d st h ↦ ?_) fun e st h ↦ ?_
  · refine ⟨_, .single (.alloc hn h), rfl, rfl, ?_⟩
    obtain ⟨hroom, rfl, rfl⟩ := Stack.allocBlock_ok h
    refine ⟨Or.inr ?_, by omega, ?_, fun i hi ↦ ⟨Or.inr ?_, Or.inr ?_⟩⟩
    all_goals simp only [Set.mem_ofPred_eq, View.stack_mk, View.withStack_run]
    all_goals omega
  · unfold Stack.allocBlock at h
    split at h <;> cases h
    exact ⟨v, .refl, rfl⟩

theorem spec_freshSlot {alloc : TypeId → RunM Nat}
    (halloc : ∀ t v, Spec (Build S) (alloc t) v fun d v' ↦
      v'.pending = d :: v.pending ∧ d ∈ v'.known ∧ d < v.stack.low) (fuel : Nat) (t : TypeId)
    (v : View) :
    Spec (Build S) (freshSlot alloc fuel t) v fun s v' ↦ v.Made s v' := by
  have hobject (x : Value) (v' : View) : v'.pending = v.pending →
      Spec (Build S) (do return .object (← Stack.pushEntry x)) v' fun s v'' ↦ v.Made s v'' := by
    intro hpending
    refine Spec.quietly (Spec.pushEntry x) fun i v'' hlevel hown ↦ Spec.pure ?_
    exact .simple rfl hown.1 (hlevel.pending.trans hpending)
  unfold freshSlot
  refine Spec.look (looks_descriptor t) fun desc d _ _ ↦ ?_
  split
  · next p _ =>
    have hp := Slot.zero_numeric p
    exact Spec.pure (.simple (Slot.isSimple_of_numeric hp) (View.storable_of_numeric _ hp) rfl)
  · refine Spec.look (looks_isInline fuel t) fun inline d _ _ ↦ ?_
    split
    · exact (halloc t _).bind fun e v' _ h ↦ Spec.pure (.block rfl h.2.2 h.1)
    · split
      · exact Spec.look (looks_onDomain (Domain.grows_defaultValue fuel t)) fun x d _ _ ↦
          hobject x _ rfl
      · exact hobject .null _ rfl

/-- A fresh slot becomes a field of the block that was begun before it. -/
theorem spec_setFresh {v' : View} {d n i : Nat} {rest : List Nat} {s : Slot} (h : v.Made s v')
    (hpending : v.pending = d :: rest) (hf : v'.Fields d n) (hi : i < n)
    (hbefore : v.stack.low + n ≤ d) (hlow : v'.stack.low + n ≤ d) :
    Spec (Build S) (Running.onStack (Stack.setSlot (d - 1 - i) s)) v' fun _ v'' ↦
      v''.pending = d :: rest := by
  cases h with
  | simple hs hstorable hkept =>
    exact (Spec.setSlot (hf.writable hi) hstorable hs).of_quiet fun _ _ hlevel _ ↦
      hlevel.pending.trans (hkept.trans hpending)
  | block hs hbelow hnew =>
    subst hs
    rw [hpending] at hnew
    refine Spec.stackOp (fun _ st hset ↦ ?_) fun e st hset ↦ ?_
    · refine ⟨_, .single (.nest hnew ?_ ?_ ?_ (hf i hi).1 (hf i hi).2 hset), rfl, rfl⟩ <;> omega
    · obtain rfl := Spec.setSlot_error hset
      exact ⟨v', .refl, rfl⟩

/-- A block is made together with the blocks of its fields. At the end only the block itself waits
for a slot that points at it. -/
theorem spec_allocInline : (fuel : Nat) → (t : TypeId) → (v : View) →
    Spec (Build S) (allocInline fuel t) v fun d v' ↦
      v'.pending = d :: v.pending ∧ d ∈ v'.known ∧ d < v.stack.low
  | 0, _, _ => Spec.throw _
  | fuel + 1, t, v => by
    unfold allocInline
    refine Spec.look (looks_inlineKind fuel t) fun kind dom _ hkind ↦ ?_
    cases kind with
    | none => exact Spec.look (looks_descriptor t) fun _ _ _ _ ↦ Spec.throw _
    | some kind =>
      have hcount := fieldCount?_of_inlineKind hkind
      cases kind with
      | bound binder =>
        refine (spec_allocBlock hcount).bind fun d v₁ _ h ↦ ?_
        obtain ⟨hpending, hknown, hbelow, -, hfields⟩ := h
        refine (spec_resetBound t hfields).quietly fun _ v₂ hlevel _ ↦ Spec.pure ?_
        exact ⟨hlevel.pending.trans hpending, hlevel.known hknown, hbelow⟩
      | struct l =>
        refine (spec_allocBlock hcount).bind fun d v₁ _ h ↦ ?_
        obtain ⟨hpending, hknown, hbelow, hlow, hfields⟩ := h
        refine Spec.bind (Spec.forM (I := fun v' ↦ v'.pending = d :: v.pending ∧ d ∈ v'.known ∧
          v'.stack.low + l.instance_.length ≤ d ∧ v'.Fields d l.instance_.length) _ ?_
            ⟨hpending, hknown, hlow.le, hfields⟩) fun _ v₂ _ h ↦ Spec.pure ⟨h.1, h.2.1, hbelow⟩
        rintro ⟨f, i⟩ hmem v₂ - ⟨hpending, hknown, hlow, hfields⟩
        have hi : i < l.instance_.length := List.snd_lt_of_mem_zipIdx hmem
        refine (spec_freshSlot (spec_allocInline fuel) fuel f.type v₂).building
          fun s v₃ hraised hmade ↦ ?_
        have hlow' := hraised.low
        refine (spec_setFresh hmade hpending (hfields.raised hraised hlow) hi hlow
          (by omega)).of_build fun _ v₄ hraised' hpending' ↦ ?_
        have hlow'' := hraised'.low
        exact ⟨hpending', hraised'.known (hraised.known hknown), by omega,
          (hfields.raised hraised hlow).raised hraised' (by omega)⟩

theorem spec_defaultSlot (fuel : Nat) (t : TypeId) (v : View) :
    Spec (Build S) (defaultSlot fuel t) v fun s v' ↦ v.Made s v' :=
  spec_freshSlot (spec_allocInline fuel) fuel t v

/-! ### Copies -/

theorem spec_copyField {copy : Nat → Nat → RunM Unit}
    (hcopy : ∀ src dst v, src ∈ v.known → dst ∈ v.known → v.fresh →
      Spec (Quiet S) (copy src dst) v fun _ _ ↦ True)
    {fuel src dst n i : Nat} (hsrc : v.Fields src n) (hdst : v.Fields dst n) (hi : i < n)
    (hfresh : v.fresh) : Spec (Quiet S) (copyField copy fuel src dst i) v fun _ _ ↦ True := by
  unfold copyField
  refine Spec.read fun source hsource ↦ ?_
  replace hsource : v.slot? (src - 1 - i) = some source := Stack.slotAt_ok hsource
  refine Spec.read fun current hcurrent ↦ ?_
  replace hcurrent : v.slot? (dst - 1 - i) = some current := Stack.slotAt_ok hcurrent
  split
  · next nested target =>
    refine Spec.follow (hsrc i hi).1 hsource rfl ?_
    refine Spec.follow (v := v.learn nested) (Or.inr (hdst i hi).1) hcurrent rfl ?_
    exact hcopy _ _ _ (Or.inr (Or.inl rfl)) (Or.inl rfl) hfresh
  · exact Spec.throw _
  · exact Spec.throw _
  · refine Spec.read fun x _ ↦ Spec.look (looks_sharedOrCopied fuel x) fun x' d _ _ ↦ ?_
    exact Spec.storeObject (v := v.withDomain d) (hdst.writable hi) _ x'
  · exact Spec.storeObject (hdst.writable hi) _ .null
  · next hblock hobject _ _ _ =>
    exact Spec.shareSlot (hsrc i hi).1 (hsrc i hi).2 (hdst i hi).1 (hdst i hi).2 hsource hobject
      hblock hfresh

/-- Copying a block writes to the fields of the target only, which the code knows. -/
theorem spec_copyBlock : (fuel src dst : Nat) → (v : View) → src ∈ v.known → dst ∈ v.known →
    v.fresh → Spec (Quiet S) (copyBlock fuel src dst) v fun _ _ ↦ True
  | 0, _, _, _, _, _, _ => Spec.throw _
  | fuel + 1, src, dst, v, hsrc, hdst, hfresh => by
    unfold copyBlock
    split
    · exact Spec.pure trivial
    · refine Spec.read fun ⟨source, count⟩ hsource ↦ ?_
      replace hsource : v.slot? src = _ := Stack.header_ok hsource
      refine Spec.read fun ⟨target, targetCount⟩ htarget ↦ ?_
      replace htarget : v.slot? dst = _ := Stack.header_ok htarget
      refine Spec.askDomain ?_
      split
      · exact (Spec.looks (looks_castMismatch source target)).trivially
      · next hfits =>
        have hsize : v.Sizes target count := by
          by_cases hsame : source = target
          · exact Or.inl ⟨src, hsame ▸ hsource⟩
          · have hcount : count = targetCount := by
              by_contra hcount
              simp [hsame, hcount] at hfits
            exact Or.inl ⟨dst, hcount ▸ htarget⟩
        refine Spec.fields hsrc hsource (Or.inl ⟨src, hsource⟩) fun v₁ hlevel₁ hrun₁ hsrc₁ ↦ ?_
        have htarget₁ : v₁.slot? dst = some (.header target targetCount) := by
          rw [← htarget, View.slot?, View.stack, hrun₁]
          rfl
        have hsize₁ : v₁.Sizes target count := by
          simp only [View.Sizes, View.slot?, View.stack, View.domain, hrun₁]
          exact hsize
        refine Spec.fields (hlevel₁.known hdst) htarget₁ hsize₁ fun v₂ hlevel₂ _ hdst₂ ↦ ?_
        have hfresh₂ : v₂.fresh := by
          rw [hlevel₂.fresh, hlevel₁.fresh]
          exact hfresh
        refine (Spec.forM (I := fun v' ↦ v'.Fields src count ∧ v'.Fields dst count ∧ v'.fresh)
          (List.range count) ?_ ⟨hsrc₁.level hlevel₂, hdst₂, hfresh₂⟩).trivially
        rintro i hi v' - ⟨hs, hd, hf⟩
        refine (spec_copyField (spec_copyBlock fuel) hs hd (List.mem_range.mp hi) hf).imp
          fun _ v'' hquiet _ ↦ ?_
        have hlevel := Quiets.level hquiet
        exact ⟨hs.level hlevel, hd.level hlevel, hlevel.fresh ▸ hf⟩

/-! ### Writing values -/

/-- A value that fits a primitive type is a number or null. -/
theorem slotFor_ok {x : Value} {p : Primitive} {s : Slot} (h : x.slotFor p = .ok s) :
    s = .null ∨ s.isNumeric = true := by
  unfold Value.slotFor at h
  have hmap {α : Type} {y : Except Error α} {g : α → Slot} (hg : ∀ a, (g a).isNumeric = true)
      (hy : y.map g = .ok s) : s = .null ∨ s.isNumeric = true := by
    cases y with
    | error e => cases hy
    | ok a =>
      cases hy
      exact Or.inr (hg a)
  split at h
  · split at h
    · cases h
      exact Or.inr rfl
    · exact hmap (fun _ ↦ rfl) h
  · exact hmap (fun _ ↦ rfl) h
  · split at h
    · cases h
      exact Or.inr rfl
    · exact hmap (fun _ ↦ rfl) h
  · exact hmap (fun _ ↦ rfl) h
  · cases h
    exact Or.inl rfl

theorem slot?_numeric {x : Value} {s : Slot} (h : x.slot? = some s) :
    s = .null ∨ s.isNumeric = true := by
  cases x <;> cases h <;> exact Or.inr rfl

theorem spec_writeLocation {box : Nat → Value → RunM Unit}
    (hbox : ∀ d x v, d ∈ v.known → Spec (Quiet S) (box d x) v fun _ _ ↦ True)
    {fuel d n i : Nat} (hf : v.Fields d n) (hi : i < n) (x : Value) (t : TypeId) :
    Spec (Quiet S) (writeLocation box fuel (d - 1 - i) x t) v fun _ _ ↦ True := by
  unfold writeLocation
  refine Spec.read fun current hcurrent ↦ ?_
  replace hcurrent : v.slot? (d - 1 - i) = some current := Stack.slotAt_ok hcurrent
  split
  · refine Spec.follow (hf i hi).1 hcurrent rfl ?_
    exact hbox _ x _ (Or.inl rfl)
  · refine Spec.look (looks_descriptor t) fun desc d' _ _ ↦ ?_
    split
    · refine Spec.ofExcept fun s hs ↦ ?_
      have hnumeric := slotFor_ok hs
      exact Spec.setSlot (hf.writable hi) (View.storable_of_numeric _ hnumeric)
        (Slot.isSimple_of_numeric hnumeric)
    · refine Spec.look (looks_sharedOrCopied fuel x) fun x' d'' _ _ ↦ ?_
      exact Spec.storeObject (v := (v.withDomain d').withDomain d'') (hf.writable hi) current x'

theorem boundSlots_ok {binder : StructBinder} {t : TypeId} {id : ObjectId} {r r' : Running}
    {slots : List Slot} (h : boundSlots binder t id r = .ok slots r') :
    ∃ data, binder.write data = .ok slots := by
  unfold boundSlots at h
  obtain ⟨domain, r, hask, h⟩ := exists_of_bind h
  cases hask
  dsimp only at h
  cases hdata : r.domain.heap.data? id with
  | none =>
    simp only [hdata] at h
    cases h
  | some data =>
    simp only [hdata] at h
    refine ⟨data, ?_⟩
    cases hwrite : binder.write data with
    | error e =>
      rw [hwrite] at h
      cases h
    | ok slots' =>
      rw [hwrite] at h
      cases h
      rfl

theorem typeAt_ok {t t' : TypeId} {r r' : Running} (h : typeAt t r = .ok t' r') : t' = t := by
  simp only [typeAt, liftM, monadLift, MonadLift.monadLift, Running.onDomain, Domain.inRegistry,
    Registry.lift, Registry.typeAt] at h
  split at h
  · next hat =>
    split at hat
    · next hlift =>
      split at hlift
      · next hindex =>
        split at hindex
        · cases hindex
          cases hlift
          cases hat
          cases h
          rfl
        · cases hindex
      · cases hlift
    · cases hat
  · cases h

/-- The fields of an instance are written one after the other, each in its own way. -/
theorem spec_writeInstance {box : Nat → Value → RunM Unit}
    (hbox : ∀ d x v, d ∈ v.known → Spec (Quiet S) (box d x) v fun _ _ ↦ True)
    (fields : Option (Array Value)) {fuel d count : Nat} {t : TypeId} {l : FieldLayout}
    (hd : d ∈ v.known) (hheader : v.slot? d = some (.header t count)) :
    Spec (Quiet S) ((l.instance_.take count).zipIdx.forM fun (f, i) => do
      let fieldValue ← match fields with
        | some values => pure (values.getD i .null)
        | none => (Domain.defaultValue fuel f.type : DomainM Value)
      writeLocation box fuel (d - 1 - i) fieldValue f.type) v fun _ _ ↦ True := by
  refine Spec.fields hd hheader (Or.inl ⟨d, hheader⟩) fun v₁ _ _ hfields ↦ ?_
  refine (Spec.forM (I := fun v' ↦ v'.Fields d count) _ ?_ hfields).trivially
  rintro ⟨f, i⟩ hmem v₂ - hfields
  have hi : i < count := Nat.lt_of_lt_of_le (List.snd_lt_of_mem_zipIdx hmem) (by simp)
  have hlocation (x : Value) (v₃ : View) (hlevel : v₂.Level v₃) :
      Spec (Quiet S) (writeLocation box fuel (d - 1 - i) x f.type) v₃
        fun _ v₄ ↦ v₄.Fields d count :=
    (spec_writeLocation hbox (hfields.level hlevel) hi x f.type).imp
      fun _ _ hquiet _ ↦ (hfields.level hlevel).level (Quiets.level hquiet)
  cases fields with
  | some values => exact hlocation _ _ (.refl _)
  | none =>
    exact (Spec.looks (looks_onDomain (Domain.grows_defaultValue fuel f.type))).quietly
      fun x v₃ hlevel _ ↦ hlocation x v₃ hlevel

/-- Writing a boxed struct to a block is quiet as well. -/
theorem spec_writeBoxed : (fuel d : Nat) → (x : Value) → (v : View) → d ∈ v.known →
    Spec (Quiet S) (writeBoxed fuel d x) v fun _ _ ↦ True
  | 0, _, _, _, _ => Spec.throw _
  | fuel + 1, d, x, v, hd => by
    unfold writeBoxed
    refine Spec.read fun ⟨type, count⟩ hheader ↦ ?_
    replace hheader : v.slot? d = some (.header type count) := Stack.header_ok hheader
    refine Spec.look (looks_typeAt type) fun t d₁ hd₁ htype ↦ ?_
    obtain rfl := typeAt_ok htype
    refine Spec.look (looks_inlineKind fuel t) fun kind d₂ hd₂ hkind ↦ ?_
    split
    · next binder =>
      have hsize : ((v.withDomain d₁).withDomain d₂).Sizes t binder.fields.length :=
        Or.inr (fieldCount?_of_inlineKind hkind)
      refine Spec.fields hd hheader hsize fun v₁ _ _ hfields ↦ ?_
      split
      · exact spec_resetBound t hfields
      · next id =>
        refine Spec.look (looks_checkBox t id) fun _ d₃ _ _ ↦ ?_
        refine Spec.look (looks_boundSlots binder t id) fun slots d₄ _ hslots ↦ ?_
        obtain ⟨data, hwrite⟩ := boundSlots_ok hslots
        exact spec_writeFields (View.Fields.level (w := v₁) hfields (.refl _))
          (binder.length_write hwrite).le (binder.primitive_write hwrite)
      · exact (Spec.looks (looks_notBoxed _ t)).trivially
    · next l =>
      have hbox (d : Nat) (x : Value) (w : View) (hd : d ∈ w.known) := spec_writeBoxed fuel d x w hd
      split
      · exact spec_writeInstance hbox none hd hheader
      · next id =>
        refine Spec.look (looks_checkBox t id) fun _ d₃ _ _ ↦ ?_
        refine Spec.look (looks_onDomain (Domain.grows_instanceFields id)) fun fields d₄ _ _ ↦ ?_
        exact spec_writeInstance hbox (some fields) hd hheader
      · exact Spec.look (looks_notBoxed _ t) fun fields _ _ _ ↦
          spec_writeInstance hbox fields hd hheader
    · exact Spec.look (looks_descriptor t) fun _ _ _ _ ↦ Spec.throw _

theorem spec_materialize (fuel : Nat) (x : Value) (t : TypeId) (v : View) :
    Spec (Build S) (materialize fuel x t) v fun d v' ↦
      v'.pending = d :: v.pending ∧ d ∈ v'.known := by
  unfold materialize
  refine (spec_allocInline fuel t v).bind fun d v₁ _ h ↦ ?_
  refine (spec_writeBoxed fuel d x v₁ h.2.1).quietly fun _ v₂ hlevel _ ↦ Spec.pure ?_
  exact ⟨hlevel.pending.trans h.1, hlevel.known h.2.1⟩

/-! ### Operands of some type -/

/-- Pushes the block that was made last. -/
theorem spec_pushBlock {x : RunM Nat} (hv : v.pending = [])
    (hx : Spec (Build S) x v fun d v' ↦ v'.pending = d :: v.pending ∧ d ∈ v'.known) :
    Spec (Edit S) (do Stack.push (.block (← x))) v fun _ v' ↦ v'.Rests (v.stack.top + 1) := by
  refine hx.building fun d v' hraised h ↦ ?_
  refine (Spec.push (s := .block d) (by rw [View.Storable, h.1, hv])).imp fun _ v'' _ hput ↦ ?_
  exact ⟨by rw [hput.1.top, hraised.top], hput.1.pending⟩

/-- A pushed value adds one operand on top of what was there. -/
theorem spec_pushValue (fuel : Nat) (x : Value) (t : TypeId) (hv : v.pending = []) :
    Spec (Edit S) (pushValue fuel x t) v fun _ v' ↦ v'.Above v.stack.top := by
  unfold pushValue
  refine Spec.look (looks_descriptor t) fun desc d _ _ ↦ ?_
  split
  · exact Spec.pure ⟨Nat.le_refl _, hv⟩
  · refine Spec.ofExcept fun s hs ↦ ?_
    exact (Spec.push (View.storable_of_numeric _ (slotFor_ok hs))).imp fun _ _ _ h ↦
      h.1.above (Nat.le_succ _)
  · refine Spec.look (looks_isInline fuel t) fun inline d _ _ ↦ ?_
    split
    · exact (spec_pushBlock (v := (v.withDomain _).withDomain d) hv
        (spec_materialize fuel x t _)).imp fun _ _ _ h ↦ h.above (Nat.le_succ _)
    · split
      · refine Spec.look (looks_sharedOrCopied fuel x) fun x' d _ _ ↦ ?_
        exact (Spec.pushObject x').imp fun _ _ _ h ↦ h.1.above (Nat.le_succ _)
      · exact (Spec.pushObject x).imp fun _ _ _ h ↦ h.1.above (Nat.le_succ _)

end Engine

end ManagedMachine
