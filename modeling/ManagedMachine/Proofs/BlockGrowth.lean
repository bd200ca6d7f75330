import ManagedMachine.Proofs.BlockTrees

/-!
# Making and overwriting structs

What the engine does to struct values leaves the blocks that are there in place. Writing to a
location or into a block changes no outline at all (`Running.Rewrites`). Making a struct puts a tree
of blocks right below the lowest address in use and changes nothing anywhere else (`Running.Adds`,
`adding_allocInline`). Both hold when the work fails on the way.

Each function has one lemma for what it does, with the outcome left open: `rewriting_copyBlock` and
`rewriting_writeBoxed` follow the recursion over the fields, `rewriting_storeInto` is what a store
comes to, and `adding_freshSlot` is what a new local or a new field gets. The lemmas for pieces of
code in a row (`Rewriting`, `Adding`) are the only place where a failure in the middle is looked at.
-/

set_option autoImplicit false
set_option relaxedAutoImplicit false

namespace ManagedMachine

open Engine

namespace Stack

variable {s : Stack} {a b : Nat} {x : Slot}

/-- A write shows in the outline of its slot only. -/
theorem outline?_set (ha : a < s.slots.size) (b : Nat) :
    outline? { s with slots := s.slots.setIfInBounds a x } b =
      if b = a then some x.outline else s.outline? b := by
  simp only [outline?, Array.getElem?_setIfInBounds]
  by_cases hab : a = b
  · subst hab
    simp [ha]
  · simp [hab, Ne.symm hab]

theorem outline?_set_of_plain (ha : a < s.slots.size) (hplain : s.Plain a) (hx : x.outline = .null)
    (b : Nat) :
    outline? { s with slots := s.slots.setIfInBounds a x } b = s.outline? b := by
  rw [outline?_set ha, hx]
  split
  · next hba =>
    subst hba
    have hslot : s.slots[b]? = some s.slots[b] := Array.getElem?_eq_getElem ha
    rw [outline?_of_some hslot, hplain.outline_eq hslot]
  · rfl

end Stack

theorem Domain.lt_size_of_fieldCount? {d : Domain} {t : TypeId} {n : Nat}
    (h : d.fieldCount? t = some n) : t.index < d.registry.types.size := by
  refine lt_size_of_isStruct ?_
  simp only [Domain.fieldCount?] at h
  split at h
  · cases h
  · next hinline =>
    simp only [Bool.or_eq_true, not_or] at hinline
    simpa using hinline.1

/-- A type that headers name is bound or not once and for all. -/
theorem Running.Blocky.bindsNoMore {r r' : Running} (h : r.Blocky)
    (hd : r.domain.Extends r'.domain) : r.BindsNoMore r' := by
  rintro d n t hheader ⟨b, hb⟩
  exact ⟨b, (hd.style? (Domain.lt_size_of_fieldCount? (h.count hheader))).symm.trans hb⟩

namespace Running

/-! ### Rewriting -/

/-- The outline of every slot is what it was, and both ends of the stack are where they were. -/
structure Rewrites (r r' : Running) : Prop where
  domain : r.domain.Extends r'.domain
  size : r'.stack.slots.size = r.stack.slots.size
  top : r'.stack.top = r.stack.top
  low : r'.stack.low = r.stack.low
  outline : ∀ a, r'.stack.outline? a = r.stack.outline? a

variable {r r' r'' : Running} {a d low : Nat}

theorem Rewrites.refl (r : Running) : r.Rewrites r := ⟨.refl _, rfl, rfl, rfl, fun _ ↦ rfl⟩

theorem Rewrites.trans (h : r.Rewrites r') (h' : r'.Rewrites r'') : r.Rewrites r'' :=
  ⟨h.domain.trans h'.domain, h'.size.trans h.size, h'.top.trans h.top, h'.low.trans h.low,
    fun a ↦ (h'.outline a).trans (h.outline a)⟩

theorem Rewrites.of_later (h : r.Later r') : r.Rewrites r' := by
  have hstack : r'.stack = r.stack := congrArg Interpreter.stack h.interpreter
  exact ⟨h.domain, hstack ▸ rfl, hstack ▸ rfl, hstack ▸ rfl, fun _ ↦ hstack ▸ rfl⟩

theorem Rewrites.header_iff (h : r.Rewrites r') {n : Nat} {t : TypeId} :
    r'.stack.slots[d]? = some (.header t n) ↔ r.stack.slots[d]? = some (.header t n) := by
  rw [← Stack.outline?_eq_header, ← Stack.outline?_eq_header, h.outline]

theorem Rewrites.blocky (h : r.Rewrites r') (hr : r.Blocky) : r'.Blocky :=
  hr.of_subset h.domain (h.low ▸ h.size ▸ hr.fits) h.low fun _ _ _ hd ↦
    ⟨h.header_iff.mp hd, h.top.le.trans (hr.operands (h.header_iff.mp hd))⟩

theorem Rewrites.plain (h : r.Rewrites r') (ha : r.stack.Plain a) : r'.stack.Plain a :=
  fun x hx ↦ ha x (h.outline a ▸ hx)

theorem Rewrites.tree (h : r.Rewrites r') (hr : r.Blocky) {t : TypeId} {n : Nat}
    (hd : r.Tree t n d low) : r'.Tree t n d low :=
  hd.congr (hr.bindsNoMore h.domain) fun x _ _ ↦ h.outline x

theorem Rewrites.whole (h : r.Rewrites r') (hr : r.Blocky) (hd : r.Whole d low) :
    r'.Whole d low :=
  hd.congr (hr.bindsNoMore h.domain) fun x _ _ ↦ h.outline x

/-! ### Adding -/

/-- New blocks were put below the lowest address in use. -/
structure Adds (r r' : Running) : Prop where
  domain : r.domain.Extends r'.domain
  size : r'.stack.slots.size = r.stack.slots.size
  top : r'.stack.top = r.stack.top
  low : r'.stack.low ≤ r.stack.low
  room : r.stack.top ≤ r.stack.low → r.stack.top ≤ r'.stack.low
  outline : ∀ a, a < r'.stack.low ∨ r.stack.low ≤ a → r'.stack.outline? a = r.stack.outline? a
  blocky : r.Blocky → r'.Blocky

theorem Rewrites.adds (h : r.Rewrites r') : r.Adds r' :=
  ⟨h.domain, h.size, h.top, h.low.le, fun hroom ↦ h.low ▸ hroom, fun a _ ↦ h.outline a, h.blocky⟩

theorem Adds.refl (r : Running) : r.Adds r := (Rewrites.refl r).adds

theorem Adds.trans (h : r.Adds r') (h' : r'.Adds r'') : r.Adds r'' where
  domain := h.domain.trans h'.domain
  size := h'.size.trans h.size
  top := h'.top.trans h.top
  low := h'.low.trans h.low
  room hroom := h.top ▸ h'.room (h.top.symm ▸ h.room hroom)
  outline a ha := by
    have hlow := h.low
    have hlow' := h'.low
    exact (h'.outline a (by omega)).trans (h.outline a (by omega))
  blocky := h'.blocky ∘ h.blocky

end Running

/-- Running `x` rewrites slots at most. -/
abbrev Rewriting {α : Type} (x : RunM α) (r : Running) : Prop := r.Rewrites (endState x r)

namespace Rewriting

variable {α β γ : Type} {x : RunM α} {f : α → RunM β} {r : Running}

theorem pure (a : α) : Rewriting (Pure.pure a : RunM α) r := .refl r

theorem throw (e : Error) : Rewriting (MonadExcept.throw e : RunM α) r := .refl r

theorem bind (hx : Rewriting x r)
    (hf : ∀ a r', x r = .ok a r' → r.Rewrites r' → Rewriting (f a) r') : Rewriting (x >>= f) r := by
  cases h : x r with
  | ok a r' =>
    have hr : r.Rewrites r' := endState_ok h ▸ hx
    rw [Rewriting, endState_bind h]
    exact hr.trans (hf a r' h hr)
  | error e r' =>
    rw [Rewriting, endState_error (bind_of_error h)]
    exact endState_error h ▸ hx

theorem of_looks (hx : Looks x) : Rewriting x r := .of_later (hx r)

theorem look (hx : Looks x)
    (hf : ∀ a r', x r = .ok a r' → r.Later r' → r.Rewrites r' → Rewriting (f a) r') :
    Rewriting (x >>= f) r :=
  (of_looks hx).bind fun a r' h hr ↦ hf a r' h (hx.ok h) hr

theorem read {query : Stack → Except Error α}
    (hf : ∀ a, query r.stack = .ok a → Rewriting (f a) r) :
    Rewriting (Engine.read query >>= f) r := by
  refine (of_looks (looks_read query)).bind fun a r' h _ ↦ ?_
  rw [Engine.read] at h
  cases hq : query r.stack with
  | error e =>
    rw [hq] at h
    cases h
  | ok b =>
    rw [hq] at h
    cases h
    exact hf a hq

theorem ofExcept {y : Except Error α} (hf : ∀ a, y = .ok a → Rewriting (f a) r) :
    Rewriting (Engine.ofExcept y >>= f) r := by
  cases y with
  | ok a => exact hf a rfl
  | error e => exact .refl r

theorem forM {g : γ → RunM PUnit} : (cs : List γ) → {r : Running} →
    (∀ c ∈ cs, ∀ r', r.Rewrites r' → Rewriting (g c) r') → Rewriting (cs.forM g) r
  | [], r, _ => .refl r
  | c :: cs, r, h => (h c List.mem_cons_self r (.refl r)).bind fun _ _ _ hr ↦
      forM cs fun c hc r' hr' ↦ h c (List.mem_cons_of_mem _ hc) r' (hr.trans hr')

/-! ### Operations of the stack -/

theorem onStack {y : StackM α} (hslots : (endState y r.stack).slots = r.stack.slots)
    (htop : (endState y r.stack).top = r.stack.top)
    (hlow : (endState y r.stack).low = r.stack.low) : Rewriting (Running.onStack y) r := by
  rw [Rewriting, Running.endState_onStack]
  refine ⟨.refl _, congrArg Array.size hslots, htop, hlow, fun a ↦ ?_⟩
  rw [Running.withStack_stack, Stack.outline?, hslots, Stack.outline?]

theorem pushEntry (x : Value) : Rewriting (Running.onStack (Stack.pushEntry x)) r :=
  onStack rfl rfl rfl

theorem setEntry (i : Nat) (x : Value) : Rewriting (Running.onStack (Stack.setEntry i x)) r := by
  by_cases h : i < r.stack.managed.size
  · have hend : endState (Stack.setEntry i x) r.stack =
        { r.stack with managed := r.stack.managed.setIfInBounds i x } := by
      simp only [endState, Stack.setEntry, if_pos h]
    exact onStack (by rw [hend]) (by rw [hend]) (by rw [hend])
  · have hend : endState (Stack.setEntry i x) r.stack = r.stack := by
      simp only [endState, Stack.setEntry, if_neg h]
    exact onStack (by rw [hend]) (by rw [hend]) (by rw [hend])

/-- A plain slot is overwritten by a plain one. -/
theorem setSlot {a : Nat} {s : Slot} (ha : r.stack.Plain a) (hs : s.outline = .null) :
    Rewriting (Running.onStack (Stack.setSlot a s)) r := by
  by_cases h : a < r.stack.slots.size
  · have hend : endState (Stack.setSlot a s) r.stack =
        { r.stack with slots := r.stack.slots.setIfInBounds a s } := by
      simp only [endState, Stack.setSlot, if_pos h]
    rw [Rewriting, Running.endState_onStack, hend]
    exact ⟨.refl _, Array.size_setIfInBounds, rfl, rfl, Stack.outline?_set_of_plain h ha hs⟩
  · have hend : endState (Stack.setSlot a s) r.stack = r.stack := by
      simp only [endState, Stack.setSlot, if_neg h]
    exact onStack (by rw [hend]) (by rw [hend]) (by rw [hend])

theorem storeObject {a : Nat} (ha : r.stack.Plain a) (current : Slot) (x : Value) :
    Rewriting (Running.onStack (storeObject a current x)) r := by
  have hnew : Rewriting (Running.onStack (if x.isNull then Stack.setSlot a .null else do
      let i ← Stack.pushEntry x
      Stack.setSlot a (.object i))) r := by
    split
    · exact setSlot ha rfl
    · rw [Spec.onStack_bind]
      exact (pushEntry x).bind fun i r' _ hr ↦ setSlot (hr.plain ha) rfl
  unfold Engine.storeObject
  cases current with
  | object i => exact setEntry i x
  | _ => exact hnew

end Rewriting

namespace Engine

variable {r : Running}

/-! ### Overwriting structs -/

theorem rewriting_writeFields {d : Nat} {slots : List Slot}
    (hslots : ∀ s ∈ slots, s = .null ∨ s.isNumeric = true)
    (hplain : ∀ i < slots.length, r.stack.Plain (d - 1 - i)) :
    Rewriting (writeFields d slots) r := by
  refine .forM slots.zipIdx ?_
  rintro ⟨s, i⟩ hmem r' hr
  have hs := hslots s (List.fst_mem_of_mem_zipIdx hmem)
  have hi : i < slots.length := List.snd_lt_of_mem_zipIdx hmem
  exact .setSlot (hr.plain (hplain i hi)) (Slot.outline_of_isSimple (Slot.isSimple_of_numeric hs))

theorem rewriting_resetBound {binder : StructBinder} {d : Nat} (t : TypeId)
    (hplain : ∀ i < binder.fields.length, r.stack.Plain (d - 1 - i)) :
    Rewriting (resetBound binder t d) r := by
  unfold resetBound
  refine Rewriting.bind (rewriting_writeFields ?_ (by simpa using hplain)) fun _ r' _ hr ↦ ?_
  · simp only [List.mem_map]
    rintro s ⟨p, -, rfl⟩
    exact Slot.zero_numeric p
  · refine .look (looks_descriptor t) fun desc r'' _ _ hr' ↦ ?_
    split
    · refine .ofExcept fun slots hwrite ↦ ?_
      refine rewriting_writeFields (binder.primitive_write hwrite) fun i hi ↦ ?_
      rw [binder.length_write hwrite] at hi
      exact hr'.plain (hr.plain (hplain i hi))
    · exact .pure _

/-- One field: a number is overwritten, a value keeps its entry or gets one, a struct is copied into
the block that is there. -/
theorem rewriting_copyField {copy : Nat → Nat → RunM Unit}
    (hcopy : ∀ src dst r low, r.Blocky → r.Whole dst low → Rewriting (copy src dst) r)
    {fuel src dst n i low : Nat} {t t' : TypeId} (hr : r.Blocky)
    (hsrc : r.stack.slots[src]? = some (.header t n)) (hdst : r.Tree t' n dst low) (hi : i < n) :
    Rewriting (copyField copy fuel src dst i) r := by
  unfold copyField
  refine .read fun source hsource ↦ ?_
  replace hsource := Stack.slotAt_ok hsource
  refine .read fun current hcurrent ↦ ?_
  replace hcurrent := Stack.slotAt_ok hcurrent
  have hplain := hdst.plain_of_field hi hcurrent
  split
  · next nested target =>
    obtain ⟨low', hwhole⟩ := hdst.whole_of_field hi hcurrent
    exact hcopy _ _ _ low' hr hwhole
  · exact .throw _
  · exact .throw _
  · next hno =>
    refine .read fun x _ ↦ .look (looks_sharedOrCopied fuel x) fun x' r' _ _ hr' ↦ ?_
    exact .storeObject (hr'.plain (hplain hno)) current x'
  · next hno => exact .storeObject (hplain hno) current .null
  · next hblock _ _ hno _ =>
    refine .setSlot (hplain hno) (Slot.outline_of_ne hblock ?_)
    rintro t'' k rfl
    exact absurd (hr.field_not_header hsrc hi hsource) nofun

/-- Copying follows the fields of the target. Each field is a location of the tree, so writing it
leaves the outline alone. -/
theorem rewriting_copyBlock : (fuel src dst : Nat) → (r : Running) → (low : Nat) → r.Blocky →
    r.Whole dst low → Rewriting (copyBlock fuel src dst) r
  | 0, _, _, _, _, _, _ => .throw _
  | fuel + 1, src, dst, r, low, hr, hdst => by
    unfold copyBlock
    split
    · exact .pure _
    · refine .read fun p hsource ↦ ?_
      obtain ⟨source, count⟩ := p
      replace hsource := Stack.header_ok hsource
      refine .read fun p htarget ↦ ?_
      obtain ⟨target, targetCount⟩ := p
      replace htarget := Stack.header_ok htarget
      refine .look (looks_askDomain _) fun checked r' _ _ hr' ↦ ?_
      split
      · exact .of_looks (looks_castMismatch source target)
      · next hfits =>
        have hcount : count = targetCount := by
          by_cases hsame : source = target
          · subst hsame
            exact Option.some.inj ((hr.count hsource).symm.trans (hr.count htarget))
          · by_contra hcount
            simp [hsame, hcount] at hfits
        obtain ⟨t, n, hdst⟩ := hdst
        obtain ⟨rfl, rfl⟩ := Slot.header.inj (Option.some.inj (hdst.header.symm.trans htarget))
        subst hcount
        refine .forM _ fun i hi r'' hr'' ↦ ?_
        have hall := hr'.trans hr''
        exact rewriting_copyField (rewriting_copyBlock fuel) (hall.blocky hr)
          (hall.header_iff.mpr hsource) (hall.tree hr hdst) (List.mem_range.mp hi)

theorem rewriting_writeLocation {box : Nat → Value → RunM Unit}
    (hbox : ∀ d x r low, r.Blocky → r.Whole d low → Rewriting (box d x) r)
    {fuel d n i low : Nat} {t' : TypeId} (hr : r.Blocky) (hd : r.Tree t' n d low) (hi : i < n)
    (x : Value) (t : TypeId) : Rewriting (writeLocation box fuel (d - 1 - i) x t) r := by
  unfold writeLocation
  refine .read fun current hcurrent ↦ ?_
  replace hcurrent := Stack.slotAt_ok hcurrent
  split
  · next e =>
    obtain ⟨low', hwhole⟩ := hd.whole_of_field hi hcurrent
    exact hbox e x r low' hr hwhole
  · next hno =>
    have hplain := hd.plain_of_field hi hcurrent hno
    refine .look (looks_descriptor t) fun desc r' _ _ hr' ↦ ?_
    split
    · refine .ofExcept fun s hs ↦ .setSlot (hr'.plain hplain) ?_
      exact Slot.outline_of_isSimple (Slot.isSimple_of_numeric (slotFor_ok hs))
    · refine .look (looks_sharedOrCopied fuel x) fun x' r'' _ _ hr'' ↦ ?_
      exact .storeObject (hr''.plain (hr'.plain hplain)) current x'

/-- The fields of an interpreted struct are written one by one. -/
theorem rewriting_writeInstance {box : Nat → Value → RunM Unit}
    (hbox : ∀ d x r low, r.Blocky → r.Whole d low → Rewriting (box d x) r)
    (fields : Option (Array Value)) {fuel d n low : Nat} {t : TypeId} {l : FieldLayout}
    (hr : r.Blocky) (hd : r.Tree t n d low) :
    Rewriting ((l.instance_.take n).zipIdx.forM fun (f, i) => do
      let fieldValue ← match fields with
        | some values => pure (values.getD i .null)
        | none => (Domain.defaultValue fuel f.type : DomainM Value)
      writeLocation box fuel (d - 1 - i) fieldValue f.type) r := by
  refine .forM _ ?_
  rintro ⟨f, i⟩ hmem r' hr'
  have hi : i < n := Nat.lt_of_lt_of_le (List.snd_lt_of_mem_zipIdx hmem) (by simp)
  have hlocation (x : Value) (r'' : Running) (hr'' : r'.Rewrites r'') :
      Rewriting (writeLocation box fuel (d - 1 - i) x f.type) r'' :=
    have hall := hr'.trans hr''
    rewriting_writeLocation hbox (hall.blocky hr) (hall.tree hr hd) hi x f.type
  cases fields with
  | some values => exact hlocation _ _ (.refl _)
  | none =>
    exact .look (looks_onDomain (Domain.grows_defaultValue fuel f.type))
      fun x r'' _ _ hr'' ↦ hlocation x r'' hr''

theorem style?_of_inlineKind {fuel : Nat} {t : TypeId} {k : Inline} {r' : Running}
    (h : inlineKind fuel t r = .ok (some k) r') :
    (∃ b, k = .bound b ∧ r.domain.style? t = some (.bound b)) ∨
      ∃ l, k = .struct l ∧ r.domain.style? t = some .fields := by
  rw [inlineKind_eq] at h
  cases hs : r.domain.style? t with
  | none =>
    rw [hs] at h
    cases h
  | some s =>
    rw [hs] at h
    cases s with
    | bound b =>
      cases h
      exact Or.inl ⟨b, rfl, rfl⟩
    | fields =>
      obtain ⟨l, r'', -, h⟩ := exists_of_bind h
      cases h
      exact Or.inr ⟨l, rfl, rfl⟩

theorem isBound_of_inlineKind {fuel : Nat} {t : TypeId} {b : StructBinder} {r' : Running}
    (h : inlineKind fuel t r = .ok (some (.bound b)) r') : r.domain.IsBound t := by
  rcases style?_of_inlineKind h with ⟨b', -, hs⟩ | ⟨l, hk, -⟩
  · exact ⟨b', hs⟩
  · cases hk

/-- An interpreted struct is never bound to host data. -/
theorem not_isBound_of_inlineKind {fuel : Nat} {t : TypeId} {l : FieldLayout} {r' : Running}
    (h : inlineKind fuel t r = .ok (some (.struct l)) r') {d : Domain}
    (hd : r.domain.Extends d) : ¬d.IsBound t := by
  rintro ⟨b, hb⟩
  rcases style?_of_inlineKind h with ⟨b', hk, -⟩ | ⟨l', -, hs⟩
  · cases hk
  · have hsize := Domain.lt_size_of_isStruct (Domain.isStruct_of_style? hs).1
    cases hs.symm.trans ((hd.style? hsize).symm.trans hb)

/-- The same for the fields of a boxed struct that are written to a block. -/
theorem rewriting_writeBoxed : (fuel d : Nat) → (x : Value) → (r : Running) → (low : Nat) →
    r.Blocky → r.Whole d low → Rewriting (writeBoxed fuel d x) r
  | 0, _, _, _, _, _, _ => .throw _
  | fuel + 1, d, x, r, low, hr, hd => by
    obtain ⟨t, n, hd⟩ := hd
    unfold writeBoxed
    refine .read fun p hheader ↦ ?_
    obtain ⟨type, count⟩ := p
    obtain ⟨rfl, rfl⟩ := Slot.header.inj
      (Option.some.inj (hd.header.symm.trans (Stack.header_ok hheader)))
    refine .look (looks_typeAt t) fun t' r₁ htype _ hr₁ ↦ ?_
    obtain rfl := typeAt_ok htype
    refine .look (looks_inlineKind fuel t') fun kind r₂ hkind _ hr₂ ↦ ?_
    have hall := hr₁.trans hr₂
    split
    · next binder =>
      have hbound := isBound_of_inlineKind hkind
      have hcount : n = binder.fields.length :=
        Option.some.inj (((hall.blocky hr).count (hall.header_iff.mpr hd.header)).symm.trans
          (fieldCount?_of_inlineKind hkind))
      have hplain (i : Nat) (hi : i < binder.fields.length) : r₂.stack.Plain (d - 1 - i) :=
        hr₂.plain (.of_null ((hr₁.tree hr hd).plain_of_bound hbound (hcount ▸ hi)))
      split
      · exact rewriting_resetBound t' hplain
      · next id =>
        refine .look (looks_checkBox t' id) fun _ r₃ _ _ hr₃ ↦ ?_
        refine .look (looks_boundSlots binder t' id) fun slots r₄ hslots _ hr₄ ↦ ?_
        obtain ⟨data, hwrite⟩ := boundSlots_ok hslots
        refine rewriting_writeFields (binder.primitive_write hwrite) fun i hi ↦ ?_
        rw [binder.length_write hwrite] at hi
        exact hr₄.plain (hr₃.plain (hplain i hi))
      · exact .of_looks (looks_notBoxed _ t')
    · next l =>
      have hbox := rewriting_writeBoxed fuel
      split
      · exact rewriting_writeInstance hbox none (hall.blocky hr) (hall.tree hr hd)
      · next id =>
        refine .look (looks_checkBox t' id) fun _ r₃ _ _ hr₃ ↦ ?_
        refine .look (looks_onDomain (Domain.grows_instanceFields id)) fun fields r₄ _ _ hr₄ ↦ ?_
        have hall' := (hall.trans hr₃).trans hr₄
        exact rewriting_writeInstance hbox (some fields) (hall'.blocky hr) (hall'.tree hr hd)
      · refine .look (looks_notBoxed _ t') fun fields r₃ _ _ hr₃ ↦ ?_
        have hall' := hall.trans hr₃
        exact rewriting_writeInstance hbox fields (hall'.blocky hr) (hall'.tree hr hd)
    · exact .look (looks_descriptor t') fun _ _ _ _ _ ↦ .throw _

end Engine

/-! ### Storing -/

/-- A slot that is stored to is no header, and a block that it points at is a tree. -/
structure Running.IsLocation (r : Running) (a : Nat) : Prop where
  plain {s : Slot} : r.stack.slots[a]? = some s → (∀ d, s ≠ .block d) → r.stack.Plain a
  whole {d : Nat} : r.stack.slots[a]? = some (.block d) → ∃ low, r.Whole d low

/-- An operand may be stored to a location that holds a block: it is one, or an object or null. -/
def Slot.FitsBlock : Slot → Prop
  | block _ | object _ | null => True
  | _ => False

/-- What the slot becomes on the way to another location. -/
inductive Carry.Loads : Slot → Carry → Prop
  | object {i : Nat} {x : Value} : Loads (.object i) (.value x)
  | block {d : Nat} : Loads (.block d) (.block d)
  | fieldRef {i field : Nat} {x : Value} : Loads (.fieldRef i field) (.fieldRef x field)
  | elementRef {i index : Nat} {x : Value} : Loads (.elementRef i index) (.elementRef x index)
  | slot {s : Slot} (hs : s.outline = .null) (hobject : ∀ i, s ≠ .object i) : Loads s (.slot s)

namespace Engine

variable {r : Running}

theorem read_ok {α : Type} {query : Stack → Except Error α} {x : α} {r' : Running}
    (h : read query r = .ok x r') : query r.stack = .ok x ∧ r' = r := by
  unfold read at h
  split at h
  · next hquery =>
    cases h
    exact ⟨hquery, rfl⟩
  · cases h

/-- What is loaded from a slot has the shape of the slot, and nothing is changed. -/
theorem loadCarry_ok {a : Nat} {c : Carry} {r' : Running} (h : loadCarry a r = .ok c r') :
    r' = r ∧ ∃ s, r.stack.slots[a]? = some s ∧ c.Loads s := by
  unfold loadCarry at h
  obtain ⟨s, r₁, hread, hload⟩ := exists_of_bind h
  obtain ⟨hs, rfl⟩ := read_ok hread
  have hentry {i : Nat} {f : Value → Carry}
      (h : (do return f (← read (·.entry i)) : RunM Carry) r₁ = .ok c r') :
      r' = r₁ ∧ ∃ x, c = f x := by
    obtain ⟨x, r₂, hread, h'⟩ := exists_of_bind h
    obtain ⟨-, rfl⟩ := read_ok hread
    cases h'
    exact ⟨rfl, x, rfl⟩
  refine (fun h ↦ ⟨h.1, s, Stack.slotAt_ok hs, h.2⟩ : (r' = r₁ ∧ c.Loads s) → _) ?_
  split at hload
  · obtain ⟨rfl, x, rfl⟩ := hentry hload
    exact ⟨rfl, .object⟩
  · cases hload
    exact ⟨rfl, .block⟩
  · obtain ⟨rfl, x, rfl⟩ := hentry hload
    exact ⟨rfl, .fieldRef⟩
  · obtain ⟨rfl, x, rfl⟩ := hentry hload
    exact ⟨rfl, .elementRef⟩
  · cases hload
  · next hobject hblock _ _ hheader =>
    cases hload
    exact ⟨rfl, .slot (Slot.outline_of_ne hblock hheader) hobject⟩

theorem rewriting_storeValue {addr : Nat} {current : Slot} (fuel : Nat) (x : Value)
    (hr : r.Blocky) (ha : r.IsLocation addr) (hcurrent : r.stack.slots[addr]? = some current) :
    Rewriting (storeValue fuel addr current x) r := by
  unfold storeValue
  split
  · next d =>
    obtain ⟨low, hwhole⟩ := ha.whole hcurrent
    exact rewriting_writeBoxed fuel d x r low hr hwhole
  · exact .storeObject (ha.plain hcurrent nofun) _ x
  · exact .storeObject (ha.plain hcurrent nofun) _ x
  · next hblock _ _ =>
    split
    · next s hs =>
      exact .setSlot (ha.plain hcurrent hblock)
        (Slot.outline_of_isSimple (Slot.isSimple_of_numeric (slot?_numeric hs)))
    · exact .storeObject (ha.plain hcurrent hblock) _ x

/-- A store overwrites its location with a slot of the same shape. Where a block is stored, the
fields of the block are copied. -/
theorem rewriting_storeInto {addr : Nat} {c : Carry} {s : Slot} (fuel : Nat) (hr : r.Blocky)
    (ha : r.IsLocation addr) (hc : c.Loads s)
    (hfits : ∀ d, r.stack.slots[addr]? = some (.block d) → s.FitsBlock) :
    Rewriting (storeInto fuel addr c) r := by
  unfold storeInto
  refine .read fun current hcurrent ↦ ?_
  replace hcurrent := Stack.slotAt_ok hcurrent
  cases hc with
  | object => exact rewriting_storeValue fuel _ hr ha hcurrent
  | @block d =>
    dsimp only
    split
    · next target =>
      obtain ⟨low, hwhole⟩ := ha.whole hcurrent
      exact rewriting_copyBlock fuel d target r low hr hwhole
    · next hblock =>
      refine .look (looks_snapshot fuel d) fun x r' _ _ hr' ↦ ?_
      exact .storeObject (hr'.plain (ha.plain hcurrent hblock)) current x
  | fieldRef =>
    have hblock (d : Nat) : current ≠ .block d := fun h ↦ hfits d (h ▸ hcurrent)
    refine Rewriting.bind (.pushEntry _) fun i r' _ hr' ↦ ?_
    exact .setSlot (hr'.plain (ha.plain hcurrent hblock)) rfl
  | elementRef =>
    have hblock (d : Nat) : current ≠ .block d := fun h ↦ hfits d (h ▸ hcurrent)
    refine Rewriting.bind (.pushEntry _) fun i r' _ hr' ↦ ?_
    exact .setSlot (hr'.plain (ha.plain hcurrent hblock)) rfl
  | slot hs hobject =>
    dsimp only
    split
    · exact .setEntry _ _
    · next d =>
      obtain ⟨low, hwhole⟩ := ha.whole hcurrent
      exact rewriting_writeBoxed fuel d .null r low hr hwhole
    · next hnull =>
      refine .setSlot (ha.plain hcurrent fun d h ↦ ?_) hs
      subst h
      have hfits' := hfits d hcurrent
      cases s with
      | null => exact hnull d rfl rfl
      | block e => cases hs
      | object i => exact hobject i rfl
      | _ => exact hfits'

end Engine

/-! ### Making structs -/

/-- Running `x` adds blocks at most, to those of the machine `r₀`, and a result satisfies `post`. -/
def Adding {α : Type} (r₀ : Running) (x : RunM α) (r : Running) (post : α → Running → Prop) :
    Prop :=
  Ends x r (fun a r' ↦ r₀.Adds r' ∧ post a r') r₀.Adds

namespace Adding

variable {α β γ : Type} {x : RunM α} {f : α → RunM β} {r₀ r : Running}
  {mid : α → Running → Prop} {post : β → Running → Prop}

theorem pure {a : α} (h : r₀.Adds r) (hmid : mid a r) : Adding r₀ (Pure.pure a) r mid := ⟨h, hmid⟩

theorem throw (e : Error) (h : r₀.Adds r) : Adding r₀ (MonadExcept.throw e) r mid := h

theorem endState (h : Adding r₀ x r mid) : r₀.Adds (ManagedMachine.endState x r) :=
  Ends.endState h (fun _ _ h ↦ h.1) fun _ h ↦ h

theorem imp {mid' : α → Running → Prop} (h : Adding r₀ x r mid)
    (himp : ∀ a r', r₀.Adds r' → mid a r' → mid' a r') : Adding r₀ x r mid' :=
  Ends.imp h (fun a r' h ↦ ⟨h.1, himp a r' h.1 h.2⟩) fun _ h ↦ h

theorem bind (hx : Adding r₀ x r mid)
    (hf : ∀ a r', r₀.Adds r' → mid a r' → Adding r₀ (f a) r' post) :
    Adding r₀ (x >>= f) r post := by
  unfold Adding Ends at hx
  cases h : x r with
  | ok a r' =>
    rw [h] at hx
    have hrest := hf a r' hx.1 hx.2
    unfold Adding Ends at hrest ⊢
    rwa [bind_of_ok h]
  | error e r' =>
    rw [h] at hx
    unfold Adding Ends
    rwa [bind_of_error h]

/-- What was there when `x` started was there in part before. -/
theorem since (h : r₀.Adds r) (hx : Adding r x r mid) :
    Adding r₀ x r fun a r' ↦ r.Adds r' ∧ mid a r' :=
  Ends.imp hx (fun _ _ h' ↦ ⟨h.trans h'.1, h'⟩) fun _ h' ↦ h.trans h'

theorem of_rewriting (h : r₀.Adds r) (hx : Rewriting x r) :
    Adding r₀ x r fun a r' ↦ x r = .ok a r' ∧ r.Rewrites r' := by
  unfold Adding Ends
  cases hrun : x r with
  | ok a r' =>
    have hr : r.Rewrites r' := endState_ok hrun ▸ hx
    exact ⟨h.trans hr.adds, rfl, hr⟩
  | error e r' => exact h.trans (endState_error hrun ▸ hx : r.Rewrites r').adds

theorem rewrite (h : r₀.Adds r) (hx : Rewriting x r)
    (hf : ∀ a r', x r = .ok a r' → r.Rewrites r' → r₀.Adds r' → Adding r₀ (f a) r' post) :
    Adding r₀ (x >>= f) r post :=
  (of_rewriting h hx).bind fun a r' hr' hmid ↦ hf a r' hmid.1 hmid.2 hr'

theorem onStack {y : StackM α}
    (hok : ∀ a st, y r.stack = .ok a st → r₀.Adds (r.withStack st) ∧ mid a (r.withStack st))
    (herror : ∀ e st, y r.stack = .error e st → r₀.Adds (r.withStack st)) :
    Adding r₀ (Running.onStack y) r mid := by
  cases h : y r.stack with
  | ok a st =>
    unfold Adding Ends
    rw [Running.onStack_ok h]
    exact hok a st h
  | error e st =>
    unfold Adding Ends
    rw [Running.onStack_error h]
    exact herror e st h

end Adding

/-- What a new location holds: a plain slot, or a new block right below those that were there. -/
inductive Running.Fresh (r r' : Running) : Slot → Prop
  | plain {s : Slot} (hs : s.outline = .null) (hlow : r'.stack.low = r.stack.low) : Fresh r r' s
  | block {d : Nat} (hd : d + 1 = r.stack.low) (hwhole : r'.Whole d r'.stack.low) :
      Fresh r r' (.block d)

namespace Engine

variable {r : Running}

/-- A block is taken right below the lowest address in use, with a header that counts the fields of
its type. -/
theorem adding_allocBlock {t : TypeId} {n : Nat} (hr : r.Blocky)
    (hn : r.domain.fieldCount? t = some n) :
    Adding r (Running.onStack (Stack.allocBlock t n)) r fun d r' ↦
      d + 1 = r.stack.low ∧ n ≤ d ∧ r'.stack.low = d - n ∧ r.stack.top ≤ r'.stack.low ∧
      r'.domain = r.domain ∧ r'.stack.slots[d]? = some (.header t n) ∧
      ∀ a, d - n ≤ a → a < d → r'.stack.outline? a = some .null := by
  refine .onStack (fun d st h ↦ ?_) fun e st h ↦ ?_
  · have hfits := hr.fits
    have hblocky := hr.alloc hn h
    obtain ⟨hroom, rfl, rfl⟩ := Stack.allocBlock_ok h
    have hheader : r.stack.low - 1 < r.stack.slots.size := by omega
    have hslot := Stack.getElem?_withBlock (n := n) t hheader (by omega)
    have hlow : r.stack.low - 1 - n ≤ r.stack.low := by omega
    have htop : r.stack.top ≤ r.stack.low - 1 - n := by omega
    refine ⟨⟨.refl _, Stack.size_withBlock .., rfl, hlow, fun _ ↦ htop, fun a ha ↦ ?_,
      fun _ ↦ hblocky⟩, by omega, by omega, rfl, htop, rfl, ?_, fun a hlow ha ↦ ?_⟩
    · change a < r.stack.low - 1 - n ∨ r.stack.low ≤ a at ha
      refine congrArg (Option.map Slot.outline) ((hslot a).trans ?_)
      rw [if_neg (by omega), if_neg (by omega)]
    · exact (hslot _).trans (if_pos rfl)
    · refine (congrArg (Option.map Slot.outline) (hslot a)).trans ?_
      rw [if_neg (by omega), if_pos ⟨hlow, ha⟩]
      rfl
  · unfold Stack.allocBlock at h
    split at h <;> cases h
    exact .refl r

/-- A new slot of a type is a plain value, or the address of a tree that was made for it. -/
theorem adding_freshSlot {alloc : TypeId → RunM Nat}
    (halloc : ∀ t r, r.Blocky → Adding r (alloc t) r fun d r' ↦
      d + 1 = r.stack.low ∧ r'.Whole d r'.stack.low)
    (fuel : Nat) (t : TypeId) (hr : r.Blocky) :
    Adding r (freshSlot alloc fuel t) r fun s r' ↦ r.Fresh r' s := by
  have hobject (x : Value) (r' : Running) (hr' : r.Rewrites r') :
      Adding r (do return .object (← Stack.pushEntry x)) r' fun s r'' ↦ r.Fresh r'' s :=
    .rewrite hr'.adds (.pushEntry x) fun i r'' _ hr'' hadds ↦
      .pure hadds (.plain rfl (hr''.low.trans hr'.low))
  unfold freshSlot
  refine .rewrite (.refl r) (.of_looks (looks_descriptor t)) fun desc r₁ _ hr₁ hadds₁ ↦ ?_
  split
  · next p _ =>
    exact .pure hadds₁
      (.plain (Slot.outline_of_isSimple (Slot.isSimple_of_numeric (Slot.zero_numeric p))) hr₁.low)
  · refine .rewrite hadds₁ (.of_looks (looks_isInline fuel t)) fun inline r₂ _ hr₂ hadds₂ ↦ ?_
    have hall := hr₁.trans hr₂
    split
    · refine (Adding.since hadds₂ (halloc t r₂ (hall.blocky hr))).bind fun d r₃ hadds₃ h ↦ ?_
      exact .pure hadds₃ (.block (h.2.1.trans hall.low) h.2.2)
    · split
      · refine .rewrite hadds₂ (.of_looks (looks_onDomain (Domain.grows_defaultValue fuel t)))
          fun x r₃ _ hr₃ _ ↦ hobject x r₃ (hall.trans hr₃)
      · exact hobject .null r₂ hall

end Engine

theorem Running.Fresh.isHeader {r r' : Running} {s : Slot} (h : r.Fresh r' s) :
    s.isHeader = false := by
  cases h with
  | plain hs hlow => exact Slot.isHeader_of_outline hs
  | block hd hwhole => rfl

/-- Slots of new blocks are filled. -/
theorem Running.Adds.setSlot {r₀ r : Running} (h : r₀.Adds r) {a : Nat} {s : Slot} {st : Stack}
    (ha : r.stack.low ≤ a) (ha' : a < r₀.stack.low) (hs : s.isHeader = false)
    (hset : Stack.setSlot a s r.stack = .ok () st) : r₀.Adds (r.withStack st) := by
  obtain ⟨hsize, rfl⟩ := Stack.setSlot_ok hset
  refine ⟨h.domain, Array.size_setIfInBounds.trans h.size, h.top, h.low, h.room, fun b hb ↦ ?_,
    fun hr₀ ↦ ?_⟩
  · change b < r.stack.low ∨ _ at hb
    exact (Stack.outline?_set hsize b).trans
      ((if_neg (by omega)).trans (h.outline b hb))
  · have hr := h.blocky hr₀
    refine hr.of_subset (.refl _) (hr.fits.trans Array.size_setIfInBounds.ge) rfl fun d t n hd ↦ ?_
    have hold := (header_of_setSlot hs hd).1
    exact ⟨hold, hr.operands hold⟩

/-- A new block with header `d` whose first `k` fields have their slots. -/
structure Running.Begins (r₀ r : Running) (t : TypeId) (n d k : Nat) : Prop where
  adds : r₀.Adds r
  header : r.stack.slots[d]? = some (.header t n)
  room : n ≤ d
  top : r₀.stack.top ≤ d - n
  below : d < r₀.stack.low
  done : r.Tiles (d - 1) k (d - n) r.stack.low
  rest {i : Nat} : k ≤ i → i < n → r.stack.outline? (d - 1 - i) = some .null

namespace Running.Begins

variable {r₀ r r' : Running} {t : TypeId} {n d k : Nat} {s : Slot}

/-- The next field gets its slot. -/
theorem set (h : r₀.Begins r t n d k) (hr₀ : r₀.Blocky) (hk : k < n) (hadds : r.Adds r')
    (hs : r.Fresh r' s) :
    Adding r₀ (Running.onStack (Stack.setSlot (d - 1 - k) s)) r'
      fun _ r'' ↦ r₀.Begins r'' t n d (k + 1) := by
  have hroom := h.room
  have hbelow := h.below
  have hlow : r.stack.low ≤ d - n := h.done.le
  have hlow' := hadds.low
  have hall := h.adds.trans hadds
  refine .onStack (fun _ st hset ↦ ?_) fun e st hset ↦ ?_
  · obtain ⟨ha, rfl⟩ := Stack.setSlot_ok hset
    obtain ⟨r'', hr''⟩ : ∃ r'', r'' = r'.withStack
      { r'.stack with slots := r'.stack.slots.setIfInBounds (d - 1 - k) s } := ⟨_, rfl⟩
    rw [← hr'']
    have houtline (x : Nat) : r''.stack.outline? x =
        if x = d - 1 - k then some s.outline else r'.stack.outline? x := by
      rw [hr'']
      exact Stack.outline?_set ha x
    have hother {x : Nat} (hx : x ≠ d - 1 - k) :
        r''.stack.outline? x = r'.stack.outline? x := (houtline x).trans (if_neg hx)
    have hold {x : Nat} (hx : x ≠ d - 1 - k) (hlive : r.stack.low ≤ x) :
        r''.stack.outline? x = r.stack.outline? x :=
      (hother hx).trans (hadds.outline x (Or.inr hlive))
    have hlow'' : r''.stack.low = r'.stack.low := by
      rw [hr'']
      rfl
    have hbinds : r.BindsNoMore r'' := (h.adds.blocky hr₀).bindsNoMore (hr'' ▸ hadds.domain)
    have hdone : r''.Tiles (d - 1) k (d - n) r.stack.low :=
      h.done.congr hbinds (fun i hi ↦ hold (by omega) (by omega))
        fun x hx hx' ↦ hold (by omega) hx
    have hslot : r''.stack.outline? (d - 1 - k) = some s.outline := (houtline _).trans (if_pos rfl)
    have hnew : r''.Tiles (d - 1 - k) 1 r.stack.low r''.stack.low := by
      cases hs with
      | plain hs hsame =>
        rw [hlow'', hsame]
        exact .plain (hslot.trans (congrArg some hs)) .nil
      | @block e he hwhole =>
        rw [← he]
        refine .cons (Stack.outline?_eq_block.mp hslot) ?_ .nil
        rw [hlow'']
        exact hwhole.congr ((hall.blocky hr₀).bindsNoMore (hr'' ▸ .refl _))
          fun x _ hx ↦ hother (by omega)
    have hadds'' : r₀.Adds r'' := hr'' ▸ hall.setSlot (by omega) (by omega) hs.isHeader hset
    exact ⟨hadds'',
      { adds := hadds''
        header := Stack.outline?_eq_header.mp
          ((hold (by omega) (by omega)).trans (Stack.outline?_eq_header.mpr h.header))
        room := h.room
        top := h.top
        below := h.below
        done := hdone.append hnew
        rest := fun hi hn ↦ (hold (by omega) (by omega)).trans (h.rest (by omega) hn) }⟩
  · obtain rfl := Spec.setSlot_error hset
    exact hall

/-- All fields get their slots, one after the other. -/
theorem forM {α : Type} {fresh : α → RunM Slot}
    (hfresh : ∀ x r, r.Blocky → Adding r (fresh x) r fun s r' ↦ r.Fresh r' s) (hr₀ : r₀.Blocky) :
    (xs : List α) → {k : Nat} → {r : Running} → r₀.Begins r t (k + xs.length) d k →
    Adding r₀ ((xs.zipIdx k).forM fun (x, i) => do
      let s ← fresh x
      Stack.setSlot (d - 1 - i) s) r fun _ r' ↦ r₀.Begins r' t (k + xs.length) d (k + xs.length)
  | [], _, _, h => .pure h.adds h
  | x :: xs, k, r, h => by
    rw [List.length_cons, Nat.add_comm xs.length, ← Nat.add_assoc] at h ⊢
    rw [List.zipIdx_cons]
    refine Adding.bind ?_ fun _ r' _ h' ↦ forM hfresh hr₀ xs h'
    refine (Adding.since h.adds (hfresh x r (h.adds.blocky hr₀))).bind fun s r' _ hs ↦ ?_
    exact h.set hr₀ (by omega) hs.1 hs.2

end Running.Begins

namespace Engine

variable {r : Running}

/-- A new struct is a tree of blocks right below those that were there. -/
theorem adding_allocInline : (fuel : Nat) → (t : TypeId) → (r : Running) → r.Blocky →
    Adding r (allocInline fuel t) r fun d r' ↦ d + 1 = r.stack.low ∧ r'.Whole d r'.stack.low
  | 0, _, r, _ => .throw _ (.refl r)
  | fuel + 1, t, r, hr => by
    unfold allocInline
    have hlooks := Rewriting.of_looks (r := r) (looks_inlineKind fuel t)
    refine .rewrite (.refl r) hlooks fun kind r₁ hkind hr₁ hadds₁ ↦ ?_
    cases kind with
    | none =>
      exact .rewrite hadds₁ (.of_looks (looks_descriptor t)) fun _ _ _ _ h ↦ .throw _ h
    | some kind =>
      cases kind with
      | bound binder =>
        have hcount : r₁.domain.fieldCount? t = some binder.fields.length :=
          fieldCount?_of_inlineKind hkind
        refine (Adding.since hadds₁ (adding_allocBlock (hr₁.blocky hr) hcount)).bind
          fun d r₂ hadds₂ h ↦ ?_
        obtain ⟨-, hd, hroom, hlow, -, -, hheader, hnull⟩ := h
        have hfields (i : Nat) (hi : i < binder.fields.length) :
            r₂.stack.outline? (d - 1 - i) = some .null := hnull _ (by omega) (by omega)
        refine .rewrite hadds₂ (rewriting_resetBound t fun i hi ↦ .of_null (hfields i hi))
          fun _ r₃ _ hr₃ hadds₃ ↦ .pure hadds₃ ⟨hd.trans hr₁.low, t, binder.fields.length, ?_⟩
        have hlow₃ : r₃.stack.low = d - binder.fields.length := hr₃.low.trans hlow
        exact ⟨hr₃.header_iff.mpr hheader, hroom, fun _ ↦ hlow₃,
          hlow₃ ▸ .of_plain fun i hi ↦ (hr₃.outline _).trans (hfields i hi)⟩
      | struct l =>
        have hcount : r₁.domain.fieldCount? t = some l.instance_.length :=
          fieldCount?_of_inlineKind hkind
        refine (Adding.since hadds₁ (adding_allocBlock (hr₁.blocky hr) hcount)).bind
          fun d r₂ hadds₂ h ↦ ?_
        obtain ⟨-, hd, hroom, hlow, htop, -, hheader, hnull⟩ := h
        have hlength : l.instance_.length = 0 + l.instance_.length := (Nat.zero_add _).symm
        have hbegins : r.Begins r₂ t l.instance_.length d 0 :=
          { adds := hadds₂
            header := hheader
            room := hroom
            top := hr₁.top ▸ hlow ▸ htop
            below := by have := hr₁.low; omega
            done := hlow ▸ .nil
            rest := fun _ hi ↦ hnull _ (by omega) (by omega) }
        rw [hlength] at hbegins
        refine Adding.bind (hbegins.forM
          (fun f r hr ↦ adding_freshSlot (adding_allocInline fuel) fuel f.type hr) hr l.instance_)
            fun _ r₃ hadds₃ hdone ↦ ?_
        rw [← hlength] at hdone
        refine .pure hadds₃ ⟨hd.trans hr₁.low, ?_⟩
        refine ⟨t, l.instance_.length, hdone.header, hdone.room, fun hbound ↦ ?_, hdone.done⟩
        exact absurd hbound (not_isBound_of_inlineKind hkind hadds₃.domain)

/-- A block that was made and then written to. -/
theorem adding_written {r₀ : Running} {x : RunM Nat} {f : Nat → RunM Unit} (hr₀ : r₀.Blocky)
    (hx : Adding r₀ x r fun d r' ↦ d + 1 = r₀.stack.low ∧ r'.Whole d r'.stack.low)
    (hf : ∀ d r', r'.Blocky → r'.Whole d r'.stack.low → Rewriting (f d) r') :
    Adding r₀ (do
      let d ← x
      f d
      return d) r fun d r' ↦ d + 1 = r₀.stack.low ∧ r'.Whole d r'.stack.low := by
  refine hx.bind fun d r₁ hadds₁ h ↦ ?_
  have hr₁ := hadds₁.blocky hr₀
  refine .rewrite hadds₁ (hf d r₁ hr₁ h.2) fun _ r₂ _ hr₂ hadds₂ ↦ .pure hadds₂ ⟨h.1, ?_⟩
  rw [hr₂.low]
  exact hr₂.whole hr₁ h.2

theorem adding_copyOfBlock (fuel d : Nat) (hr : r.Blocky) :
    Adding r (copyOfBlock fuel d) r fun e r' ↦ e + 1 = r.stack.low ∧ r'.Whole e r'.stack.low := by
  unfold copyOfBlock
  refine .rewrite (.refl r) (.of_looks (looks_read _)) fun p r₁ _ hr₁ hadds₁ ↦ ?_
  obtain ⟨type, count⟩ := p
  refine .rewrite hadds₁ (.of_looks (looks_typeAt type)) fun t r₂ _ hr₂ hadds₂ ↦ ?_
  have hall := hr₁.trans hr₂
  have halloc := Adding.since hadds₂ (adding_allocInline fuel t r₂ (hall.blocky hr))
  refine adding_written hr (halloc.imp fun e r₃ _ h ↦ ⟨h.2.1.trans hall.low, h.2.2⟩) ?_
  exact fun e r₃ hr₃ h ↦ rewriting_copyBlock fuel d e r₃ _ hr₃ h

theorem adding_materialize (fuel : Nat) (x : Value) (t : TypeId) (hr : r.Blocky) :
    Adding r (materialize fuel x t) r fun d r' ↦ d + 1 = r.stack.low ∧ r'.Whole d r'.stack.low :=
  adding_written hr (adding_allocInline fuel t r hr) fun d r' hr' h ↦
    rewriting_writeBoxed fuel d x r' _ hr' h

theorem adding_defaultSlot (fuel : Nat) (t : TypeId) (hr : r.Blocky) :
    Adding r (defaultSlot fuel t) r fun s r' ↦ r.Fresh r' s :=
  adding_freshSlot (adding_allocInline fuel) fuel t hr

end Engine

end ManagedMachine
