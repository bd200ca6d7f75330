import ManagedMachine.Proofs.TwinReads

/-!
# Code that changes twins

What the engine does to slots, operands and blocks leaves twins behind. It writes what it was given
or has read, so whatever it puts anywhere leads to the set on which the stacks agree, and the places
it writes to join the set.
-/

set_option autoImplicit false
set_option relaxedAutoImplicit false

namespace ManagedMachine

open Engine

variable {α β γ : Type} {g : Guard} {K : Set Nat} {r r' : Running}

/-- Operations of the stack are operations of the machine. -/
theorem Running.Twin.onStack (h : Running.Twin g K r r') {x : StackM α}
    {post : Set Nat → α → Stack → Prop}
    (hx : Gives (Stack.Twin r.domain.fieldCount? g) K x r.stack r'.stack post) :
    Gives (Running.Twin g) K (Running.onStack x) r r' fun K' a t ↦ post K' a t.stack := by
  have htwin {K' : Set Nat} {s s' : Stack} (hs : Stack.Twin r.domain.fieldCount? g K' s s') :
      Running.Twin g K' (r.withStack s) (r'.withStack s') :=
      ⟨h.domain, h.id, h.frames, hs, h.honest⟩
  unfold Gives at hx ⊢
  generalize hr : x r.stack = s, hr' : x r'.stack = s' at hx
  cases hx with
  | ok hx =>
    obtain ⟨K', hK, hs, hpost⟩ := hx
    rw [Running.onStack_ok hr, Running.onStack_ok hr']
    exact .ok ⟨K', hK, htwin hs, hpost⟩
  | error hx =>
    obtain ⟨K', hK, hs⟩ := hx
    rw [Running.onStack_error hr, Running.onStack_error hr']
    exact .error ⟨K', hK, htwin hs⟩

namespace Running.Twin

theorem setSlot (h : Running.Twin g K r r') {s : Slot} (hs : s.Shown K) (a : Nat) :
    Alike (Running.Twin g) K (Running.onStack (Stack.setSlot a s)) r r' :=
  (h.onStack (h.stack.setSlot (hs.mono (Set.subset_insert a K)))).alike

theorem push (h : Running.Twin g K r r') {s : Slot} (hs : s.Shown K) :
    Alike (Running.Twin g) K (Running.onStack (Stack.push s)) r r' := h.onStack (h.stack.push hs)

theorem pushEntry (h : Running.Twin g K r r') (v : Value) :
    Alike (Running.Twin g) K (Running.onStack (Stack.pushEntry v)) r r' :=
  h.onStack (h.stack.pushEntry v)

theorem setEntry (h : Running.Twin g K r r') (i : Nat) (v : Value) :
    Alike (Running.Twin g) K (Running.onStack (Stack.setEntry i v)) r r' :=
  h.onStack (h.stack.setEntry i v)

theorem pushObject (h : Running.Twin g K r r') (v : Value) :
    Alike (Running.Twin g) K (Running.onStack (Stack.pushObject v)) r r' :=
  h.onStack (h.stack.pushObject v)

theorem storeObject (h : Running.Twin g K r r') (a : Nat) (current : Slot) (v : Value) :
    Alike (Running.Twin g) K (Running.onStack (Engine.storeObject a current v)) r r' :=
  h.onStack (h.stack.storeObject current v)

theorem pop (h : Running.Twin g K r r') (hg : g.Shields) :
    Alike (Running.Twin g) K (Running.onStack Stack.pop) r r' := h.onStack (h.stack.pop hg)

theorem popMany (h : Running.Twin g K r r') (hg : g.Shields) (n : Nat) :
    Alike (Running.Twin g) K (Running.onStack (Stack.popMany n)) r r' :=
  h.onStack (Stack.Twin.popMany hg n h.stack)

theorem popTo (h : Running.Twin g K r r') (hg : g.Shields) (a : Nat) :
    Alike (Running.Twin g) K (Running.onStack (Stack.popTo a)) r r' :=
  h.onStack (h.stack.popTo hg a)

/-- A reference gets an entry of its own. -/
theorem pushReference (h : Running.Twin g K r r') (v : Value) {f : Nat → Slot}
    (hf : ∀ i, (f i).Shown ∅) : Alike (Running.Twin g) K (do
      let own ← Running.onStack (Stack.pushEntry v)
      Running.onStack (Stack.push (f own))) r r' :=
  (h.pushEntry v).bind fun _ i _ _ _ _ h _ ↦ h.push ((hf i).mono (Set.empty_subset _))

end Running.Twin

/-- What is kept by every write to a slot or an entry is kept by the write of an object. -/
theorem Engine.keeps_storeObject {R : Running → Running → Prop} [IsPreorder Running R] {a : Nat}
    (hslot : ∀ s : Slot, s.isHeader = false → Keeps R (Running.onStack (Stack.setSlot a s)))
    (hpush : ∀ v, Keeps R (Running.onStack (Stack.pushEntry v)))
    (hset : ∀ i v, Keeps R (Running.onStack (Stack.setEntry i v))) (current : Slot) (v : Value) :
    Keeps R (Running.onStack (storeObject a current v)) := by
  have hnew : Keeps R (Running.onStack (if v.isNull then Stack.setSlot a .null else do
      let i ← Stack.pushEntry v
      Stack.setSlot a (.object i))) := by
    split
    · exact hslot _ rfl
    · intro r
      rw [Spec.onStack_bind]
      exact (hpush v).bind (fun i ↦ hslot (.object i) rfl) r
  unfold storeObject
  cases current with
  | object i => exact hset i v
  | _ => exact hnew

/-! ### Operands stay where they are -/

/-- The operands end where they did. -/
def Running.SameTop (r r' : Running) : Prop := r'.stack.top = r.stack.top

instance : Running.Looking Running.SameTop where
  refl _ := rfl
  trans _ _ _ h h' := h'.trans h
  idle _ _ := rfl

namespace Engine

open Running (SameTop)

theorem sameTop_onStack {x : StackM α} (hx : ∀ s, (endState x s).top = s.top) :
    Keeps SameTop (Running.onStack x) := fun r ↦ by
  rw [Running.endState_onStack]
  exact hx r.stack

theorem sameTop_setSlot (a : Nat) {s : Slot} :
    Keeps SameTop (Running.onStack (Stack.setSlot a s)) := sameTop_onStack fun st ↦ by
  by_cases h : a < st.slots.size <;> simp only [endState, Stack.setSlot, h, if_true, if_false]

theorem sameTop_setEntry (i : Nat) (v : Value) :
    Keeps SameTop (Running.onStack (Stack.setEntry i v)) := sameTop_onStack fun st ↦ by
  by_cases h : i < st.managed.size <;> simp only [endState, Stack.setEntry, h, if_true, if_false]

theorem sameTop_pushEntry (v : Value) : Keeps SameTop (Running.onStack (Stack.pushEntry v)) :=
  sameTop_onStack fun _ ↦ rfl

theorem sameTop_allocBlock (t : TypeId) (n : Nat) :
    Keeps SameTop (Running.onStack (Stack.allocBlock t n)) := sameTop_onStack fun st ↦ by
  by_cases h : st.low < st.top + n + 1 <;>
    simp only [endState, Stack.allocBlock, h, if_true, if_false]

theorem sameTop_storeObject (a : Nat) (current : Slot) (v : Value) :
    Keeps SameTop (Running.onStack (storeObject a current v)) :=
  keeps_storeObject (fun _ _ ↦ sameTop_setSlot a) sameTop_pushEntry sameTop_setEntry current v

theorem sameTop_freshSlot {alloc : TypeId → RunM Nat} (halloc : ∀ t, Keeps SameTop (alloc t))
    (fuel : Nat) (t : TypeId) : Keeps SameTop (freshSlot alloc fuel t) := by
  unfold freshSlot
  refine (looks_descriptor t).bind fun d ↦ ?_
  split
  · exact .pure _
  · refine (looks_isInline fuel t).bind fun inline ↦ ?_
    split
    · exact (halloc t).bind fun _ ↦ .pure _
    · split
      · exact (looks_onDomain (Domain.grows_defaultValue fuel t)).bind fun v ↦
          (sameTop_pushEntry v).bind fun _ ↦ .pure _
      · exact (Keeps.pure (R := SameTop) Value.null).bind fun v ↦
          (sameTop_pushEntry v).bind fun _ ↦ .pure _

theorem sameTop_writeFields (d : Nat) (slots : List Slot) :
    Keeps SameTop (writeFields d slots) := by
  refine .forM ?_ _
  rintro ⟨slot, i⟩
  exact sameTop_setSlot _

theorem sameTop_resetBound (binder : StructBinder) (t : TypeId) (d : Nat) :
    Keeps SameTop (resetBound binder t d) := by
  unfold resetBound
  refine (sameTop_writeFields d _).bind fun _ ↦ (looks_descriptor t).bind fun _ ↦ ?_
  split
  · exact (looks_ofExcept _).bind fun _ ↦ sameTop_writeFields d _
  · exact .pure _

theorem sameTop_allocInline : (fuel : Nat) → (t : TypeId) → Keeps SameTop (allocInline fuel t)
  | 0, _ => .throw _
  | fuel + 1, t => by
    unfold allocInline
    refine (looks_inlineKind fuel t).bind fun kind ↦ ?_
    split
    · exact (sameTop_allocBlock t _).bind fun d ↦ (sameTop_resetBound _ t d).bind fun _ ↦ .pure _
    · refine (sameTop_allocBlock t _).bind fun d ↦ Keeps.bind (.forM ?_ _) fun _ ↦ .pure _
      rintro ⟨f, i⟩
      exact (sameTop_freshSlot (sameTop_allocInline fuel) fuel f.type).bind fun _ ↦
        sameTop_setSlot _
    · exact looks_notInline t

theorem sameTop_writeLocation {box : Nat → Value → RunM Unit}
    (hbox : ∀ d v, Keeps SameTop (box d v)) (fuel addr : Nat) (v : Value) (t : TypeId) :
    Keeps SameTop (writeLocation box fuel addr v t) := by
  unfold writeLocation
  refine (looks_read _).bind fun current ↦ ?_
  split
  · exact hbox _ _
  · refine (looks_descriptor t).bind fun d ↦ ?_
    split
    · exact (looks_ofExcept _).bind fun _ ↦ sameTop_setSlot _
    · exact (looks_sharedOrCopied fuel v).bind fun _ ↦ sameTop_storeObject _ _ _

theorem sameTop_writeStruct {box : Nat → Value → RunM Unit} (hbox : ∀ d v, Keeps SameTop (box d v))
    (fuel d count : Nat) (fields : Option (Array Value)) (l : FieldLayout) : Keeps SameTop (
      (l.instance_.take count).zipIdx.forM fun (f, i) => do
        let fieldValue ← match fields with
          | some values => pure (values.getD i .null)
          | none => (Domain.defaultValue fuel f.type : DomainM Value)
        writeLocation box fuel (d - 1 - i) fieldValue f.type) := by
  have hwrite := sameTop_writeLocation hbox fuel
  refine .forM ?_ _
  rintro ⟨f, i⟩
  cases fields with
  | some values => exact hwrite _ _ _
  | none =>
    exact (looks_onDomain (Domain.grows_defaultValue fuel f.type)).bind fun _ ↦ hwrite _ _ _

theorem sameTop_writeBoxed : (fuel d : Nat) → (v : Value) → Keeps SameTop (writeBoxed fuel d v)
  | 0, _, _ => .throw _
  | fuel + 1, d, v => by
    unfold writeBoxed
    refine (looks_read _).bind ?_
    rintro ⟨type, count⟩
    refine (looks_typeAt type).bind fun t ↦ (looks_inlineKind fuel t).bind fun kind ↦ ?_
    split
    · split
      · exact sameTop_resetBound _ t d
      · exact (looks_checkBox t _).bind fun _ ↦ (looks_boundSlots _ t _).bind fun _ ↦
          sameTop_writeFields d _
      · exact looks_notBoxed _ t
    · have hfields (fields : Option (Array Value)) (l : FieldLayout) :=
        sameTop_writeStruct (sameTop_writeBoxed fuel) fuel d count fields l
      split
      · exact hfields none _
      · exact (looks_checkBox t _).bind fun _ ↦
          (looks_onDomain (Domain.grows_instanceFields _)).bind fun values ↦ hfields (some values) _
      · exact (looks_notBoxed _ t).bind fun fields ↦ hfields fields _
    · exact looks_notInline t

/-! ### Blocks -/

theorem gives_freshSlot {alloc : TypeId → RunM Nat}
    (halloc : ∀ {K r r'}, Running.Twin g K r r' → ∀ t,
      Gives (Running.Twin g) K (alloc t) r r' fun K' d _ ↦ d ∈ K')
    (h : Running.Twin g K r r') (fuel : Nat) (t : TypeId) :
    Gives (Running.Twin g) K (freshSlot alloc fuel t) r r' fun K' s _ ↦ s.Shown K' := by
  have hentry {K r r'} (h : Running.Twin g K r r') (v : Value) : Gives (Running.Twin g) K
      (do return Slot.object (← Running.onStack (Stack.pushEntry v))) r r'
      fun K' s _ ↦ s.Shown K' :=
    (h.onStack (h.stack.pushEntry v)).bind fun _ _ _ _ _ _ h _ ↦ .pure h ⟨.of_none rfl, rfl⟩
  unfold freshSlot
  refine Sees.andThen h (.descriptor h t) fun d _ _ _ h _ ↦ ?_
  split
  · exact .pure h (shown_of_numeric (Slot.zero_numeric _))
  · refine Sees.andThen h (sees_isInline h fuel t) fun inline _ _ _ h _ ↦ ?_
    split
    · exact (halloc h t).bind fun _ _ _ _ _ _ h hd ↦ .pure h (.block hd)
    · split
      · exact Sees.andThen h (.domain h (Domain.grows_defaultValue fuel t)) fun v _ _ _ h _ ↦
          hentry h v
      · exact hentry h .null

theorem alike_writeFields (h : Running.Twin g K r r') (d : Nat) {slots : List Slot}
    (hslots : ∀ s ∈ slots, s.Shown K) : Alike (Running.Twin g) K (writeFields d slots) r r' := by
  refine .forM _ h ?_
  rintro ⟨s, i⟩ hmem K' t t' hK h
  exact h.setSlot ((hslots s (List.fst_mem_of_mem_zipIdx hmem)).mono hK) _

theorem alike_resetBound (h : Running.Twin g K r r') (binder : StructBinder) (t : TypeId)
    (d : Nat) : Alike (Running.Twin g) K (resetBound binder t d) r r' := by
  unfold resetBound
  refine (alike_writeFields h d ?_).seq fun K' _ _ _ _ h _ ↦ ?_
  · simp only [List.mem_map]
    rintro s ⟨p, -, rfl⟩
    exact shown_of_numeric (Slot.zero_numeric p)
  · refine Sees.andThen h (.descriptor h t) fun desc _ _ _ h _ ↦ ?_
    split
    · next data _ =>
      refine Sees.andThen h (.ofExcept (P := fun slots ↦ ∀ s ∈ slots, s.Shown K') h
        fun slots hwrite s hs ↦ ?_) fun slots _ _ _ h hslots ↦ alike_writeFields h d hslots
      exact shown_of_numeric (binder.primitive_write hwrite s hs)
    · exact .pure h trivial

/-- New blocks are at the same addresses on twins, and join the set. -/
theorem gives_allocInline : (fuel : Nat) → {K : Set Nat} → {r r' : Running} →
    Running.Twin g K r r' → (t : TypeId) →
    Gives (Running.Twin g) K (allocInline fuel t) r r' fun K' d _ ↦ d ∈ K'
  | 0, _, _, _, h, _ => .throw h _
  | fuel + 1, K, r, r', h, t => by
    unfold allocInline
    refine Sees.andThen h (sees_inlineKind h fuel t) fun kind _ hkind _ h _ ↦ ?_
    split
    · next binder =>
      refine (h.onStack (h.stack.allocBlock (fieldCount?_of_inlineKind hkind))).bind
        fun _ d _ _ _ _ h hd ↦ ?_
      exact (alike_resetBound h binder t d).seq fun _ _ _ _ hK h _ ↦ .pure h (hK hd)
    · next l =>
      refine (h.onStack (h.stack.allocBlock (fieldCount?_of_inlineKind hkind))).bind
        fun _ d _ _ _ _ h hd ↦ ?_
      refine (Gives.forM l.instance_.zipIdx h ?_).seq fun _ _ _ _ hK h _ ↦ .pure h (hK hd)
      rintro ⟨f, i⟩ _ K' t t' _ h
      exact (gives_freshSlot (gives_allocInline fuel) h fuel f.type).bind fun _ s _ _ _ _ h hs ↦
        h.setSlot hs _
    · exact Sees.never h (sees_notInline h t)

end Engine

/-! ### Copies -/

/-- The headers were there before. -/
def Running.Tame (r r' : Running) : Prop :=
  ∀ (a : Nat) (t : TypeId) (n : Nat), r'.stack.slots[a]? = some (.header t n) →
    r.stack.slots[a]? = some (.header t n)

instance : Running.Looking Running.Tame where
  refl _ _ _ _ h := h
  trans _ _ _ h h' a t n hheader := h a t n (h' a t n hheader)
  idle _ _ _ _ _ h := h

theorem Running.Tame.plain (h : r.Tame r') {a : Nat}
    (ha : ∀ x, r.stack.slots[a]? = some x → x.isHeader = false) :
    ∀ x, r'.stack.slots[a]? = some x → x.isHeader = false := fun x hx ↦ by
  cases x with
  | header t n => exact absurd (ha _ (h a t n hx)) nofun
  | _ => rfl

namespace Engine

open Running (Tame)

theorem tame_onStack {x : StackM α} (hx : ∀ s (a : Nat) (t : TypeId) (n : Nat),
    (endState x s).slots[a]? = some (.header t n) → s.slots[a]? = some (.header t n)) :
    Keeps Tame (Running.onStack x) := fun r a t n ↦ by
  rw [Running.endState_onStack]
  exact hx r.stack a t n

theorem tame_setSlot (a : Nat) {s : Slot} (hs : s.isHeader = false) :
    Keeps Tame (Running.onStack (Stack.setSlot a s)) := tame_onStack fun st b t n hheader ↦ by
  by_cases ha : a < st.slots.size
  · simp only [endState, Stack.setSlot, ha, if_true] at hheader
    rcases Stack.Twin.getElem?_set_cases hheader with ⟨-, rfl⟩ | ⟨-, hheader⟩
    · cases hs
    · exact hheader
  · simpa only [endState, Stack.setSlot, ha, if_false] using hheader

theorem tame_setEntry (i : Nat) (v : Value) :
    Keeps Tame (Running.onStack (Stack.setEntry i v)) := tame_onStack fun st a t n hheader ↦ by
  by_cases h : i < st.managed.size <;>
    simpa only [endState, Stack.setEntry, h, if_true, if_false] using hheader

theorem tame_pushEntry (v : Value) : Keeps Tame (Running.onStack (Stack.pushEntry v)) :=
  tame_onStack fun _ _ _ _ h ↦ h

theorem tame_storeObject (a : Nat) (current : Slot) (v : Value) :
    Keeps Tame (Running.onStack (storeObject a current v)) :=
  keeps_storeObject (fun _ ↦ tame_setSlot a) tame_pushEntry tame_setEntry current v

/-- One field of a struct that is copied. -/
theorem gives_copyField {copy : Nat → Nat → RunM Unit}
    (hcopy : ∀ {K r r'}, Running.Twin g K r r' → ∀ {src dst}, src ∈ K → dst ∈ K →
      Gives (Running.Twin g) K (copy src dst) r r' fun _ _ t ↦ r.Tame t)
    (h : Running.Twin g K r r') (fuel : Nat) {src dst i : Nat} (hsrc : src - 1 - i ∈ K)
    (hdst : dst - 1 - i ∈ K)
    (hplain : ∀ x, r.stack.slots[src - 1 - i]? = some x → x.isHeader = false) :
    Gives (Running.Twin g) K (copyField copy fuel src dst i) r r' fun _ _ t ↦ r.Tame t := by
  unfold copyField
  refine Sees.andThen h (.of_read h (h.stack.slotAt hsrc)) fun source d _ hd h hsource ↦ ?_
  replace hsource := Stack.slotAt_ok hsource
  have hshown : source.Shown K := ⟨h.stack.leads hsrc hsource, hplain _ hsource⟩
  refine Sees.andThen h (.of_read h (h.stack.slotAt hdst)) fun current _ _ _ h hcurrent ↦ ?_
  have hleads := h.stack.leads_slotAt hdst hcurrent
  split
  · exact hcopy h (Slot.leads_block.mp hshown.leads) (Slot.leads_block.mp hleads)
  · exact .throw h _
  · exact .throw h _
  · refine Sees.andThen h (sees_entry h _) fun v _ _ _ h _ ↦ ?_
    refine Sees.andThen h (sees_sharedOrCopied h fuel v) fun v _ _ _ h _ ↦ ?_
    exact ((h.storeObject _ current v).also fun _ _ hrun ↦ (tame_storeObject _ current v).ok
      hrun).imp
      fun _ _ _ _ ht ↦ ht.2
  · exact ((h.storeObject _ current .null).also fun _ _ hrun ↦
      (tame_storeObject _ current .null).ok hrun).imp fun _ _ _ _ ht ↦ ht.2
  · exact ((h.setSlot hshown _).also fun _ _ hrun ↦ (tame_setSlot _ hshown.header).ok hrun).imp
      fun _ _ _ _ ht ↦ ht.2

/-- By recursion on the depth of the struct. -/
theorem gives_copyBlock : (fuel : Nat) → {K : Set Nat} → {r r' : Running} →
    Running.Twin g K r r' → {src dst : Nat} → src ∈ K → dst ∈ K →
    Gives (Running.Twin g) K (copyBlock fuel src dst) r r' fun _ _ t ↦ r.Tame t
  | 0, _, _, _, h, _, _, _, _ => .throw h _
  | fuel + 1, K, r, r', h, src, dst, hsrc, hdst => by
    unfold copyBlock
    split
    · exact .pure h (refl_of Tame r)
    · refine Sees.andThen h (.of_read h (h.stack.header hsrc)) fun p _ _ _ h hsource ↦ ?_
      refine Sees.andThen h (.of_read h (h.stack.header hdst)) fun q _ _ _ h htarget ↦ ?_
      obtain ⟨source, count⟩ := p
      obtain ⟨target, targetCount⟩ := q
      replace hsource := Stack.header_ok hsource
      replace htarget := Stack.header_ok htarget
      refine Sees.andThen h (.askDomain h _) fun checked _ _ _ h _ ↦ ?_
      split
      · exact Sees.never h (sees_castMismatch h _ _)
      · next hfits =>
        have hcount : count = targetCount := by
          by_cases hsame : source = target
          · subst hsame
            exact Option.some.inj
              ((h.stack.sized hsrc hsource).symm.trans (h.stack.sized hdst htarget))
          · by_contra hcount
            simp [hsame, hcount] at hfits
        subst hcount
        have hroom := h.stack.room hsrc hsource
        refine Gives.forM_along (R := Tame) _ h fun i hi K' t t' hK htame ht ↦ ?_
        have hi := List.mem_range.mp hi
        refine gives_copyField (gives_copyBlock fuel) ht fuel
          (hK (h.stack.mem_field hsrc hsource hi))
          (hK (h.stack.mem_field hdst htarget hi)) (htame.plain fun x hx ↦ ?_)
        exact h.stack.field hsrc hsource (by omega) (by omega) hx

/-! ### Values -/

theorem alike_writeLocation {box : Nat → Value → RunM Unit}
    (hbox : ∀ {K r r'}, Running.Twin g K r r' → ∀ {d}, d ∈ K → ∀ v,
      Alike (Running.Twin g) K (box d v) r r')
    (h : Running.Twin g K r r') (fuel : Nat) {addr : Nat} (haddr : addr ∈ K) (v : Value)
    (t : TypeId) : Alike (Running.Twin g) K (writeLocation box fuel addr v t) r r' := by
  unfold writeLocation
  refine Sees.andThen h (.of_read h (h.stack.slotAt haddr)) fun current _ _ _ h hcurrent ↦ ?_
  have hleads := h.stack.leads_slotAt haddr hcurrent
  split
  · exact hbox h (Slot.leads_block.mp hleads) v
  · refine Sees.andThen h (.descriptor h t) fun d _ _ _ h _ ↦ ?_
    split
    · next p _ =>
      refine Sees.andThen h (.ofExcept (P := fun s ↦ s.Shown K) h fun s hs ↦ ?_)
        fun s _ _ _ h hs ↦ h.setSlot hs addr
      exact shown_of_numeric (slotFor_ok hs)
    · exact Sees.andThen h (sees_sharedOrCopied h fuel v) fun v _ _ _ h _ ↦
        h.storeObject addr current v

theorem alike_writeStruct {box : Nat → Value → RunM Unit}
    (hbox : ∀ {K r r'}, Running.Twin g K r r' → ∀ {d}, d ∈ K → ∀ v,
      Alike (Running.Twin g) K (box d v) r r')
    (h : Running.Twin g K r r') (fuel : Nat) {d count : Nat}
    (hfield : ∀ {i}, i < count → d - 1 - i ∈ K) (fields : Option (Array Value)) (l : FieldLayout) :
    Alike (Running.Twin g) K ((l.instance_.take count).zipIdx.forM fun (f, i) => do
      let fieldValue ← match fields with
        | some values => pure (values.getD i .null)
        | none => (Domain.defaultValue fuel f.type : DomainM Value)
      writeLocation box fuel (d - 1 - i) fieldValue f.type) r r' := by
  refine .forM _ h ?_
  rintro ⟨f, i⟩ hmem K' t t' hK h
  have hi : i < count := Nat.lt_of_lt_of_le (List.snd_lt_of_mem_zipIdx hmem) (by simp)
  have hwrite {r r' : Running} (h : Running.Twin g K' r r') (v : Value) :=
    alike_writeLocation hbox h fuel (hK (hfield hi)) v f.type
  cases fields with
  | some values => exact hwrite h _
  | none =>
    exact Sees.andThen h (.domain h (Domain.grows_defaultValue fuel f.type))
      fun v _ _ _ h _ ↦ hwrite h v

/-- So is writing a boxed struct to a block. -/
theorem alike_writeBoxed : (fuel : Nat) → {K : Set Nat} → {r r' : Running} →
    Running.Twin g K r r' → {d : Nat} → d ∈ K → (v : Value) →
    Alike (Running.Twin g) K (writeBoxed fuel d v) r r'
  | 0, _, _, _, h, _, _, _ => .throw h _
  | fuel + 1, K, r, r', h, d, hd, v => by
    unfold writeBoxed
    refine Sees.andThen h (.of_read h (h.stack.header hd)) fun p _ _ _ h hp ↦ ?_
    obtain ⟨type, count⟩ := p
    have hheader := Stack.header_ok hp
    have hfield {i : Nat} (hi : i < count) : d - 1 - i ∈ K := h.stack.mem_field hd hheader hi
    refine Sees.andThen h (sees_typeAt h type) fun t _ _ _ h _ ↦ ?_
    refine Sees.andThen h (sees_inlineKind h fuel t) fun kind _ hkind _ h _ ↦ ?_
    split
    · next binder =>
      split
      · exact alike_resetBound h binder t d
      · next id =>
        exact Sees.andThen h (sees_checkBox h t id) fun _ _ _ _ h _ ↦
          Sees.andThen h (sees_boundSlots h binder t id) fun slots _ _ _ h hslots ↦
            alike_writeFields h d hslots
      · exact Sees.never h (sees_notBoxed h _ t)
    · next l =>
      have hfields (fields : Option (Array Value)) {r r' : Running} (h : Running.Twin g K r r') :=
        alike_writeStruct (alike_writeBoxed fuel) h fuel hfield fields l
      split
      · exact hfields none h
      · next id =>
        exact Sees.andThen h (sees_checkBox h t id) fun _ _ _ _ h _ ↦
          Sees.andThen h (.domain h (Domain.grows_instanceFields id)) fun fields _ _ _ h _ ↦
            hfields (some fields) h
      · exact Sees.andThen h (sees_notBoxed (P := fun _ ↦ True) h _ t) fun fields _ _ _ h _ ↦
          hfields fields h
    · exact Sees.never h (sees_notInline h t)

theorem gives_materialize (h : Running.Twin g K r r') (fuel : Nat) (v : Value) (t : TypeId) :
    Gives (Running.Twin g) K (materialize fuel v t) r r' fun K' d _ ↦ d ∈ K' :=
  (gives_allocInline fuel h t).bind fun _ _ _ _ _ _ h hd ↦
    (alike_writeBoxed fuel h hd v).seq fun _ _ _ _ hK h _ ↦ .pure h (hK hd)

theorem alike_pushValue (h : Running.Twin g K r r') (fuel : Nat) (v : Value) (t : TypeId) :
    Alike (Running.Twin g) K (pushValue fuel v t) r r' := by
  unfold pushValue
  refine Sees.andThen h (.descriptor h t) fun d _ _ _ h _ ↦ ?_
  split
  · exact .pure h trivial
  · refine Sees.andThen h (.ofExcept (P := fun s ↦ s.Shown K) h fun s hs ↦ ?_)
      fun s _ _ _ h hs ↦ h.push hs
    exact shown_of_numeric (slotFor_ok hs)
  · refine Sees.andThen h (sees_isInline h fuel t) fun inline _ _ _ h _ ↦ ?_
    split
    · exact (gives_materialize h fuel v t).bind fun _ _ _ _ _ _ h hd ↦ h.push (.block hd)
    · split
      · exact Sees.andThen h (sees_sharedOrCopied h fuel v) fun v _ _ _ h _ ↦ h.pushObject v
      · exact h.pushObject v

/-! ### Carries -/

theorem gives_copyOfBlock (h : Running.Twin g K r r') (fuel : Nat) {d : Nat} (hd : d ∈ K) :
    Gives (Running.Twin g) K (copyOfBlock fuel d) r r' fun K' copy _ ↦ copy ∈ K' := by
  refine Sees.andThen h (.of_read h (h.stack.header hd)) fun p _ _ _ h _ ↦ ?_
  refine Sees.andThen h (sees_typeAt h p.1) fun t _ _ _ h _ ↦ ?_
  refine (gives_allocInline fuel h t).bind fun K' copy _ _ _ hK h hcopy ↦ ?_
  exact (gives_copyBlock fuel h (hK hd) hcopy).seq fun _ _ _ _ hK h _ ↦ .pure h (hK hcopy)

theorem alike_pushCopy (h : Running.Twin g K r r') (fuel : Nat) {addr : Nat} (haddr : addr ∈ K) :
    Alike (Running.Twin g) K (pushCopy fuel addr) r r' := by
  unfold pushCopy
  refine Sees.andThen h (.of_read h (h.stack.slotAt haddr)) fun s _ _ _ h hs ↦ ?_
  have hleads := h.stack.leads_slotAt haddr hs
  split
  · exact Sees.andThen h (sees_entry h _) fun v _ _ _ h _ ↦
      Sees.andThen h (sees_sharedOrCopied h fuel v) fun v _ _ _ h _ ↦ h.pushObject v
  · exact (gives_copyOfBlock h fuel (Slot.leads_block.mp hleads)).bind fun _ _ _ _ _ _ h hd ↦
      h.push (.block hd)
  · exact Sees.andThen h (sees_entry h _) fun v _ _ _ h _ ↦
      h.pushReference v (f := (.fieldRef · _)) fun _ ↦ ⟨.of_none rfl, rfl⟩
  · exact Sees.andThen h (sees_entry h _) fun v _ _ _ h _ ↦
      h.pushReference v (f := (.elementRef · _)) fun _ ↦ ⟨.of_none rfl, rfl⟩
  · exact .throw h _
  · next hheader =>
    refine h.push ⟨hleads, Bool.eq_false_iff.mpr fun hshows ↦ ?_⟩
    cases s with
    | header t n => exact hheader t n rfl
    | _ => cases hshows

theorem alike_pushCarry (h : Running.Twin g K r r') (fuel : Nat) {c : Carry} (hc : c.Leads K)
    (t : TypeId) : Alike (Running.Twin g) K (pushCarry fuel c t) r r' := by
  unfold pushCarry
  cases c with
  | slot s =>
    cases s with
    | int32 x =>
      refine Sees.andThen h (.descriptor h t) fun d _ _ _ h _ ↦ ?_
      split <;> exact h.push ⟨.of_none rfl, rfl⟩
    | null =>
      refine Sees.andThen h (sees_isInline h fuel t) fun inline _ _ _ h _ ↦ ?_
      split
      · exact (gives_allocInline fuel h t).bind fun _ _ _ _ _ _ h hd ↦ h.push (.block hd)
      · exact h.push ⟨.of_none rfl, rfl⟩
    | _ => exact h.push hc
  | value v => exact alike_pushValue h fuel v t
  | block d =>
    exact (gives_copyOfBlock h fuel hc).bind fun _ _ _ _ _ _ h hd ↦ h.push (.block hd)
  | fieldRef object field =>
    exact h.pushReference object (f := (.fieldRef · field)) fun _ ↦ ⟨.of_none rfl, rfl⟩
  | elementRef array index =>
    exact h.pushReference array (f := (.elementRef · index)) fun _ ↦ ⟨.of_none rfl, rfl⟩

theorem alike_storeValue (h : Running.Twin g K r r') (fuel addr : Nat) {current : Slot}
    (hcurrent : current.Leads K) (v : Value) :
    Alike (Running.Twin g) K (storeValue fuel addr current v) r r' := by
  unfold storeValue
  split
  · exact alike_writeBoxed fuel h (Slot.leads_block.mp hcurrent) v
  · exact h.storeObject addr _ v
  · exact h.storeObject addr _ v
  · split
    · next s hs => exact h.setSlot (shown_of_numeric (slot?_numeric hs)) addr
    · exact h.storeObject addr current v

theorem alike_storeInto (h : Running.Twin g K r r') (fuel : Nat) {addr : Nat} (haddr : addr ∈ K)
    {c : Carry} (hc : c.Leads K) : Alike (Running.Twin g) K (storeInto fuel addr c) r r' := by
  unfold storeInto
  refine Sees.andThen h (.of_read h (h.stack.slotAt haddr)) fun current _ _ _ h hcurrent ↦ ?_
  have hleads := h.stack.leads_slotAt haddr hcurrent
  split
  · split
    · exact (gives_copyBlock fuel h hc (Slot.leads_block.mp hleads)).alike
    · exact Sees.andThen h (sees_snapshot fuel h hc) fun v _ _ _ h _ ↦ h.storeObject addr _ v
  · exact alike_storeValue h fuel addr hleads _
  · split
    · exact h.setEntry _ _
    · exact alike_writeBoxed fuel h (Slot.leads_block.mp hleads) _
    · exact h.setSlot hc addr
  · exact (h.pushEntry _).bind fun _ _ _ _ _ _ h _ ↦ h.setSlot ⟨.of_none rfl, rfl⟩ addr
  · exact (h.pushEntry _).bind fun _ _ _ _ _ _ h _ ↦ h.setSlot ⟨.of_none rfl, rfl⟩ addr

theorem alike_storeTop (h : Running.Twin g K r r') (hg : g.Shields) (fuel : Nat) {addr : Nat}
    (haddr : addr ∈ K) : Alike (Running.Twin g) K (storeTop fuel addr) r r' :=
  Sees.andThen h (sees_loadTop h) fun _ _ _ _ h hc ↦
    (alike_storeInto h fuel haddr hc).seq fun _ _ _ _ _ h _ ↦ h.pop hg

theorem alike_storeIntoBlock (h : Running.Twin g K r r') (fuel : Nat) {d : Nat} (hd : d ∈ K)
    {c : Carry} (hc : c.Leads K) : Alike (Running.Twin g) K (storeIntoBlock fuel d c) r r' := by
  unfold storeIntoBlock
  split
  · exact (gives_copyBlock fuel h hc hd).alike
  · exact alike_writeBoxed fuel h hd _
  · exact alike_writeBoxed fuel h hd _
  · exact .throw h _

/-- A store through a reference reaches an address of the set or the heap. -/
theorem alike_storeThrough (h : Running.Twin g K r r') (fuel : Nat) {s : Slot} (hs : s.Leads K)
    {c : Carry} (hc : c.Leads K) (t : TypeId) :
    Alike (Running.Twin g) K (storeThrough fuel s c t) r r' := by
  unfold storeThrough
  split
  · next addr =>
    have haddr : addr ∈ K := Slot.leads_stackRef.mp hs
    refine Sees.andThen h (.of_read h (h.stack.slotAt haddr)) fun inner _ _ _ h _ ↦ ?_
    split
    · exact (alike_storeIntoBlock h fuel haddr hc).seq fun _ _ _ _ _ h _ ↦ .pure h trivial
    · exact (alike_storeInto h fuel haddr hc).seq fun _ _ _ _ _ h _ ↦ .pure h trivial
  · refine Sees.andThen h (sees_carryValue h fuel hc t) fun v _ _ _ h _ ↦
      Sees.andThen h (sees_entry h _) fun target _ _ _ h _ ↦ ?_
    split
    · exact Sees.andThen h (.domain h (Domain.grows_setField _ _ _)) fun _ _ _ _ h _ ↦
        .pure h trivial
    · exact .throw h _
  · refine Sees.andThen h (sees_carryValue h fuel hc t) fun v _ _ _ h _ ↦
      Sees.andThen h (sees_entry h _) fun target _ _ _ h _ ↦ ?_
    split
    · exact (Sees.gives h (.domain h (Domain.grows_setElement _ _ _))).alike
    · exact .throw h _
  · exact Sees.andThen h (sees_carryValue h fuel hc t) fun v _ _ _ h _ ↦
      Sees.andThen h (sees_typeAt h _) fun _ _ _ _ h _ ↦
        Sees.andThen h (.domain h (Domain.grows_setStatic fuel _ _ _)) fun _ _ _ _ h _ ↦
          .pure h trivial
  · exact .throw h _

end Engine

end ManagedMachine
