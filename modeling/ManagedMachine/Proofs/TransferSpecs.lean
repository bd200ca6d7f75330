import ManagedMachine.Proofs.BlockSpecs

/-!
Loads and stores as edits. What a load finds leads only to addresses that the code may learn from
the slot it reads, and a store either keeps the entry of its location or brings a new one along.
-/

set_option autoImplicit false
set_option relaxedAutoImplicit false

namespace ManagedMachine

open Engine

namespace View

/-- The code knows where a carry leads. -/
def Carries (v : View) : Carry → Prop
  | .slot s => s.isSimple = true ∧ s.entry? = none ∧ v.Leads s
  | .block d => d ∈ v.known
  | _ => True

variable {v v' : View}

theorem Carries.mono {c : Carry} (h : v.Carries c) (hk : v.known ⊆ v'.known) : v'.Carries c := by
  cases c with
  | slot s => exact ⟨h.1, h.2.1, h.2.2.mono hk⟩
  | block d => exact hk h
  | _ => trivial

theorem Carries.storable {s : Slot} (h : v.Carries (.slot s)) : v.Storable s := by
  obtain ⟨hsimple, hentry, hleads⟩ := h
  cases s with
  | object i => cases hentry
  | stackRef a => exact hleads a rfl
  | fieldRef | elementRef | block | header => cases hsimple
  | _ => trivial

theorem carries_zero (v : View) (p : Primitive) : v.Carries (.slot (.zero p)) := by
  unfold Slot.zero
  cases p.slotKind <;> exact ⟨rfl, rfl, fun _ h ↦ nomatch h⟩

end View

namespace Engine

variable {S : Scope} {v : View}

/-! ### Loading -/

/-- A load carries what it leads to from a slot that the code knows. -/
theorem spec_loadCarry {addr : Nat} (ha : addr ∈ v.known) :
    Spec (Quiet S) (loadCarry addr) v fun c v' ↦ v'.Carries c := by
  unfold loadCarry
  refine Spec.read fun s hs ↦ ?_
  replace hs : v.slot? addr = some s := Stack.slotAt_ok hs
  cases s with
  | object entry => exact Spec.read fun _ _ ↦ Spec.pure trivial
  | fieldRef entry field => exact Spec.read fun _ _ ↦ Spec.pure trivial
  | elementRef entry index => exact Spec.read fun _ _ ↦ Spec.pure trivial
  | header type fields => exact Spec.throw _
  | block d => exact Spec.follow ha hs rfl (Spec.pure (Or.inl rfl))
  | stackRef a =>
    exact Spec.follow ha hs rfl (Spec.pure ⟨rfl, rfl, fun b hb ↦ by cases hb; exact Or.inl rfl⟩)
  | _ => exact Spec.pure ⟨rfl, rfl, fun _ h ↦ nomatch h⟩

theorem spec_loadTop (hc : S.Covers v) (hbottom : S.bottom ≤ v.stack.top - 1) :
    Spec (Quiet S) loadTop v fun c v' ↦ v'.Carries c := by
  unfold loadTop
  refine Spec.read fun a ha ↦ ?_
  have htop := Stack.topAddr_ok ha
  exact spec_loadCarry (hc a (by omega) (by omega))

theorem spec_copyOfBlock {d : Nat} (fuel : Nat) (hd : d ∈ v.known) (hfresh : v.fresh) :
    Spec (Build S) (copyOfBlock fuel d) v fun e v' ↦
      v'.pending = e :: v.pending ∧ e ∈ v'.known := by
  unfold copyOfBlock
  refine Spec.read fun ⟨type, count⟩ _ ↦ ?_
  refine Spec.look (looks_typeAt type) fun t dom _ _ ↦ ?_
  refine (spec_allocInline fuel t _).building fun e v' hraised h ↦ ?_
  have hfresh' : v'.fresh := hraised.fresh ▸ hfresh
  refine (spec_copyBlock fuel d e v' (hraised.known hd) h.2.1 hfresh').quietly
    fun _ v'' hlevel _ ↦ Spec.pure ?_
  exact ⟨hlevel.pending.trans h.1, hlevel.known h.2.1⟩

/-- Pushes a reference with an entry of its own. -/
theorem spec_pushManagedRef {s : Nat → Slot} (hs : ∀ v i, View.Storable v (s i) ↔ v.own = some i)
    (x : Value) : Spec (Edit S) (do
      let entry ← (Stack.pushEntry x : RunM Nat)
      Stack.push (s entry)) v fun _ v' ↦ v'.Rests (v.stack.top + 1) := by
  refine Spec.quietly (Spec.pushEntry x) fun i v' hlevel hown ↦ ?_
  refine (Spec.push ((hs v' i).mpr hown.1)).imp fun _ v'' _ h ↦ ?_
  exact ⟨by rw [h.1.top, hlevel.top], h.1.pending⟩

/-- A copy of a slot is one operand more, with blocks of its own. -/
theorem spec_pushCopy {addr : Nat} (fuel : Nat) (ha : addr ∈ v.known) (hv : v.pending = [])
    (hfresh : v.fresh) :
    Spec (Edit S) (pushCopy fuel addr) v fun _ v' ↦ v'.Rests (v.stack.top + 1) := by
  unfold pushCopy
  refine Spec.read fun s hs ↦ ?_
  replace hs : v.slot? addr = some s := Stack.slotAt_ok hs
  have hpush (hstorable : v.Storable s) :
      Spec (Edit S) (Running.onStack (Stack.push s)) v fun _ v' ↦ v'.Rests (v.stack.top + 1) :=
    (Spec.push hstorable).imp fun _ _ _ h ↦ h.1
  cases s with
  | object entry =>
    refine Spec.read fun x _ ↦ Spec.look (looks_sharedOrCopied fuel x) fun x' d _ _ ↦ ?_
    exact (Spec.pushObject (v := v.withDomain d) x').imp fun _ _ _ h ↦ h.1
  | block d =>
    refine Spec.follow ha hs rfl ?_
    exact spec_pushBlock (v := v.learn d) hv (spec_copyOfBlock fuel (Or.inl rfl) hfresh)
  | fieldRef entry field =>
    exact Spec.read fun x _ ↦ spec_pushManagedRef (s := (.fieldRef · field)) (fun _ _ ↦ Iff.rfl) x
  | elementRef entry index =>
    exact Spec.read fun x _ ↦ spec_pushManagedRef (s := (.elementRef · index)) (fun _ _ ↦ Iff.rfl) x
  | header type fields => exact Spec.throw _
  | stackRef a =>
    refine Spec.follow ha hs rfl ?_
    exact (Spec.push (v := v.learn a) (s := .stackRef a) (Or.inl rfl)).imp fun _ _ _ h ↦ h.1
  | _ => exact hpush trivial

/-- Pushes a carry; a block among them was found since the last call. -/
theorem spec_pushCarry {c : Carry} (fuel : Nat) (t : TypeId) (hc : v.Carries c)
    (hv : v.pending = []) (hfresh : ∀ d, c = .block d → v.fresh) :
    Spec (Edit S) (pushCarry fuel c t) v fun _ v' ↦ v'.Above v.stack.top := by
  have hpush {s : Slot} {w : View} (htop : w.stack.top = v.stack.top) (hs : w.Storable s) :
      Spec (Edit S) (Running.onStack (Stack.push s)) w fun _ v'' ↦ v''.Above v.stack.top :=
    (Spec.push hs).imp fun _ _ _ h ↦ h.1.above (htop ▸ Nat.le_succ _)
  unfold pushCarry
  cases c with
  | slot s =>
    cases s with
    | int32 x =>
      refine Spec.look (looks_descriptor t) fun desc d _ _ ↦ ?_
      cases desc.primitive? with
      | some p => exact hpush (w := v.withDomain d) rfl trivial
      | none => exact hpush (w := v.withDomain d) rfl trivial
    | null =>
      refine Spec.look (looks_isInline fuel t) fun inline d _ _ ↦ ?_
      split
      · exact (spec_pushBlock (v := v.withDomain d) hv ((spec_allocInline fuel t _).imp
          fun _ _ _ h ↦ ⟨h.1, h.2.1⟩)).imp fun _ _ _ h ↦ h.above (Nat.le_succ _)
      · exact hpush (w := v.withDomain d) rfl trivial
    | _ => exact hpush rfl hc.storable
  | value x => exact spec_pushValue fuel x t hv
  | block d =>
    exact (spec_pushBlock hv (spec_copyOfBlock fuel hc (hfresh d rfl))).imp fun _ _ _ h ↦
      h.above (Nat.le_succ _)
  | fieldRef object field =>
    exact (spec_pushManagedRef (s := (.fieldRef · field)) (fun _ _ ↦ Iff.rfl) object).imp
      fun _ _ _ h ↦ h.above (Nat.le_succ _)
  | elementRef array index =>
    exact (spec_pushManagedRef (s := (.elementRef · index)) (fun _ _ ↦ Iff.rfl) array).imp
      fun _ _ _ h ↦ h.above (Nat.le_succ _)

/-! ### Storing -/

theorem spec_storeValue {addr : Nat} {current : Slot} (fuel : Nat) (x : Value)
    (ha : S.Writable v addr) (hcurrent : v.slot? addr = some current) :
    Spec (Quiet S) (storeValue fuel addr current x) v fun _ _ ↦ True := by
  unfold storeValue
  split
  · next d =>
    refine Spec.follow ha.1 hcurrent rfl ?_
    exact spec_writeBoxed fuel d x _ (Or.inl rfl)
  · exact Spec.storeObject ha _ x
  · exact Spec.storeObject ha _ x
  · split
    · next s hs =>
      have hnumeric := slot?_numeric hs
      exact Spec.setSlot ha (View.storable_of_numeric v hnumeric)
        (Slot.isSimple_of_numeric hnumeric)
    · exact Spec.storeObject ha _ x

/-- A reference with an entry of its own goes to a location. -/
theorem spec_storeManagedRef {addr : Nat} {s : Nat → Slot}
    (hs : ∀ v i, View.Storable v (s i) ↔ v.own = some i) (href : ∀ i, (s i).isManagedRef = true)
    (x : Value) (ha : S.Writable v addr) (hv : v.pending = []) : Spec (Edit S) (do
      let entry ← (Stack.pushEntry x : RunM Nat)
      Stack.setSlot addr (s entry)) v fun _ v' ↦ v'.Rests v.stack.top := by
  refine Spec.quietly (Spec.pushEntry x) fun i v' hlevel hown ↦ ?_
  have ha' := ha.mono hlevel.known hlevel.cells (congrFun hown.2 addr)
  refine (Spec.storeRef ha' ((hs v' i).mpr hown.1) (href i)).imp fun _ v'' _ h ↦ ?_
  exact ⟨by rw [h.1, hlevel.top], by rw [h.2, hlevel.pending, hv]⟩

/-- A store into a location that the code may write to. -/
theorem spec_storeInto {addr : Nat} {c : Carry} (fuel : Nat) (ha : S.Writable v addr)
    (hc : v.Carries c) (hv : v.pending = []) (hfresh : v.fresh) :
    Spec (Edit S) (storeInto fuel addr c) v fun _ v' ↦ v'.Rests v.stack.top := by
  have hquiet {x : RunM Unit} {w : View} (htop : w.stack.top = v.stack.top)
      (hpending : w.pending = []) (hx : Spec (Quiet S) x w fun _ _ ↦ True) :
      Spec (Edit S) x w fun _ v'' ↦ v''.Rests v.stack.top :=
    hx.of_quiet fun _ _ hlevel _ ↦ ⟨hlevel.top.trans htop, hlevel.pending.trans hpending⟩
  unfold storeInto
  refine Spec.read fun current hcurrent ↦ ?_
  replace hcurrent : v.slot? addr = some current := Stack.slotAt_ok hcurrent
  cases c with
  | block d =>
    dsimp only
    split
    · next target =>
      refine Spec.follow ha.1 hcurrent rfl ?_
      exact hquiet (w := v.learn target) rfl hv
        (spec_copyBlock fuel d target _ (Or.inr hc) (Or.inl rfl) hfresh)
    · refine Spec.look (looks_snapshot fuel d) fun x dom _ _ ↦ ?_
      exact hquiet (w := v.withDomain dom) rfl hv
        (Spec.storeObject (v := v.withDomain dom) ha current x)
  | value x => exact hquiet rfl hv (spec_storeValue fuel x ha hcurrent)
  | slot s =>
    dsimp only
    split
    · next entry => exact hquiet rfl hv (Spec.setEntry entry .null)
    · next d =>
      refine Spec.follow ha.1 hcurrent rfl ?_
      exact hquiet (w := v.learn d) rfl hv (spec_writeBoxed fuel d .null _ (Or.inl rfl))
    · exact hquiet rfl hv (Spec.setSlot ha hc.storable hc.1)
  | fieldRef object field =>
    exact spec_storeManagedRef (s := (.fieldRef · field)) (fun _ _ ↦ Iff.rfl) (fun _ ↦ rfl)
      object ha
      hv
  | elementRef array index =>
    exact spec_storeManagedRef (s := (.elementRef · index)) (fun _ _ ↦ Iff.rfl) (fun _ ↦ rfl) array
      ha hv

theorem spec_storeTop {addr : Nat} (fuel : Nat) (ha : addr ∈ v.known) (hframe : addr ∈ S.frame)
    (hc : S.Covers v) (hbottom : S.bottom ≤ v.stack.top - 1) (hv : v.pending = [])
    (hfresh : v.fresh) :
    Spec (Edit S) (storeTop fuel addr) v fun _ v' ↦ v'.Rests (v.stack.top - 1) := by
  unfold storeTop
  refine (spec_loadTop hc hbottom).quietly fun c v₁ hlevel hcarries ↦ ?_
  have hfresh₁ : v₁.fresh := hlevel.fresh ▸ hfresh
  refine (spec_storeInto fuel ⟨hlevel.known ha, Or.inl hframe⟩ hcarries (hlevel.pending.trans hv)
    hfresh₁).bind fun _ v₂ _ h ↦ ?_
  have htop : v₂.stack.top = v.stack.top := h.top.trans hlevel.top
  refine (Spec.pop (by omega)).imp fun _ v₃ _ h' ↦ ?_
  exact ⟨by rw [h'.top, htop], h'.pending.trans h.pending⟩

/-! ### Through references -/

/-- Following addresses only leads to what they lead to. -/
theorem spec_targetOf : (fuel : Nat) → (s : Slot) → (v : View) → v.Leads s →
    Spec (Quiet S) (targetOf fuel s) v fun t v' ↦ ∀ d, t = .block d → d ∈ v'.known
  | 0, _, _, _ => Spec.throw _
  | fuel + 1, s, v, hs => by
    have hvalue (x : Value) (v' : View) : Spec (Quiet S) (targetOfValue x) v'
        fun t v'' ↦ ∀ d, t = .block d → d ∈ v''.known := by
      unfold targetOfValue
      split
      · exact Spec.pure fun d h ↦ by cases h
      · exact Spec.pure fun d h ↦ by cases h
      · exact Spec.look (looks_askDomain _) fun _ _ _ _ ↦ Spec.throw _
    have hheap : Spec (Quiet S) (do targetOfValue (← readHeap fuel s)) v
        fun t v' ↦ ∀ d, t = .block d → d ∈ v'.known :=
      Spec.look (looks_readHeap fuel s) fun x _ _ _ ↦ hvalue x _
    unfold targetOf
    split
    · exact Spec.pure fun d h ↦ by cases h
    · exact Spec.read fun x _ ↦ hvalue x v
    · exact Spec.pure fun d h ↦ by cases h; exact hs _ rfl
    · next addr =>
      have haddr := hs addr rfl
      refine Spec.read fun inner hinner ↦ ?_
      replace hinner : v.slot? addr = some inner := Stack.slotAt_ok hinner
      split
      · exact Spec.pure fun d h ↦ by cases h; exact haddr
      · exact Spec.leads haddr hinner fun v' _ hleads ↦ spec_targetOf fuel inner v' hleads
    · exact hheap
    · exact hheap
    · exact hheap
    · exact Spec.throw _

theorem spec_loadThrough (fuel : Nat) {s : Slot} (hs : v.Leads s) :
    Spec (Quiet S) (loadThrough fuel s) v fun c v' ↦ v'.Carries c := by
  unfold loadThrough
  split
  · next addr =>
    refine Spec.read fun inner _ ↦ ?_
    split
    · exact Spec.pure (hs addr rfl)
    · exact spec_loadCarry (hs addr rfl)
  · exact Spec.look (looks_readHeap _ _) fun _ _ _ _ ↦ Spec.pure trivial
  · exact Spec.look (looks_readHeap _ _) fun _ _ _ _ ↦ Spec.pure trivial
  · exact Spec.look (looks_readHeap _ _) fun _ _ _ _ ↦ Spec.pure trivial
  · exact Spec.throw _

theorem spec_storeIntoBlock {d : Nat} {c : Carry} (fuel : Nat) (hd : d ∈ v.known)
    (hc : v.Carries c) (hfresh : v.fresh) :
    Spec (Quiet S) (storeIntoBlock fuel d c) v fun _ _ ↦ True := by
  unfold storeIntoBlock
  split
  · exact spec_copyBlock fuel _ d v hc hd hfresh
  · exact spec_writeBoxed fuel d _ v hd
  · exact spec_writeBoxed fuel d _ v hd
  · exact Spec.throw _

/-- A store through a reference, wherever it leads. -/
theorem spec_storeThrough {s : Slot} {c : Carry} (fuel : Nat) (t : TypeId) (hs : v.Leads s)
    (hc : v.Carries c) (hv : v.pending = []) (hfresh : v.fresh) :
    Spec (Edit S) (storeThrough fuel s c t) v fun _ v' ↦ v'.Rests v.stack.top := by
  unfold storeThrough
  split
  · next addr =>
    have haddr := hs addr rfl
    refine Spec.read fun inner hinner ↦ ?_
    replace hinner : v.slot? addr = some inner := Stack.slotAt_ok hinner
    split
    · refine (spec_storeIntoBlock fuel haddr hc hfresh).quietly fun _ v' hlevel _ ↦ ?_
      exact Spec.pure ⟨hlevel.top, hlevel.pending.trans hv⟩
    · next hheader =>
      have hinner' : inner.isHeader = false := by
        cases inner with
        | header type fields => exact absurd rfl (hheader type fields)
        | _ => rfl
      refine (spec_storeInto fuel ⟨haddr, Or.inr (Or.inr ⟨inner, hinner, hinner'⟩)⟩ hc hv
        hfresh).bind
        fun _ v' _ h ↦ Spec.pure h
  · refine Spec.look (looks_carryValue fuel c t) fun x d _ _ ↦ Spec.read fun object _ ↦ ?_
    split
    · refine Spec.look (looks_onDomain (Domain.grows_setField _ _ _)) fun _ d' _ _ ↦ ?_
      exact Spec.pure ⟨rfl, hv⟩
    · exact Spec.throw _
  · refine Spec.look (looks_carryValue fuel c t) fun x d _ _ ↦ Spec.read fun array _ ↦ ?_
    split
    · exact (Spec.looks (looks_onDomain (Domain.grows_setElement _ _ _))).of_quiet
        fun _ _ hlevel _ ↦ ⟨hlevel.top, hlevel.pending.trans hv⟩
    · exact Spec.throw _
  · refine Spec.look (looks_carryValue fuel c t) fun x d _ _ ↦ ?_
    refine Spec.look (looks_typeAt _) fun type d' _ _ ↦ ?_
    refine Spec.look (looks_onDomain (Domain.grows_setStatic _ _ _ _)) fun _ d'' _ _ ↦ ?_
    exact Spec.pure ⟨rfl, hv⟩
  · exact Spec.throw _

/-- The block of a struct, through however many addresses. -/
theorem spec_blockOf : (fuel : Nat) → (s : Slot) → (v : View) → v.Leads s →
    Spec (Quiet S) (blockOf fuel s) v fun d v' ↦ d ∈ v'.known
  | 0, _, _, _ => Spec.throw _
  | fuel + 1, s, v, hs => by
    unfold blockOf
    split
    · exact Spec.pure (hs _ rfl)
    · next addr =>
      have haddr := hs addr rfl
      refine Spec.read fun inner hinner ↦ ?_
      replace hinner : v.slot? addr = some inner := Stack.slotAt_ok hinner
      split
      · exact Spec.pure haddr
      · exact Spec.leads haddr hinner fun v' _ hleads ↦ spec_blockOf fuel inner v' hleads
    · exact Spec.throw _

end Engine

end ManagedMachine
