import ManagedMachine.Proofs.CallSpecs

/-!
The instructions that work on operands, as edits. Each of them may rely on `Scope.Finds`: so many of
its operands lie above the bottom of its frame.

The specifications come in the order of the instructions. They hold for every bottom of the frame,
which enters only by way of how many operands are found, so a user states once per instruction how
many that are.
-/

set_option autoImplicit false
set_option relaxedAutoImplicit false

namespace ManagedMachine

open Engine

/-- An instruction begins, and it finds `k` operands of its frame. -/
structure Scope.Finds (S : Scope) (v : View) (k : Nat) : Prop where
  bottom : S.bottom ≤ v.stack.top - k
  covers : S.Covers v
  pending : v.pending = []
  fresh : v.fresh

namespace Scope.Finds

variable {S : Scope} {v w : View} {k : Nat}

theorem level (h : S.Finds v k) (hl : v.Level w) : S.Finds w k :=
  ⟨hl.top ▸ h.bottom, fun a hb ha ↦ hl.known (h.covers a hb (hl.top ▸ ha)),
    hl.pending.trans h.pending, hl.fresh ▸ h.fresh⟩

theorem withDomain (h : S.Finds v k) (d : Domain) : S.Finds (v.withDomain d) k :=
  ⟨h.bottom, h.covers, h.pending, h.fresh⟩

theorem mono {n : Nat} (h : S.Finds v k) (hn : n ≤ k) : S.Finds v n :=
  ⟨Nat.le_trans h.bottom (Nat.sub_le_sub_left hn _), h.covers, h.pending, h.fresh⟩

/-- The slots of the operands may be read. -/
theorem known (h : S.Finds v k) {n : Nat} (hn : n < k) (htop : n < v.stack.top) :
    v.stack.top - (n + 1) ∈ v.known := by
  have hbottom := h.bottom
  exact h.covers _ (by omega) (by omega)

end Scope.Finds

/-- Numbers, and null where a conversion gives nothing. -/
theorem Number.isNumeric_ofInt (x : Int64) (wide : Bool) :
    (Slot.ofInt x wide).isNumeric = true := by
  cases wide <;> rfl

theorem Number.isNumeric_ofFloat (x : Float) (wide : Bool) :
    (Slot.ofFloat x wide).isNumeric = true := by
  cases wide <;> rfl

theorem BinaryOp.isNumeric_onInts {op : BinaryOp} {x y : Int64} {xWide yWide : Bool} {s : Slot}
    (h : op.onInts x xWide y yWide = some s) : s.isNumeric = true := by
  have hpick (wide : Bool) (a : Int64) (b : Int32) :
      Slot.isNumeric (if wide then .int64 a else .int32 b) = true := by
    cases wide <;> rfl
  unfold BinaryOp.onInts at h
  cases op
  case div | rem =>
    dsimp only at h
    split at h
    · cases h
    · cases h
      exact hpick _ _ _
  all_goals
    cases h
    first | exact Number.isNumeric_ofInt _ _ | exact hpick _ _ _

theorem BinaryOp.isNumeric_apply {op : BinaryOp} {left right s : Slot}
    (h : op.apply left right = .ok (some s)) : s.isNumeric = true := by
  unfold BinaryOp.apply at h
  cases ha : Number.ofSlot left with
  | error e => simp only [ha, bind, Except.bind, reduceCtorEq] at h
  | ok a =>
    cases hb : Number.ofSlot right with
    | error e => simp only [ha, hb, bind, Except.bind, reduceCtorEq] at h
    | ok b =>
      simp only [ha, hb, bind, Except.bind] at h
      split at h
      · exact isNumeric_onInts (Except.ok.inj h)
      · split at h
        · cases h
        · cases h
          exact Number.isNumeric_ofFloat _ _

theorem Slot.isNumeric_negate {s s' : Slot} (h : s.negate = .ok s') : s'.isNumeric = true := by
  unfold Slot.negate at h
  cases ha : Number.ofSlot s with
  | error e => simp only [ha, bind, Except.bind, reduceCtorEq] at h
  | ok a =>
    simp only [ha, bind, Except.bind] at h
    split at h <;> cases h
    · exact Number.isNumeric_ofInt _ _
    · exact Number.isNumeric_ofFloat _ _

theorem Slot.isNumeric_convert {s s' : Slot} {target : Conversion}
    (h : s.convert target = .ok s') : s'.isNumeric = true := by
  unfold Slot.convert at h
  cases ha : Number.ofSlot s with
  | error e => simp only [ha, bind, Except.bind, reduceCtorEq] at h
  | ok a =>
    simp only [ha, bind, Except.bind] at h
    split at h <;> cases h <;> rfl

namespace Engine

variable {S : Scope} {v : View}

/-! ### Arithmetic and comparisons -/

theorem spec_replaceBy {k : Nat} {s : Slot} (hv : S.Finds v k)
    (hs : ∀ w, Edits S v w → w.Storable s) :
    Spec (Edit S) (replaceBy k s) v fun _ _ ↦ True := by
  unfold replaceBy
  refine (Spec.popMany k hv.bottom).bind fun _ w hR _ ↦ ?_
  exact (Spec.push (hs w hR)).trivially

theorem spec_replaceByNumber {k : Nat} {s : Slot} (hv : S.Finds v k) (hs : s.isNumeric = true) :
    Spec (Edit S) (replaceBy k s) v fun _ _ ↦ True :=
  spec_replaceBy hv fun w _ ↦ View.storable_of_numeric w (Or.inr hs)

theorem spec_raise {α : Type} (f : CoreLibrary.Fault) (message : String) :
    Spec (Edit S) (raise f message : RunM α) v fun _ _ ↦ True :=
  (Spec.looks (looks_raise f message)).trivially

theorem spec_binary (op : BinaryOp) (hv : S.Finds v 2) :
    Spec (Edit S) (binary op) v fun _ _ ↦ True := by
  unfold binary
  refine Spec.read fun right _ ↦ Spec.read fun left _ ↦ Spec.ofExcept fun result hresult ↦ ?_
  split
  · exact spec_replaceByNumber hv (BinaryOp.isNumeric_apply hresult)
  · exact spec_raise _ _

theorem spec_unary {op : Slot → Except Error Slot}
    (hop : ∀ s s', op s = .ok s' → s'.isNumeric = true) (hv : S.Finds v 1) :
    Spec (Edit S) (unary op) v fun _ _ ↦ True := by
  unfold unary
  refine Spec.read fun s _ ↦ Spec.ofExcept fun s' hs' ↦ ?_
  exact spec_replaceByNumber hv (hop s s' hs')

theorem spec_pushComparison (op : Comparison) (hv : S.Finds v 2) :
    Spec (Edit S) (pushComparison op) v fun _ _ ↦ True := by
  unfold pushComparison
  exact Spec.look (looks_compareTop op) fun holds d _ _ ↦
    spec_replaceByNumber (hv.withDomain d) rfl

theorem jumpIf_ne_ret (taken : Bool) (target : UInt32) (c : Option Carry) :
    jumpIf taken target ≠ .ret c := by
  cases taken <;> exact nofun

theorem spec_branchIf (expected : Bool) (target : UInt32) (hv : S.Finds v 1) :
    Spec (Edit S) (branchIf expected target) v fun o _ ↦ ∀ c, o ≠ .ret c := by
  unfold branchIf
  refine Spec.read fun s _ ↦ Spec.look (looks_truthy s) fun taken d _ _ ↦ ?_
  exact (Spec.pop (hv.withDomain d).bottom).bind fun _ _ _ _ ↦ Spec.pure (jumpIf_ne_ret _ target)

theorem spec_branchOn (op : Comparison) (target : UInt32) (hv : S.Finds v 2) :
    Spec (Edit S) (branchOn op target) v fun o _ ↦ ∀ c, o ≠ .ret c := by
  unfold branchOn
  refine Spec.look (looks_compareTop op) fun taken d _ _ ↦ ?_
  exact (Spec.popMany 2 (hv.withDomain d).bottom).bind fun _ _ _ _ ↦
    Spec.pure (jumpIf_ne_ret taken target)

/-! ### Arrays -/

theorem spec_popMany {k : Nat} (hv : S.Finds v k) :
    Spec (Edit S) (Running.onStack (Stack.popMany k)) v fun _ w ↦ w.Rests (v.stack.top - k) :=
  (Spec.popMany k hv.bottom).imp fun _ _ _ h ↦ ⟨h.top, h.pending.trans hv.pending⟩

theorem spec_pop (hv : S.Finds v 1) :
    Spec (Edit S) (Running.onStack Stack.pop) v fun _ w ↦ w.Rests (v.stack.top - 1) :=
  (Spec.pop hv.bottom).imp fun _ _ _ h ↦ ⟨h.top, h.pending.trans hv.pending⟩

/-- The length is taken off and the array comes in its place. -/
theorem spec_newArray (fuel : Nat) (t : TypeId) (hv : S.Finds v 1) :
    Spec (Edit S) (newArray fuel t) v fun _ _ ↦ True := by
  have hmake (length : Int) : Spec (Edit S) (do
      if length < 0 then raise .overflow "Arithmetic operation resulted in an overflow."
      else
        let items ← newElements fuel t length.toNat
        let type ← (Registry.makeArray t 1 : RegistryM TypeId)
        let array ← (Domain.newObject (.array type items.toArray) : DomainM Value)
        pop
        Stack.pushObject array) v fun _ _ ↦ True := by
    split
    · exact spec_raise _ _
    · refine Spec.look (looks_newElements fuel t _) fun items d _ _ ↦ ?_
      refine Spec.look (looks_inRegistry (Registry.Building.makeArray t 1)) fun type d' _ _ ↦ ?_
      refine Spec.look (looks_onDomain (Domain.grows_newObject _)) fun array d'' _ _ ↦ ?_
      refine (spec_pop (((hv.withDomain d).withDomain d').withDomain d'')).bind fun _ w _ _ ↦ ?_
      exact (Spec.pushObject array).trivially
  unfold newArray
  refine Spec.read fun s _ ↦ ?_
  split
  · exact hmake _
  · exact hmake _
  · exact Spec.failing rfl

theorem spec_loadLength (hv : S.Finds v 1) : Spec (Edit S) loadLength v fun _ _ ↦ True := by
  unfold loadLength
  refine Spec.look (looks_arrayAt 0) fun array d _ _ ↦ ?_
  refine Spec.look (looks_onDomain (Domain.grows_length array)) fun length d' _ _ ↦ ?_
  split
  · exact spec_replaceByNumber ((hv.withDomain d).withDomain d') rfl
  · exact Spec.throw _

theorem spec_loadElement (fuel : Nat) (hv : S.Finds v 2) :
    Spec (Edit S) (loadElement fuel) v fun _ _ ↦ True := by
  unfold loadElement
  refine Spec.read fun index _ ↦ Spec.look (looks_arrayAt 1) fun array d _ _ ↦ ?_
  refine Spec.look (looks_elementType array) fun t d' _ _ ↦ Spec.ofExcept fun i _ ↦ ?_
  split
  · exact spec_raise _ _
  · refine Spec.look (looks_onDomain (Domain.grows_element? _ _)) fun found d'' _ _ ↦ ?_
    split
    · exact spec_raise _ _
    · refine (spec_popMany (((hv.withDomain d).withDomain d').withDomain d'')).bind fun _ w _ h ↦ ?_
      exact (spec_pushValue fuel _ t h.pending).trivially

/-- Array, index and value are taken off. -/
theorem spec_storeElement (fuel : Nat) (hv : S.Finds v 3) :
    Spec (Edit S) (storeElement fuel) v fun _ _ ↦ True := by
  have hfinish (index : Slot) (stored : Bool) (w : View) (hw : S.Finds w 3) :
      Spec (Edit S) (if stored then Stack.popMany 3 else indexFault index : RunM Unit) w
        fun _ _ ↦ True := by
    split
    · exact (spec_popMany hw).trivially
    · exact spec_raise _ _
  unfold storeElement
  refine Spec.read fun index _ ↦ Spec.look (looks_arrayAt 2) fun array d _ _ ↦ ?_
  refine Spec.look (looks_elementType array) fun t d' _ _ ↦ ?_
  refine Spec.look looks_loadTop fun c d₁ _ _ ↦ ?_
  refine Spec.look (looks_carryValue fuel c t) fun x d₂ _ _ ↦ Spec.ofExcept fun i _ ↦ ?_
  have hv' := (((hv.withDomain d).withDomain d').withDomain d₁).withDomain d₂
  cases i with
  | none => exact hfinish index false _ hv'
  | some i =>
    exact Spec.look (looks_onDomain (Domain.grows_setElement array i x)) fun stored d₃ _ _ ↦
      hfinish index stored _ (hv'.withDomain d₃)

/-- The operand on top becomes a reference into the object that it was. -/
theorem spec_refineTop {reference : Nat → Slot} (object : ObjectId)
    (hentry : ∀ i, Slot.entry? (reference i) = some i)
    (href : ∀ i, (reference i).isManagedRef = true)
    (hv : S.Finds v 1) : Spec (Edit S) (refineTop object reference) v fun _ _ ↦ True := by
  unfold refineTop
  refine Spec.read fun s hs ↦ ?_
  obtain ⟨htop, hslot⟩ := Stack.topSlot_ok hs
  split
  · next entry =>
    refine Spec.read fun a ha ↦ ?_
    have haddr := Stack.topAddr_ok ha
    obtain rfl : a = v.stack.top - 1 := by omega
    refine Spec.stackOp (fun _ st h ↦ ?_) fun e st h ↦ ?_
    · exact ⟨_, .single (.retag htop hv.bottom hslot (hentry entry) (href entry) h), rfl, trivial⟩
    · obtain rfl := Spec.setSlot_error h
      exact ⟨v, .refl, rfl⟩
  · refine (spec_pop hv).bind fun _ w _ _ ↦ ?_
    refine Spec.quietly (Spec.pushEntry _) fun i w' _ hown ↦ ?_
    refine (Spec.push ?_).trivially
    have hstorable (s : Slot) (hs : s.entry? = some i) (href : s.isManagedRef = true) :
        w'.Storable s := by
      cases s with
      | fieldRef | elementRef =>
        cases hs
        exact hown.1
      | _ => cases href
    exact hstorable _ (hentry i) (href i)

/-- Array and index give way to the address of the element. -/
theorem spec_loadElementAddr (hv : S.Finds v 2) :
    Spec (Edit S) loadElementAddr v fun _ _ ↦ True := by
  unfold loadElementAddr
  refine Spec.read fun index _ ↦ Spec.look (looks_arrayAt 1) fun array d _ _ ↦ ?_
  refine Spec.ofExcept fun i _ ↦ ?_
  split
  · exact spec_raise _ _
  · refine Spec.look (looks_onDomain (Domain.grows_length array)) fun length d' _ _ ↦ ?_
    split
    · have hv' := (hv.withDomain d).withDomain d'
      refine (Spec.pop (hv'.mono (Nat.le_succ 1)).bottom).bind fun _ w hR h ↦ ?_
      refine spec_refineTop array (fun _ ↦ rfl) (fun _ ↦ rfl) ⟨?_, ?_, ?_, ?_⟩
      · have hbottom := hv'.bottom
        rw [h.top]
        omega
      · exact Edits.covers hR hv'.covers
      · exact h.pending.trans hv'.pending
      · exact h.fresh ▸ hv'.fresh
    · exact spec_raise _ _

/-! ### Structs through addresses -/

theorem spec_loadObject (fuel : Nat) (t : TypeId) (hv : S.Finds v 1) :
    Spec (Edit S) (loadObject fuel t) v fun _ _ ↦ True := by
  unfold loadObject
  refine Spec.read fun s hs ↦ ?_
  obtain ⟨htop, hslot⟩ := Stack.topSlot_ok hs
  refine Spec.leads (hv.known Nat.one_pos htop) hslot fun w hlevel hleads ↦ ?_
  refine (spec_loadThrough fuel hleads).quietly fun c w₁ hlevel₁ hcarries ↦ ?_
  have hw₁ := (hv.level hlevel).level hlevel₁
  refine (Spec.pop hw₁.bottom).bind fun _ w₂ hR h ↦ ?_
  exact (spec_pushCarry fuel t (hcarries.mono (Edits.known hR)) (h.pending.trans hw₁.pending)
    fun _ _ ↦ h.fresh ▸ hw₁.fresh).trivially

theorem spec_storeObjectThrough (fuel : Nat) (t : TypeId) (hv : S.Finds v 2) :
    Spec (Edit S) (storeObjectThrough fuel t) v fun _ _ ↦ True := by
  unfold storeObjectThrough
  refine (spec_loadTop hv.covers (hv.mono (Nat.le_succ 1)).bottom).quietly
    fun c w hlevel hcarries ↦ ?_
  have hw := hv.level hlevel
  refine Spec.read fun s hs ↦ ?_
  obtain ⟨htop, hslot⟩ := Stack.peek_ok hs
  refine Spec.leads (hw.known (Nat.lt_succ_self 1) htop) hslot fun w₁ hlevel₁ hleads ↦ ?_
  have hw₁ := hw.level hlevel₁
  refine (spec_storeThrough fuel t hleads (hcarries.mono hlevel₁.known) hw₁.pending hw₁.fresh).bind
    fun stored w₂ hR h ↦ ?_
  cases stored with
  | false => exact spec_raise _ _
  | true => exact (Spec.popMany 2 (h.top ▸ hw₁.bottom)).trivially

/-- The address is taken off, and what it refers to is reset in place. -/
theorem spec_initObject (fuel : Nat) (t : TypeId) (hv : S.Finds v 1) :
    Spec (Edit S) (initObject fuel t) v fun _ _ ↦ True := by
  have hstore (c : Carry) (w : View) (hw : S.Finds w 1) (hc : w.Carries c) : Spec (Edit S) (do
      if ← storeThrough fuel (← top) c t then pop else outsideArray) w fun _ _ ↦ True := by
    refine Spec.read fun s hs ↦ ?_
    obtain ⟨htop, hslot⟩ := Stack.topSlot_ok hs
    refine Spec.leads (hw.known Nat.one_pos htop) hslot fun w₁ hlevel hleads ↦ ?_
    have hw₁ := hw.level hlevel
    refine (spec_storeThrough fuel t hleads (hc.mono hlevel.known) hw₁.pending hw₁.fresh).bind
      fun stored w₂ hR h ↦ ?_
    cases stored with
    | false => exact spec_raise _ _
    | true => exact (Spec.pop (h.top ▸ hw₁.bottom)).trivially
  have hnull (w : View) : w.Carries (.slot .null) := ⟨rfl, rfl, fun _ h ↦ nomatch h⟩
  unfold initObject
  refine Spec.look (looks_descriptor t) fun desc d _ _ ↦ ?_
  dsimp only
  split
  · next p _ => exact hstore _ _ (hv.withDomain d) (View.carries_zero _ p)
  · refine Spec.look (looks_isInline fuel t) fun inline d' _ _ ↦ ?_
    have hv' := (hv.withDomain d).withDomain d'
    split
    · exact Spec.look (looks_onDomain (Domain.grows_defaultValue fuel t)) fun x d'' _ _ ↦
        hstore (.value x) _ (hv'.withDomain d'') trivial
    · exact hstore _ _ hv' (hnull _)

/-! ### Boxes and casts -/

theorem spec_box (fuel : Nat) (t : TypeId)
    (hv : S.Finds v (if isValueType (v.domain.registry.type t) then 1 else 0)) :
    Spec (Edit S) (box fuel t) v fun _ _ ↦ True := by
  unfold box
  refine Spec.looking rfl ?_
  split
  · next hvalue =>
    have hv' : S.Finds v 1 := by
      rw [View.domain, if_pos hvalue] at hv
      exact hv
    refine Spec.look looks_loadTop fun c d _ _ ↦ ?_
    refine Spec.look (looks_carryValue fuel c t) fun x d' _ _ ↦ ?_
    refine (spec_pop ((hv'.withDomain d).withDomain d')).bind fun _ w _ _ ↦ ?_
    exact (Spec.pushObject x).trivially
  · exact Spec.pure trivial

theorem spec_invalidCast {α : Type} (source target : String) :
    Spec (Edit S) (invalidCast source target : RunM α) v fun _ _ ↦ True :=
  spec_raise _ _

/-- The box gives way to the value in it, which may need a block. -/
theorem spec_unbox (fuel : Nat) (t : TypeId) (hv : S.Finds v 1) :
    Spec (Edit S) (unbox fuel t) v fun _ _ ↦ True := by
  unfold unbox
  refine Spec.read fun s _ ↦ Spec.look (looks_referenceValue s) fun x d _ _ ↦ ?_
  split
  · exact (Spec.looks looks_nullReference).trivially
  · refine Spec.look (looks_boxFits x t) fun fits d' _ _ ↦ ?_
    split
    · refine (spec_pop ((hv.withDomain d).withDomain d')).bind fun _ w _ h ↦ ?_
      exact (spec_pushValue fuel x t h.pending).trivially
    · refine Spec.look (looks_onDomain (Domain.grows_typeOfValue x)) fun source d'' _ _ ↦ ?_
      have hcast (name : String) (w : View) : Spec (Edit S) (do
          invalidCast name (← nameOfType t) : RunM Unit) w fun _ _ ↦ True :=
        Spec.look (looks_nameOfType t) fun _ _ _ _ ↦ spec_invalidCast _ _
      cases source with
      | none => exact Spec.pure_bind (hcast "null" _)
      | some t' => exact Spec.look (looks_nameOfType t') fun name _ _ _ ↦ hcast name _

theorem spec_cast (fuel : Nat) (t : TypeId) (strict : Bool) (hv : S.Finds v 1) :
    Spec (Edit S) (cast fuel t strict) v fun _ _ ↦ True := by
  unfold cast
  refine Spec.read fun s _ ↦ Spec.look (looks_referenceValue s) fun x d _ _ ↦ ?_
  refine Spec.look (looks_onDomain (Domain.grows_typeOfValue x)) fun source d' _ _ ↦ ?_
  split
  · exact Spec.pure trivial
  · refine Spec.look (looks_inRegistry (Registry.grows_isAssignable _ _ _)) fun fits d'' _ _ ↦ ?_
    split
    · exact Spec.pure trivial
    · split
      · exact Spec.look (looks_nameOfType _) fun _ _ _ _ ↦
          Spec.look (looks_nameOfType _) fun _ _ _ _ ↦ spec_invalidCast _ _
      · exact spec_replaceBy (((hv.withDomain d).withDomain d').withDomain d'') fun _ _ ↦ trivial

theorem spec_unboxAny (fuel : Nat) (t : TypeId) (hv : S.Finds v 1) :
    Spec (Edit S) (unboxAny fuel t) v fun _ _ ↦ True := by
  unfold unboxAny
  refine Spec.look (looks_descriptor t) fun desc d _ _ ↦ ?_
  split
  · exact spec_unbox fuel t (hv.withDomain d)
  · exact spec_cast fuel t true (hv.withDomain d)

end Engine

end ManagedMachine
