import ManagedMachine.Proofs.Looking

/-!
# Work that calls nothing

What the engine does without calling a method changes the interpreter and lets the domain grow. It
neither starts nor ends a type initializer, so `Works` says of it that every relation of the kind
`Domain.Growth` holds between the domains before and after. The interpreter stays the same one, with
another stack and other frames.
-/

set_option autoImplicit false
set_option relaxedAutoImplicit false

namespace ManagedMachine

/-- The domains of two machines are related, and both run on one interpreter, whatever its state. -/
structure Running.Across (Q : Domain → Domain → Prop) (r r' : Running) : Prop where
  domain : Q r.domain r'.domain
  id : r'.interpreter.id = r.interpreter.id

theorem Running.Across.mono {P Q : Domain → Domain → Prop} {r r' : Running}
    (hPQ : ∀ d d', P d d' → Q d d') (h : Running.Across P r r') : Running.Across Q r r' :=
  ⟨hPQ _ _ h.domain, h.id⟩

variable {α β : Type} {Q : Domain → Domain → Prop}

theorem works_onDomain {x : DomainM α} (hx : Keeps Q x) :
    Keeps (Running.Across Q) (Running.onDomain x) := by
  intro ⟨d, i⟩
  rw [Engine.endState_onDomain]
  exact ⟨hx d, rfl⟩

variable [Domain.Growth Q]

instance : Running.Looking (Running.Across Q) where
  refl r := ⟨refl_of Q r.domain, rfl⟩
  trans _ _ _ h h' := ⟨trans_of Q h.domain h'.domain, h'.id.trans h.id⟩
  idle h _ := ⟨Domain.Growth.idle h, rfl⟩

/-- Work on an interpreter that relates the domains before and after. -/
abbrev Works (Q : Domain → Domain → Prop) (x : RunM α) : Prop := Keeps (Running.Across Q) x

namespace Engine

/-! ### The stack -/

theorem works_onStack (x : StackM α) : Works Q (Running.onStack x) := by
  intro ⟨d, id, stack, frames⟩
  unfold endState Running.onStack
  cases h : x stack <;> simp only [h] <;> exact ⟨refl_of Q d, rfl⟩

/-- What is done afterwards is work as well. -/
theorem works_afterwards {x : RunM α} {y : RunM Unit} (hx : Works Q x) (hy : Works Q y) :
    Works Q (afterwards x y) := by
  intro r
  have hfirst := hx r
  unfold endState afterwards at *
  cases h : x r with
  | ok a r' =>
    have hlast := hy r'
    unfold endState at hlast
    rw [h] at hfirst
    dsimp only
    cases h' : y r' <;> rw [h'] at hlast <;> exact trans_of (Running.Across Q) hfirst hlast
  | error e r' =>
    have hlast := hy r'
    unfold endState at hlast
    rw [h] at hfirst
    dsimp only
    cases h' : y r' <;> rw [h'] at hlast <;> exact trans_of (Running.Across Q) hfirst hlast

/-! ### Blocks -/

theorem works_freshSlot {alloc : TypeId → RunM Nat} (halloc : ∀ t, Works Q (alloc t)) (fuel : Nat)
    (t : TypeId) : Works Q (freshSlot alloc fuel t) := by
  unfold freshSlot
  refine (looks_descriptor t).bind fun d ↦ ?_
  split
  · exact .pure _
  · refine (looks_isInline fuel t).bind fun inline ↦ ?_
    split
    · exact (halloc t).bind fun _ ↦ .pure _
    · split
      · exact (looks_onDomain (Domain.grows_defaultValue fuel t)).bind fun _ ↦
          (works_onStack _).bind fun _ ↦ .pure _
      · exact (Keeps.pure (R := Running.Across Q) Value.null).bind fun _ ↦
          (works_onStack _).bind fun _ ↦ .pure _

theorem works_writeFields (d : Nat) (slots : List Slot) : Works Q (writeFields d slots) := by
  refine .forM ?_ _
  rintro ⟨slot, i⟩
  exact works_onStack _

theorem works_resetBound (binder : StructBinder) (t : TypeId) (d : Nat) :
    Works Q (resetBound binder t d) := by
  unfold resetBound
  refine (works_writeFields d _).bind fun _ ↦ (looks_descriptor t).bind fun _ ↦ ?_
  split
  · exact (looks_ofExcept _).bind fun _ ↦ works_writeFields d _
  · exact .pure _

theorem works_allocInline : (fuel : Nat) → (t : TypeId) → Works Q (allocInline fuel t)
  | 0, _ => .throw _
  | fuel + 1, t => by
    unfold allocInline
    refine (looks_inlineKind fuel t).bind fun kind ↦ ?_
    split
    · exact (works_onStack _).bind fun d ↦ (works_resetBound _ t d).bind fun _ ↦ .pure _
    · refine (works_onStack _).bind fun d ↦ Keeps.bind (.forM ?_ _) fun _ ↦ .pure _
      rintro ⟨f, i⟩
      exact (works_freshSlot (works_allocInline fuel) fuel f.type).bind fun _ ↦ works_onStack _
    · exact looks_notInline t

theorem works_copyField {copy : Nat → Nat → RunM Unit} (hcopy : ∀ src dst, Works Q (copy src dst))
    (fuel src dst i : Nat) : Works Q (copyField copy fuel src dst i) := by
  unfold copyField
  refine (looks_read _).bind fun source ↦ (looks_read _).bind fun current ↦ ?_
  split
  · exact hcopy _ _
  · exact looks_stackFault _
  · exact looks_stackFault _
  · exact (looks_read _).bind fun _ ↦ (looks_sharedOrCopied fuel _).bind fun _ ↦ works_onStack _
  · exact works_onStack _
  · exact works_onStack _

theorem works_copyBlock : (fuel src dst : Nat) → Works Q (copyBlock fuel src dst)
  | 0, _, _ => .throw _
  | fuel + 1, src, dst => by
    unfold copyBlock
    split
    · exact .pure _
    · refine (looks_read _).bind fun source ↦ (looks_read _).bind fun target ↦ ?_
      refine (looks_askDomain _).bind fun checked ↦ ?_
      split
      · exact looks_castMismatch _ _
      · exact .forM (fun _ ↦ works_copyField (works_copyBlock fuel) fuel src dst _) _

theorem works_writeLocation {box : Nat → Value → RunM Unit} (hbox : ∀ d v, Works Q (box d v))
    (fuel addr : Nat) (v : Value) (t : TypeId) : Works Q (writeLocation box fuel addr v t) := by
  unfold writeLocation
  refine (looks_read _).bind fun current ↦ ?_
  split
  · exact hbox _ _
  · refine (looks_descriptor t).bind fun d ↦ ?_
    split
    · exact (looks_ofExcept _).bind fun _ ↦ works_onStack _
    · exact (looks_sharedOrCopied fuel v).bind fun _ ↦ works_onStack _

/-- By recursion on the depth of the struct. -/
theorem works_writeBoxed : (fuel d : Nat) → (v : Value) → Works Q (writeBoxed fuel d v)
  | 0, _, _ => .throw _
  | fuel + 1, d, v => by
    unfold writeBoxed
    refine (looks_read _).bind ?_
    rintro ⟨type, count⟩
    refine (looks_typeAt type).bind fun t ↦ (looks_inlineKind fuel t).bind fun kind ↦ ?_
    split
    · split
      · exact works_resetBound _ t d
      · exact (looks_checkBox t _).bind fun _ ↦ (looks_boundSlots _ t _).bind fun _ ↦
          works_writeFields d _
      · exact looks_notBoxed _ t
    · have hwrite (f : Field) (i : Nat) (v : Value) :
          Works Q (writeLocation (writeBoxed fuel) fuel (d - 1 - i) v f.type) :=
        works_writeLocation (works_writeBoxed fuel) fuel _ _ _
      split
      · refine .forM ?_ _
        rintro ⟨f, i⟩
        exact (looks_onDomain (Domain.grows_defaultValue fuel f.type)).bind fun _ ↦ hwrite f i _
      · refine (looks_checkBox t _).bind fun _ ↦
          (looks_onDomain (Domain.grows_instanceFields _)).bind fun values ↦ .forM ?_ _
        rintro ⟨f, i⟩
        exact hwrite f i _
      · refine (looks_notBoxed _ t).bind fun fields ↦ .forM ?_ _
        rintro ⟨f, i⟩
        cases fields with
        | some values => exact hwrite f i _
        | none =>
          exact (looks_onDomain (Domain.grows_defaultValue fuel f.type)).bind fun _ ↦ hwrite f i _
    · exact looks_notInline t

theorem works_materialize (fuel : Nat) (v : Value) (t : TypeId) : Works Q (materialize fuel v t) :=
  (works_allocInline fuel t).bind fun d ↦ (works_writeBoxed fuel d v).bind fun _ ↦ .pure _

/-- Pushing a value may take blocks for it. -/
theorem works_pushValue (fuel : Nat) (v : Value) (t : TypeId) : Works Q (pushValue fuel v t) := by
  unfold pushValue
  refine (looks_descriptor t).bind fun d ↦ ?_
  split
  · exact .pure _
  · exact (looks_ofExcept _).bind fun _ ↦ works_onStack _
  · refine (looks_isInline fuel t).bind fun inline ↦ ?_
    split
    · exact (works_materialize fuel v t).bind fun _ ↦ works_onStack _
    · split
      · exact (looks_sharedOrCopied fuel v).bind fun _ ↦ works_onStack _
      · exact works_onStack _

/-! ### Carries -/

theorem works_copyOfBlock (fuel d : Nat) : Works Q (copyOfBlock fuel d) :=
  (looks_read _).bind fun _ ↦ (looks_typeAt _).bind fun t ↦ (works_allocInline fuel t).bind
    fun copy ↦ (works_copyBlock fuel d copy).bind fun _ ↦ .pure _

theorem works_pushCopy (fuel addr : Nat) : Works Q (pushCopy fuel addr) := by
  unfold pushCopy
  refine (looks_read _).bind fun s ↦ ?_
  split
  · exact (looks_read _).bind fun _ ↦ (looks_sharedOrCopied fuel _).bind fun _ ↦ works_onStack _
  · exact (works_copyOfBlock fuel _).bind fun _ ↦ works_onStack _
  · exact (looks_read _).bind fun _ ↦ (works_onStack _).bind fun _ ↦ works_onStack _
  · exact (looks_read _).bind fun _ ↦ (works_onStack _).bind fun _ ↦ works_onStack _
  · exact looks_stackFault _
  · exact works_onStack _

/-- So may pushing what was carried. -/
theorem works_pushCarry (fuel : Nat) (c : Carry) (t : TypeId) : Works Q (pushCarry fuel c t) := by
  unfold pushCarry
  cases c with
  | slot s =>
    cases s with
    | int32 x =>
      refine (looks_descriptor t).bind fun d ↦ ?_
      split <;> exact works_onStack _
    | null =>
      refine (looks_isInline fuel t).bind fun inline ↦ ?_
      split
      · exact (works_allocInline fuel t).bind fun _ ↦ works_onStack _
      · exact works_onStack _
    | _ => exact works_onStack _
  | value v => exact works_pushValue fuel v t
  | block d => exact (works_copyOfBlock fuel d).bind fun _ ↦ works_onStack _
  | fieldRef object field => exact (works_onStack _).bind fun _ ↦ works_onStack _
  | elementRef array index => exact (works_onStack _).bind fun _ ↦ works_onStack _

theorem works_storeValue (fuel addr : Nat) (current : Slot) (v : Value) :
    Works Q (storeValue fuel addr current v) := by
  unfold storeValue
  split
  · exact works_writeBoxed fuel _ v
  · exact works_onStack _
  · exact works_onStack _
  · split <;> exact works_onStack _

theorem works_storeInto (fuel addr : Nat) (c : Carry) : Works Q (storeInto fuel addr c) := by
  unfold storeInto
  refine (looks_read _).bind fun current ↦ ?_
  split
  · split
    · exact works_copyBlock fuel _ _
    · exact (looks_snapshot fuel _).bind fun _ ↦ works_onStack _
  · exact works_storeValue fuel addr current _
  · split
    · exact works_onStack _
    · exact works_writeBoxed fuel _ _
    · exact works_onStack _
  · exact (works_onStack _).bind fun _ ↦ works_onStack _
  · exact (works_onStack _).bind fun _ ↦ works_onStack _

theorem works_storeTop (fuel addr : Nat) : Works Q (storeTop fuel addr) :=
  looks_loadTop.bind fun c ↦ (works_storeInto fuel addr c).bind fun _ ↦ works_onStack _

theorem works_storeIntoBlock (fuel d : Nat) (c : Carry) : Works Q (storeIntoBlock fuel d c) := by
  unfold storeIntoBlock
  split
  · exact works_copyBlock fuel _ d
  · exact works_writeBoxed fuel d _
  · exact works_writeBoxed fuel d _
  · exact looks_stackFault _

/-- A store through a reference changes the stack or the heap. -/
theorem works_storeThrough (fuel : Nat) (s : Slot) (c : Carry) (t : TypeId) :
    Works Q (storeThrough fuel s c t) := by
  unfold storeThrough
  split
  · refine (looks_read _).bind fun inner ↦ ?_
    split
    · exact (works_storeIntoBlock fuel _ c).bind fun _ ↦ .pure _
    · exact (works_storeInto fuel _ c).bind fun _ ↦ .pure _
  · refine (looks_carryValue fuel c t).bind fun v ↦ (looks_read _).bind fun target ↦ ?_
    split
    · exact (looks_onDomain (Domain.grows_setField _ _ _)).bind fun _ ↦ .pure _
    · exact looks_stackFault _
  · refine (looks_carryValue fuel c t).bind fun v ↦ (looks_read _).bind fun target ↦ ?_
    split
    · exact looks_onDomain (Domain.grows_setElement _ _ _)
    · exact looks_stackFault _
  · exact (looks_carryValue fuel c t).bind fun v ↦ (looks_typeAt _).bind fun _ ↦
      (looks_onDomain (Domain.grows_setStatic fuel _ _ _)).bind fun _ ↦ .pure _
  · exact looks_stackFault _

/-! ### Operands -/

theorem works_replaceBy (count : Nat) (s : Slot) : Works Q (replaceBy count s) :=
  (works_onStack _).bind fun _ ↦ works_onStack _

theorem works_binary (op : BinaryOp) : Works Q (binary op) := by
  unfold binary
  refine looks_top.bind fun right ↦ (looks_peek 1).bind fun left ↦ ?_
  refine (looks_ofExcept _).bind fun result ↦ ?_
  split
  · exact works_replaceBy 2 _
  · exact looks_raise _ _

theorem works_unary (op : Slot → Except Error Slot) : Works Q (unary op) :=
  looks_top.bind fun _ ↦ (looks_ofExcept _).bind fun _ ↦ works_replaceBy 1 _

theorem works_pushComparison (op : Comparison) : Works Q (pushComparison op) :=
  (looks_compareTop op).bind fun _ ↦ works_replaceBy 2 _

theorem works_branchIf (expected : Bool) (target : UInt32) : Works Q (branchIf expected target) :=
  looks_top.bind fun s ↦ (looks_truthy s).bind fun _ ↦ (works_onStack _).bind fun _ ↦ .pure _

theorem works_branchOn (op : Comparison) (target : UInt32) : Works Q (branchOn op target) :=
  (looks_compareTop op).bind fun _ ↦ (works_onStack _).bind fun _ ↦ .pure _

/-- An array is made in the heap. -/
theorem works_newArray (fuel : Nat) (t : TypeId) : Works Q (newArray fuel t) := by
  have hrest (length : Int) : Works Q (
      if length < 0 then raise .overflow "Arithmetic operation resulted in an overflow."
      else do
        let items ← newElements fuel t length.toNat
        let type ← (Registry.makeArray t 1 : RegistryM TypeId)
        let array ← (Domain.newObject (.array type items.toArray) : DomainM Value)
        pop
        Stack.pushObject array) := by
    split
    · exact looks_raise _ _
    · exact (looks_newElements fuel t _).bind fun _ ↦
        (looks_inRegistry (Registry.Building.makeArray t 1)).bind fun _ ↦
        (looks_onDomain (Domain.grows_newObject _)).bind fun _ ↦
        (works_onStack _).bind fun _ ↦ works_onStack _
  unfold newArray
  refine looks_top.bind fun s ↦ ?_
  cases s with
  | int32 v => exact hrest _
  | int64 v => exact hrest _
  | _ => exact (looks_stackFault _).bind hrest

theorem works_loadLength : Works Q loadLength := by
  refine (looks_arrayAt 0).bind fun array ↦ (looks_onDomain (Domain.grows_length array)).bind
    fun length ↦ ?_
  split
  · exact works_replaceBy 1 _
  · exact looks_stackFault _

theorem works_loadElement (fuel : Nat) : Works Q (loadElement fuel) := by
  unfold loadElement
  refine looks_top.bind fun index ↦ (looks_arrayAt 1).bind fun array ↦ ?_
  refine (looks_elementType array).bind fun t ↦ (looks_ofExcept _).bind fun i ↦ ?_
  split
  · exact looks_indexFault _
  · refine (looks_onDomain (Domain.grows_element? array _)).bind fun found ↦ ?_
    split
    · exact looks_indexFault _
    · exact (works_onStack _).bind fun _ ↦ works_pushValue fuel _ t

theorem works_storeElement (fuel : Nat) : Works Q (storeElement fuel) := by
  have hrest (index : Slot) (stored : Bool) :
      Works Q (if stored then Running.onStack (Stack.popMany 3) else indexFault index) := by
    split
    · exact works_onStack _
    · exact looks_indexFault _
  unfold storeElement
  refine (looks_peek 1).bind fun index ↦ (looks_arrayAt 2).bind fun array ↦ ?_
  refine (looks_elementType array).bind fun t ↦ looks_loadTop.bind fun carry ↦ ?_
  refine (looks_carryValue fuel carry t).bind fun v ↦ (looks_ofExcept _).bind fun i ↦ ?_
  split
  · exact (looks_onDomain (Domain.grows_setElement array _ v)).bind fun _ ↦ hrest index _
  · exact (Keeps.pure _).bind fun _ ↦ hrest index _

theorem works_refineTop (object : ObjectId) (reference : Nat → Slot) :
    Works Q (refineTop object reference) := by
  unfold refineTop
  refine looks_top.bind fun s ↦ ?_
  split
  · exact (looks_read _).bind fun _ ↦ works_onStack _
  · exact (works_onStack _).bind fun _ ↦ (works_onStack _).bind fun _ ↦ works_onStack _

theorem works_loadElementAddr : Works Q loadElementAddr := by
  unfold loadElementAddr
  refine looks_top.bind fun index ↦ (looks_arrayAt 1).bind fun array ↦ ?_
  refine (looks_ofExcept _).bind fun i ↦ ?_
  split
  · exact looks_indexFault _
  · refine (looks_onDomain (Domain.grows_length array)).bind fun length ↦ ?_
    split
    · exact (works_onStack _).bind fun _ ↦ works_refineTop array _
    · exact looks_indexFault _

theorem works_loadObject (fuel : Nat) (t : TypeId) : Works Q (loadObject fuel t) :=
  looks_top.bind fun s ↦ (looks_loadThrough fuel s).bind fun carry ↦ (works_onStack _).bind
    fun _ ↦ works_pushCarry fuel carry t

theorem works_storeObjectThrough (fuel : Nat) (t : TypeId) :
    Works Q (storeObjectThrough fuel t) := by
  refine looks_loadTop.bind fun carry ↦ (looks_peek 1).bind fun s ↦ ?_
  refine (works_storeThrough fuel s carry t).bind fun stored ↦ ?_
  split
  · exact works_onStack _
  · exact looks_outsideArray

theorem works_initObject (fuel : Nat) (t : TypeId) : Works Q (initObject fuel t) := by
  have hrest (carry : Carry) : Works Q (do
      if ← storeThrough fuel (← top) carry t then pop else outsideArray) := by
    refine looks_top.bind fun s ↦ (works_storeThrough fuel s carry t).bind fun stored ↦ ?_
    split
    · exact works_onStack _
    · exact looks_outsideArray
  unfold initObject
  refine (looks_descriptor t).bind fun d ↦ ?_
  split
  · exact hrest _
  · refine (looks_isInline fuel t).bind fun inline ↦ ?_
    split
    · exact (looks_onDomain (Domain.grows_defaultValue fuel t)).bind fun _ ↦ hrest _
    · exact hrest _

theorem works_box (fuel : Nat) (t : TypeId) : Works Q (box fuel t) := by
  unfold box
  refine (looks_descriptor t).bind fun d ↦ ?_
  split
  · exact looks_loadTop.bind fun carry ↦ (looks_carryValue fuel carry t).bind fun v ↦
      (works_onStack _).bind fun _ ↦ works_onStack _
  · exact .pure _

theorem works_unbox (fuel : Nat) (t : TypeId) : Works Q (unbox fuel t) := by
  unfold unbox
  refine looks_top.bind fun s ↦ (looks_referenceValue s).bind fun v ↦ ?_
  split
  · exact looks_nullReference
  · refine (looks_boxFits v t).bind fun fits ↦ ?_
    split
    · exact (works_onStack _).bind fun _ ↦ works_pushValue fuel v t
    · have hrest (source : String) : Works Q (do invalidCast source (← nameOfType t) : RunM Unit) :=
        (looks_nameOfType t).bind fun _ ↦ looks_invalidCast _ _
      refine (looks_onDomain (Domain.grows_typeOfValue v)).bind fun source ↦ ?_
      split
      · exact (looks_nameOfType _).bind hrest
      · exact (Keeps.pure _).bind hrest

theorem works_cast (fuel : Nat) (t : TypeId) (strict : Bool) : Works Q (cast fuel t strict) := by
  unfold cast
  refine looks_top.bind fun s ↦ (looks_referenceValue s).bind fun v ↦ ?_
  refine (looks_onDomain (Domain.grows_typeOfValue v)).bind fun actual ↦ ?_
  split
  · exact .pure _
  · refine (looks_inRegistry (Registry.grows_isAssignable fuel _ t)).bind fun fits ↦ ?_
    split
    · exact .pure _
    · split
      · exact (looks_nameOfType _).bind fun _ ↦ (looks_nameOfType t).bind fun _ ↦
          looks_invalidCast _ _
      · exact works_replaceBy 1 _

theorem works_unboxAny (fuel : Nat) (t : TypeId) : Works Q (unboxAny fuel t) := by
  unfold unboxAny
  refine (looks_descriptor t).bind fun d ↦ ?_
  split
  · exact works_unbox fuel t
  · exact works_cast fuel t true

/-! ### Frames -/

theorem works_loadFieldAddr (fuel : Nat) (field : Field) : Works Q (loadFieldAddr fuel field) := by
  unfold loadFieldAddr
  split
  · exact (looks_fieldKey field).bind fun _ ↦ .throw _
  · refine looks_top.bind fun s ↦ ?_
    split
    · exact (looks_fieldKey field).bind fun _ ↦ .throw _
    · refine (looks_targetOf fuel s).bind fun target ↦ ?_
      cases target with
      | null => exact looks_nullReference
      | block d => exact (looks_read _).bind fun _ ↦ works_replaceBy 1 _
      | object id => exact works_refineTop id _

theorem works_returnValue (fuel : Nat) (f : Frame) : Works Q (returnValue fuel f) := by
  unfold returnValue
  refine (looks_descriptor _).bind fun ret ↦ ?_
  split
  · exact .pure _
  · exact looks_loadTop.bind fun carry ↦ (looks_detach fuel carry).bind fun _ ↦
      (works_onStack _).bind fun _ ↦ .pure _

theorem works_finish (f : Frame) (resume : Resume) : Works Q (finish f resume) := by
  cases resume with
  | leave target => exact .pure _
  | «catch» c raised => exact (works_onStack _).bind fun _ ↦ (works_onStack _).bind fun _ ↦ .pure _
  | propagate raised => exact .pure _

theorem works_unwind (f : Frame) (clauses : List Nat) (resume : Resume) :
    Works Q (unwind f clauses resume) := by
  unfold unwind
  split
  · exact works_finish f resume
  · exact .pure _

theorem works_handleException (fuel : Nat) (f : Frame) (addr : Nat) (raised : Raised) :
    Works Q (handleException fuel f addr raised) :=
  (looks_withTrace raised).bind fun raised ↦
    (looks_selectCatch (fun _ ↦ looks_catchFit fuel f raised.value) _ addr).bind fun _ ↦
      (works_onStack _).bind fun _ ↦ works_unwind _ _ _

theorem works_leave (f : Frame) (addr target : Nat) : Works Q (leave f addr target) :=
  (works_onStack _).bind fun _ ↦ works_unwind _ _ _

theorem works_endFinally (f : Frame) : Works Q (endFinally f) := by
  unfold endFinally
  split
  · exact (looks_fullName _).bind fun _ ↦ .throw _
  · exact (works_onStack _).bind fun _ ↦ .pure _
  · exact works_finish _ _

theorem works_onward (f : Frame) {x : RunM Unit} (hx : Works Q x) : Works Q (onward f x) :=
  hx.bind fun _ ↦ .pure _

theorem works_arrive {x : RunM (Arrival × Frame)} (hx : Works Q x) : Works Q (arrive x) := by
  refine hx.bind ?_
  rintro ⟨arrival, f⟩
  cases arrival <;> exact .pure _

theorem works_dispatch (fuel : Nat) (f : Frame) (addr : Nat) (raised : Raised) :
    Works Q (dispatch fuel f addr raised) := by
  refine (works_handleException fuel f addr raised).bind ?_
  rintro ⟨arrival, f⟩
  cases arrival with
  | «at» addr => exact .pure _
  | raise raised => exact .throw _

theorem works_ownArguments (m : Method) (argBase : Nat) : Works Q (ownArguments m argBase) := by
  refine .forM ?_ _
  rintro ⟨t, i⟩
  refine (looks_descriptor t).bind fun d ↦ ?_
  split
  · refine (looks_read _).bind fun s ↦ ?_
    split
    · exact (works_onStack _).bind fun _ ↦ works_onStack _
    · exact .pure _
  · exact .pure _

theorem works_openFrame (fuel : Nat) (id : MethodId) (m : Method) (body : Body) (home : ModuleId)
    (argBase : Nat) : Works Q (openFrame fuel id m body home argBase) := by
  have hslot (t : TypeId) : Works Q (do push (← defaultSlot fuel t)) :=
    (works_freshSlot (works_allocInline fuel) fuel t).bind fun _ ↦ works_onStack _
  refine Keeps.bind ?_ ?_
  rotate_left
  · rintro ⟨localBase, localCount⟩
    exact (works_onStack _).bind fun _ ↦ (looks_ask _).bind fun _ ↦ .pure _
  refine (looks_ask _).bind fun found ↦ ?_
  split
  · exact (looks_fullName m).bind fun _ ↦ looks_stackFault _
  · exact (works_ownArguments m argBase).bind fun _ ↦
      (looks_inRegistry (Registry.grows_localsOf id)).bind fun locals ↦
        (looks_ask _).bind fun _ ↦ (Keeps.forM hslot locals).bind fun _ ↦ .pure _

end Engine

end ManagedMachine
