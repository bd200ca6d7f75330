import ManagedMachine.Proofs.StepSpecs
import ManagedMachine.Proofs.TwinCalls

/-!
# Instructions on twins

An instruction goes the same way on twins and leaves twins behind, whatever it is. It keeps the
arguments and the locals of its frame within the set, and what it returns leads there.

One lemma for each instruction on operands. The operands are read at the top of the stack, which is
the same on twins, and what is put in their place was made by the same code from the same values.
-/

set_option autoImplicit false
set_option relaxedAutoImplicit false

namespace ManagedMachine.Engine

variable {α β : Type} {g : Guard} {K : Set Nat} {r r' : Running} {c : Callees}

/-! ### Constructions -/

/-- What a construction does when the type has been initialized. -/
theorem alike_construction (hc : c.Twins) (hg : g.Shields) (h : Running.Twin g K r r')
    (fuel : Nat) (id : MethodId) {m : Method} {argBase : Nat}
    (hargs : ∀ i < m.params.length, argBase + i ∈ K) : Alike (Running.Twin g) K (do
      if m.native?.isSome then callHost c fuel m argBase false
      else if ← isInline fuel m.declaring then do
        let d ← allocInline fuel m.declaring
        Stack.insert argBase (.block d)
        Stack.insert (argBase + 1) (.stackRef argBase)
        let _ ← c.run id (argBase + 1)
      else do
        let object ← (newInstance fuel m.declaring : DomainM ObjectId)
        let entry ← Stack.pushEntry (.object object)
        Stack.insert argBase (.object entry)
        let _ ← c.run id argBase
        Stack.pushObject (.object object)) r r' := by
  have hinsert {K : Set Nat} {r r' : Running} (h : Running.Twin g K r r') (a : Nat) {s : Slot}
      (hs : s.Shown K) : Gives (Running.Twin g) K (Running.onStack (Stack.insert a s)) r r'
      fun K' _ _ ↦ a ∈ K' := h.onStack (h.stack.insert hs)
  split
  · exact alike_callHost hc hg h fuel hargs
  · refine Sees.andThen h (sees_isInline h fuel _) fun inline _ _ _ h _ ↦ ?_
    split
    · refine (gives_allocInline fuel h _).bind fun _ d _ _ _ _ h hd ↦ ?_
      refine (hinsert h argBase (.block hd)).seq fun _ _ _ _ _ h hbase ↦ ?_
      refine (hinsert h (argBase + 1) (.stackRef hbase)).seq fun _ _ _ _ _ h _ ↦ ?_
      exact (hc.run hg h id (argBase + 1)).bind fun _ _ _ _ _ _ h _ ↦ .pure h trivial
    · refine Sees.andThen h (.domain h (grows_newInstance fuel _)) fun object _ _ _ h _ ↦
        (h.pushEntry _).bind fun _ entry _ _ _ _ h _ ↦ ?_
      refine (hinsert h argBase ⟨.of_none rfl, rfl⟩).seq fun _ _ _ _ _ h _ ↦ ?_
      exact (hc.run hg h id argBase).bind fun _ _ _ _ _ _ h _ ↦ h.pushObject _

theorem alike_constructAt (hc : c.Twins) (hg : g.Shields) (h : Running.Twin g K r r') (fuel : Nat)
    (id : MethodId) {argBase : Nat}
    (hargs : ∀ i < (r.domain.registry.method id).params.length, argBase + i ∈ K) :
    Alike (Running.Twin g) K (constructAt c fuel id argBase) r r' := by
  refine Sees.andThen h (.method h id) fun m _ _ _ h hm ↦ ?_
  subst hm
  exact (alike_ensureInitialized hc hg h fuel _).seq fun _ _ _ _ hK h _ ↦
    alike_construction hc hg h fuel id fun i hi ↦ hK (hargs i hi)

/-- The operands of a call are the arguments of its method: nothing is registered in between. -/
theorem domain_operandsBase {id : MethodId} {m : Method} {d d' : Domain} {f : Frame}
    {count base : Nat}
    (hmethod : method id r = .ok m (r.withDomain d))
    (hbase : operandsBase f count (r.withDomain d) = .ok base ((r.withDomain d).withDomain d')) :
    d' = r.domain := by
  have hd : r.domain = d := congrArg Running.domain (EStateM.Result.ok.inj hmethod).2
  exact (congrArg Running.domain (operandsBase_ok hbase).2.2).trans hd.symm

theorem alike_call (hc : c.Twins) (hg : g.Shields) (h : Running.Twin g K r r') (fuel : Nat)
    (f : Frame) (token : Token) (virtual_ : Bool) :
    Alike (Running.Twin g) K (call c fuel f token virtual_) r r' := by
  unfold call
  refine Sees.andThen h (sees_methodOperand h fuel f token) fun found _ _ _ h _ ↦ ?_
  cases found with
  | none => exact h.pop hg
  | some id =>
    refine Sees.andThen h (.method h id) fun m _ hmethod _ h hm ↦
      Sees.andThen h (sees_operandsBase h f _) fun base _ hrun _ h hbase ↦ ?_
    subst hm
    exact alike_callMethod hc hg h fuel (domain_operandsBase hmethod hrun ▸ hbase) virtual_

theorem alike_newObject (hc : c.Twins) (hg : g.Shields) (h : Running.Twin g K r r') (fuel : Nat)
    (f : Frame) (token : Token) : Alike (Running.Twin g) K (newObject c fuel f token) r r' := by
  unfold newObject
  refine Sees.andThen h (sees_methodOperand h fuel f token) fun found _ _ _ h _ ↦ ?_
  cases found with
  | none =>
    exact Sees.andThen h (.registry h (Registry.grows_coreType _)) fun t _ _ _ h _ ↦
      Sees.andThen h (.domain h (Domain.grows_newObject _)) fun v _ _ _ h _ ↦ h.pushObject v
  | some id =>
    refine Sees.andThen h (.method h id) fun m _ hmethod _ h hm ↦
      Sees.andThen h (sees_operandsBase h f _) fun base _ hrun _ h hbase ↦ ?_
    subst hm
    exact alike_constructAt hc hg h fuel id (domain_operandsBase hmethod hrun ▸ hbase)

/-! ### Operands -/

theorem alike_replaceBy (h : Running.Twin g K r r') (hg : g.Shields) (count : Nat) {s : Slot}
    (hs : s.Shown K) : Alike (Running.Twin g) K (replaceBy count s) r r' :=
  (h.popMany hg count).seq fun _ _ _ _ hK h _ ↦ h.push (hs.mono hK)

theorem alike_binary (h : Running.Twin g K r r') (hg : g.Shields) (op : BinaryOp) :
    Alike (Running.Twin g) K (binary op) r r' := by
  unfold binary
  refine Sees.andThen h (sees_top h) fun right _ _ _ h _ ↦
    Sees.andThen h (sees_peek h 1) fun left _ _ _ h _ ↦
      Sees.andThen h (.ofExcept (P := fun result ↦ ∀ s ∈ result, s.Shown K) h
        fun result hop s hs ↦ .of_numeric (BinaryOp.isNumeric_apply (hop.trans (congrArg _ hs))))
        fun result _ _ _ h hresult ↦ ?_
  split
  · exact alike_replaceBy h hg 2 (hresult _ rfl)
  · exact Sees.never h (sees_raise h _ _)

theorem alike_unary (h : Running.Twin g K r r') (hg : g.Shields) {op : Slot → Except Error Slot}
    (hop : ∀ s t, op s = .ok t → t.isNumeric = true) :
    Alike (Running.Twin g) K (unary op) r r' :=
  Sees.andThen h (sees_top h) fun s _ _ _ h _ ↦
    Sees.andThen h (.ofExcept (P := fun t ↦ t.Shown K) h fun t ht ↦ .of_numeric (hop s t ht))
      fun _ _ _ _ h ht ↦ alike_replaceBy h hg 1 ht

theorem alike_pushComparison (h : Running.Twin g K r r') (hg : g.Shields) (op : Comparison) :
    Alike (Running.Twin g) K (pushComparison op) r r' :=
  Sees.andThen h (sees_compareTop h op) fun _ _ _ _ h _ ↦ alike_replaceBy h hg 2 (.of_numeric rfl)

theorem gives_branchIf (h : Running.Twin g K r r') (hg : g.Shields) (expected : Bool)
    (target : UInt32) : Gives (Running.Twin g) K (branchIf expected target) r r'
      fun _ o _ ↦ ∀ v, o ≠ .ret v :=
  Sees.andThen h (sees_top h) fun s _ _ _ h _ ↦ Sees.andThen h (sees_truthy h s) fun _ _ _ _ h _ ↦
    (h.pop hg).seq fun _ _ _ _ _ h _ ↦ .pure h (jumpIf_ne_ret _ target)

theorem gives_branchOn (h : Running.Twin g K r r') (hg : g.Shields) (op : Comparison)
    (target : UInt32) : Gives (Running.Twin g) K (branchOn op target) r r'
      fun _ o _ ↦ ∀ v, o ≠ .ret v :=
  Sees.andThen h (sees_compareTop h op) fun _ _ _ _ h _ ↦
    (h.popMany hg 2).seq fun _ _ _ _ _ h _ ↦ .pure h (jumpIf_ne_ret _ target)

/-- The length is read, and the array made in the heap. -/
theorem alike_newArray (h : Running.Twin g K r r') (hg : g.Shields) (fuel : Nat) (t : TypeId) :
    Alike (Running.Twin g) K (newArray fuel t) r r' := by
  have hrest (length : Int) {r r' : Running} (h : Running.Twin g K r r') :
      Alike (Running.Twin g) K (
        if length < 0 then raise .overflow "Arithmetic operation resulted in an overflow."
        else do
          let items ← newElements fuel t length.toNat
          let type ← (Registry.makeArray t 1 : RegistryM TypeId)
          let array ← (Domain.newObject (.array type items.toArray) : DomainM Value)
          pop
          Stack.pushObject array) r r' := by
    split
    · exact Sees.never h (sees_raise h _ _)
    · exact Sees.andThen h (sees_newElements h fuel t _) fun _ _ _ _ h _ ↦
        Sees.andThen h (.registry h (Registry.Building.makeArray t 1)) fun _ _ _ _ h _ ↦
          Sees.andThen h (.domain h (Domain.grows_newObject _)) fun array _ _ _ h _ ↦
            (h.pop hg).seq fun _ _ _ _ _ h _ ↦ h.pushObject array
  unfold newArray
  refine Sees.andThen h (sees_top h) fun s _ _ _ h _ ↦ ?_
  cases s with
  | int32 v => exact hrest _ h
  | int64 v => exact hrest _ h
  | _ => exact Sees.stops h (.stackFault h _)

theorem alike_loadLength (h : Running.Twin g K r r') (hg : g.Shields) :
    Alike (Running.Twin g) K loadLength r r' := by
  refine Sees.andThen h (sees_arrayAt h 0) fun array _ _ _ h _ ↦
    Sees.andThen h (.domain h (Domain.grows_length array)) fun length _ _ _ h _ ↦ ?_
  split
  · exact alike_replaceBy h hg 1 (.of_numeric rfl)
  · exact .throw h _

theorem alike_indexFault (h : Running.Twin g K r r') (index : Slot) :
    Alike (Running.Twin g) K (indexFault index : RunM α) r r' := Sees.never h (sees_raise h _ _)

theorem alike_loadElement (h : Running.Twin g K r r') (hg : g.Shields) (fuel : Nat) :
    Alike (Running.Twin g) K (loadElement fuel) r r' := by
  unfold loadElement
  refine Sees.andThen h (sees_top h) fun index _ _ _ h _ ↦
    Sees.andThen h (sees_arrayAt h 1) fun array _ _ _ h _ ↦
      Sees.andThen h (sees_elementType h array) fun t _ _ _ h _ ↦
        Sees.andThen h (.ofExcept (P := fun _ ↦ True) h fun _ _ ↦ trivial) fun i _ _ _ h _ ↦ ?_
  split
  · exact alike_indexFault h _
  · refine Sees.andThen h (.domain h (Domain.grows_element? array _)) fun found _ _ _ h _ ↦ ?_
    split
    · exact alike_indexFault h _
    · exact (h.popMany hg 2).seq fun _ _ _ _ _ h _ ↦ alike_pushValue h fuel _ t

/-- Array, index and value. -/
theorem alike_storeElement (h : Running.Twin g K r r') (hg : g.Shields) (fuel : Nat) :
    Alike (Running.Twin g) K (storeElement fuel) r r' := by
  have hrest (index : Slot) (stored : Bool) {r r' : Running} (h : Running.Twin g K r r') :
      Alike (Running.Twin g) K
        (if stored then Running.onStack (Stack.popMany 3) else indexFault index) r r' := by
    split
    · exact h.popMany hg 3
    · exact alike_indexFault h _
  unfold storeElement
  refine Sees.andThen h (sees_peek h 1) fun index _ _ _ h _ ↦
    Sees.andThen h (sees_arrayAt h 2) fun array _ _ _ h _ ↦
      Sees.andThen h (sees_elementType h array) fun t _ _ _ h _ ↦
        Sees.andThen h (sees_loadTop h) fun carry _ _ _ h hcarry ↦
          Sees.andThen h (sees_carryValue h fuel hcarry t) fun v _ _ _ h _ ↦
            Sees.andThen h (.ofExcept (P := fun _ ↦ True) h fun _ _ ↦ trivial) fun i _ _ _ h _ ↦ ?_
  split
  · exact Sees.andThen h (.domain h (Domain.grows_setElement array _ v)) fun stored _ _ _ h _ ↦
      hrest index stored h
  · exact Sees.andThen h (Sees.pure (P := fun _ ↦ True) h trivial) fun stored _ _ _ h _ ↦
      hrest index stored h

theorem alike_refineTop (h : Running.Twin g K r r') (hg : g.Shields) (object : ObjectId)
    {reference : Nat → Slot} (href : ∀ i, (reference i).Shown ∅) :
    Alike (Running.Twin g) K (refineTop object reference) r r' := by
  unfold refineTop
  refine Sees.andThen h (sees_top h) fun s _ _ _ h _ ↦ ?_
  split
  · exact Sees.andThen h (sees_topAddr h) fun a _ _ _ h _ ↦
      h.setSlot ((href _).mono (Set.empty_subset K)) a
  · exact (h.pop hg).seq fun _ _ _ _ _ h _ ↦ h.pushReference _ href

theorem alike_loadElementAddr (h : Running.Twin g K r r') (hg : g.Shields) :
    Alike (Running.Twin g) K loadElementAddr r r' := by
  unfold loadElementAddr
  refine Sees.andThen h (sees_top h) fun index _ _ _ h _ ↦
    Sees.andThen h (sees_arrayAt h 1) fun array _ _ _ h _ ↦
      Sees.andThen h (.ofExcept (P := fun _ ↦ True) h fun _ _ ↦ trivial) fun i _ _ _ h _ ↦ ?_
  split
  · exact alike_indexFault h _
  · refine Sees.andThen h (.domain h (Domain.grows_length array)) fun length _ _ _ h _ ↦ ?_
    split
    · exact (h.pop hg).seq fun _ _ _ _ _ h _ ↦
        alike_refineTop h hg array fun _ ↦ ⟨.of_none rfl, rfl⟩
    · exact alike_indexFault h _

theorem alike_outsideArray (h : Running.Twin g K r r') :
    Alike (Running.Twin g) K (outsideArray : RunM α) r r' := Sees.never h (sees_raise h _ _)

theorem alike_loadObject (h : Running.Twin g K r r') (hg : g.Shields) (fuel : Nat) (t : TypeId) :
    Alike (Running.Twin g) K (loadObject fuel t) r r' :=
  Sees.andThen h (sees_top h) fun _ _ _ _ h hs ↦
    Sees.andThen h (sees_loadThrough h fuel hs.leads) fun _ _ _ _ h hcarry ↦
      (h.pop hg).seq fun _ _ _ _ hK h _ ↦ alike_pushCarry h fuel (hcarry.mono hK) t

theorem alike_storeObjectThrough (h : Running.Twin g K r r') (hg : g.Shields) (fuel : Nat)
    (t : TypeId) : Alike (Running.Twin g) K (storeObjectThrough fuel t) r r' := by
  refine Sees.andThen h (sees_loadTop h) fun carry _ _ _ h hcarry ↦
    Sees.andThen h (sees_peek h 1) fun s _ _ _ h hs ↦
      (alike_storeThrough h fuel hs.leads hcarry t).bind fun _ stored _ _ _ _ h _ ↦ ?_
  split
  · exact h.popMany hg 2
  · exact alike_outsideArray h

/-- What an address refers to is reset. -/
theorem alike_initObject (h : Running.Twin g K r r') (hg : g.Shields) (fuel : Nat) (t : TypeId) :
    Alike (Running.Twin g) K (initObject fuel t) r r' := by
  have hrest {carry : Carry} (hcarry : carry.Leads K) {r r' : Running}
      (h : Running.Twin g K r r') : Alike (Running.Twin g) K (do
        if ← storeThrough fuel (← top) carry t then pop else outsideArray) r r' := by
    refine Sees.andThen h (sees_top h) fun s _ _ _ h hs ↦
      (alike_storeThrough h fuel hs.leads hcarry t).bind fun _ stored _ _ _ _ h _ ↦ ?_
    split
    · exact h.pop hg
    · exact alike_outsideArray h
  have hnull : (Carry.slot .null).Leads K := ⟨.of_none rfl, rfl⟩
  unfold initObject
  refine Sees.andThen h (.descriptor h t) fun d _ _ _ h _ ↦ ?_
  split
  · exact hrest (show Carry.Leads K (.slot _) from shown_of_numeric (Slot.zero_numeric _)) h
  · refine Sees.andThen h (sees_isInline h fuel t) fun inline _ _ _ h _ ↦ ?_
    split
    · exact Sees.andThen h (.domain h (Domain.grows_defaultValue fuel t)) fun v _ _ _ h _ ↦
        hrest (show Carry.Leads K (.value v) from trivial) h
    · exact hrest hnull h

theorem alike_box (h : Running.Twin g K r r') (hg : g.Shields) (fuel : Nat) (t : TypeId) :
    Alike (Running.Twin g) K (box fuel t) r r' := by
  unfold box
  refine Sees.andThen h (.descriptor h t) fun d _ _ _ h _ ↦ ?_
  split
  · exact Sees.andThen h (sees_loadTop h) fun carry _ _ _ h hcarry ↦
      Sees.andThen h (sees_carryValue h fuel hcarry t) fun v _ _ _ h _ ↦
        (h.pop hg).seq fun _ _ _ _ _ h _ ↦ h.pushObject v
  · exact .pure h trivial

/-- The content of a box, as an operand. -/
theorem alike_unbox (h : Running.Twin g K r r') (hg : g.Shields) (fuel : Nat) (t : TypeId) :
    Alike (Running.Twin g) K (unbox fuel t) r r' := by
  unfold unbox
  refine Sees.andThen h (sees_top h) fun s _ _ _ h _ ↦
    Sees.andThen h (sees_referenceValue h s) fun v _ _ _ h _ ↦ ?_
  split
  · exact Sees.never h (sees_nullReference h)
  · refine Sees.andThen h (sees_boxFits h v t) fun fits _ _ _ h _ ↦ ?_
    split
    · exact (h.pop hg).seq fun _ _ _ _ _ h _ ↦ alike_pushValue h fuel v t
    · have hrest (source : String) {r r' : Running} (h : Running.Twin g K r r') :
          Alike (Running.Twin g) K (do invalidCast source (← nameOfType t) : RunM Unit) r r' :=
        Sees.andThen h (sees_nameOfType h t) fun _ _ _ _ h _ ↦ Sees.never h (sees_raise h _ _)
      refine Sees.andThen h (.domain h (Domain.grows_typeOfValue v)) fun source _ _ _ h _ ↦ ?_
      split
      · exact Sees.andThen h (sees_nameOfType h _) fun source _ _ _ h _ ↦ hrest source h
      · exact Sees.andThen h (Sees.pure (P := fun _ ↦ True) h trivial) fun source _ _ _ h _ ↦
          hrest source h

/-- Whether the object has the type is a matter of the domain. -/
theorem alike_cast (h : Running.Twin g K r r') (hg : g.Shields) (fuel : Nat) (t : TypeId)
    (strict : Bool) : Alike (Running.Twin g) K (cast fuel t strict) r r' := by
  unfold cast
  refine Sees.andThen h (sees_top h) fun s _ _ _ h _ ↦
    Sees.andThen h (sees_referenceValue h s) fun v _ _ _ h _ ↦
      Sees.andThen h (.domain h (Domain.grows_typeOfValue v)) fun actual _ _ _ h _ ↦ ?_
  split
  · exact .pure h trivial
  · refine Sees.andThen h (.registry h (Registry.grows_isAssignable fuel _ t))
      fun fits _ _ _ h _ ↦ ?_
    split
    · exact .pure h trivial
    · split
      · exact Sees.andThen h (sees_nameOfType h _) fun _ _ _ _ h _ ↦
          Sees.andThen h (sees_nameOfType h t) fun _ _ _ _ h _ ↦ Sees.never h (sees_raise h _ _)
      · exact alike_replaceBy h hg 1 ⟨.of_none rfl, rfl⟩

theorem alike_unboxAny (h : Running.Twin g K r r') (hg : g.Shields) (fuel : Nat) (t : TypeId) :
    Alike (Running.Twin g) K (unboxAny fuel t) r r' := by
  unfold unboxAny
  refine Sees.andThen h (.descriptor h t) fun d _ _ _ h _ ↦ ?_
  split
  · exact alike_unbox h hg fuel t
  · exact alike_cast h hg fuel t true

/-- The address of a field of what the operand refers to. -/
theorem alike_loadFieldAddr (h : Running.Twin g K r r') (hg : g.Shields) (fuel : Nat)
    (field : Field) : Alike (Running.Twin g) K (loadFieldAddr fuel field) r r' := by
  unfold loadFieldAddr
  split
  · exact Sees.andThen h (sees_fieldKey h field) fun _ _ _ _ h _ ↦ .throw h _
  · refine Sees.andThen h (sees_top h) fun s _ _ _ h hs ↦ ?_
    split
    · exact Sees.andThen h (sees_fieldKey h field) fun _ _ _ _ h _ ↦ .throw h _
    · refine Sees.andThen h (sees_targetOf fuel h hs.leads) fun target _ _ _ h htarget ↦ ?_
      cases target with
      | null => exact Sees.never h (sees_nullReference h)
      | block d =>
        refine Sees.andThen h (.of_read h (h.stack.fieldAddr htarget _)) fun addr _ _ _ h haddr ↦ ?_
        exact alike_replaceBy h hg 1 (.stackRef (h.stack.mem_fieldAddr htarget haddr))
      | object id => exact alike_refineTop h hg id fun _ ↦ ⟨.of_none rfl, rfl⟩

/-- What a method returns leads to the set. -/
theorem gives_returnValue (h : Running.Twin g K r r') (hg : g.Shields) (fuel : Nat) (f : Frame) :
    Gives (Running.Twin g) K (returnValue fuel f) r r'
      fun K' result _ ↦ ∀ carry ∈ result, carry.Leads K' := by
  unfold returnValue
  refine Sees.andThen h (.descriptor h _) fun ret _ _ _ h _ ↦ ?_
  split
  · exact .pure h nofun
  · refine Sees.andThen h (sees_loadTop h) fun carry _ _ _ h hcarry ↦
      Sees.andThen h (sees_detach h fuel hcarry) fun carry _ _ _ h hcarry ↦
        (h.pop hg).seq fun _ _ _ _ hK h _ ↦ .pure h fun returned hreturned ↦ ?_
    obtain rfl := Option.some.inj hreturned
    exact hcarry.mono hK

end ManagedMachine.Engine
