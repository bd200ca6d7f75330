import ManagedMachine.Engine.Stream
import ManagedMachine.Proofs.Moments
import ManagedMachine.Proofs.Working

/-!
# What every run keeps

Running code gets on with type initializers only where it initializes a type; everything else that
it does to a domain is growth of the kind that `Domain.Growth` is about, and loans of interpreters.
A relation between domains that holds for these and for every initialization therefore holds for
whole runs: for methods and for everything that the host starts. `Leads` says the same of the
domains on the way, where code makes its calls, and `along_of_leads` of every instruction in a run.

`works_step` and `works_advance` are for one instruction, given that calls are no more than work,
and a run is the induction on the depth of calls. The host starts runs in several ways, all of which
borrow an interpreter and give it back (`keeps_invoke` and its siblings).
-/

set_option autoImplicit false
set_option relaxedAutoImplicit false

namespace ManagedMachine

variable {α β : Type} {Q : Domain → Domain → Prop}

/-- What code may call relates the domains before and after, and so does every initialization. -/
structure Callees.Work (Q : Domain → Domain → Prop) (c : Callees) : Prop where
  run : ∀ id a, Works Q (c.run id a)
  serve : ∀ r, Keeps Q (c.serve r)
  init : ∀ fuel t, Works Q (Engine.ensureInitialized c fuel t)

theorem Callees.Work.mono {P : Domain → Domain → Prop} {c : Callees} (h : c.Work P)
    (hPQ : ∀ d d', P d d' → Q d d') : c.Work Q :=
  ⟨fun id a ↦ (h.run id a).mono fun _ _ ↦ .mono hPQ, fun r ↦ (h.serve r).mono hPQ,
    fun fuel t ↦ (h.init fuel t).mono fun _ _ ↦ .mono hPQ⟩

/-- The same for code that leaves a result behind. -/
def Running.AcrossWith (β : Type) (Q : Domain → Domain → Prop) (p p' : Running × β) : Prop :=
  Running.Across Q p.1 p'.1

variable [Domain.Lending Q]

instance : IsPreorder (Running × β) (Running.AcrossWith β Q) where
  refl p := refl_of (Running.Across Q) p.1
  trans _ _ _ := trans_of (Running.Across Q)

namespace Engine

variable {c : Callees}

/-! ### Initialization -/

/-- Calls the initializer of a type, if it has one. -/
def runInitializer (c : Callees) (t : TypeId) : RunM Unit := do
  match ← Registry.typeInitializer t with
  | some initializer => do
    let _ ← c.run initializer (← ask Stack.top)
  | none => pure ()

theorem works_runInitializer (hrun : ∀ id a, Works Q (c.run id a)) (t : TypeId) :
    Works Q (runInitializer c t) := by
  refine Keeps.bind (looks_inRegistry (Registry.grows_typeInitializer t)) fun found ↦ ?_
  cases found with
  | some initializer => exact (looks_ask _).bind fun a ↦ (hrun initializer a).bind fun _ ↦ .pure _
  | none => exact .pure _

theorem works_ensureInitialized (hrun : ∀ id a, Works Q (c.run id a)) {fuel : Nat} {t : TypeId}
    (hbegin : Keeps Q (Domain.beginInitialization fuel t))
    (hfinish : Keeps Q (Domain.finishInitialization fuel t)) :
    Works Q (ensureInitialized c fuel t) := by
  refine (works_onDomain hbegin).bind fun first ↦ ?_
  split
  · exact works_afterwards (works_runInitializer hrun t) (works_onDomain hfinish)
  · exact .pure _

omit [Domain.Lending Q] in
/-- It is enough to know what becomes of the domain. -/
theorem works_ensureInitialized_of (hrun : ∀ id a, Works Q (c.run id a)) {fuel : Nat} {t : TypeId}
    (h : ∀ r, Q r.domain (endState (ensureInitialized c fuel t) r).domain) :
    Works Q (ensureInitialized c fuel t) := by
  have : Domain.Lending fun _ _ ↦ True :=
    { refl := fun _ ↦ trivial
      trans := fun _ _ _ _ _ ↦ trivial
      idle := fun _ ↦ trivial
      lend := fun _ _ ↦ trivial }
  have hany : Works (fun _ _ ↦ True) (ensureInitialized c fuel t) :=
    works_ensureInitialized (fun id a ↦ (hrun id a).mono fun _ _ ↦ .mono fun _ _ _ ↦ trivial)
      (fun _ ↦ trivial) (fun _ ↦ trivial)
  exact fun r ↦ ⟨h r, (hany r).id⟩

/-! ### Host code -/

omit [Domain.Lending Q] in
theorem works_keeping {x : RunM α} (hx : Works Q x) :
    Keeps (Running.AcrossWith β Q) (keeping x : WithResult β α) := by
  intro ⟨r, b⟩
  cases h : x r with
  | ok a r' =>
    have hkept : (keeping x : WithResult β α) (r, b) = .ok a (r', b) := by simp only [keeping, h]
    rw [endState_ok hkept]
    exact hx.ok h
  | error e r' =>
    have hkept : (keeping x : WithResult β α) (r, b) = .error e (r', b) := by
      simp only [keeping, h]
    rw [endState_error hkept]
    exact hx.error h

omit [Domain.Lending Q] in
theorem works_leaving {x : WithResult β Unit} (hx : Keeps (Running.AcrossWith β Q) x) (b : β) :
    Works Q (leaving b x) := by
  intro r
  cases h : x (r, b) with
  | ok _ p =>
    have hleft : leaving b x r = .ok p.2 p.1 := by simp only [leaving, h]
    rw [endState_ok hleft]
    exact hx.ok h
  | error e p =>
    have hleft : leaving b x r = .error e p.1 := by simp only [leaving, h]
    rw [endState_error hleft]
    exact hx.error h

theorem works_setThisFields (f : HostFrame) (fuel : Nat) (slots : List Slot) :
    Works Q (f.setThisFields fuel slots) := by
  unfold HostFrame.setThisFields
  refine Keeps.bind (looks_thisSlot f) fun s ↦ Keeps.bind (looks_blockOf fuel s) fun d ↦ ?_
  refine Keeps.bind (looks_read _) ?_
  rintro ⟨type, count⟩
  dsimp only
  split
  · exact looks_stackFault _
  · refine .forM ?_ _
    rintro ⟨s, i⟩
    exact (looks_read _).bind fun _ ↦ works_onStack _

theorem works_serveFrame (hc : c.Work Q) (fuel : Nat) (f : HostFrame) (r : FrameRequest) :
    Keeps (Running.AcrossWith (Option Value) Q) (serveFrame c fuel f r) := by
  cases r with
  | domain r => exact works_keeping (works_onDomain (hc.serve r))
  | argumentSlot i => exact works_keeping (looks_argSlot f i)
  | argument i => exact works_keeping (looks_arg f fuel i)
  | this => exact works_keeping (looks_this f fuel)
  | valueFields i =>
    exact works_keeping
      ((looks_argSlot f i).bind fun s ↦ (looks_blockOf fuel s).bind looks_blockFields)
  | thisFields =>
    exact works_keeping
      ((looks_thisSlot f).bind fun s ↦ (looks_blockOf fuel s).bind looks_blockFields)
  | setThisFields slots => exact works_keeping (works_setThisFields f fuel slots)
  | setResult v => exact fun p ↦ refl_of (Running.Across Q) p.1

theorem works_runRedirection (hc : c.Work Q) (fuel : Nat) (f : HostFrame) (code : Redirection) :
    Works Q (runRedirection c fuel f code) :=
  (looks_askDomain _).bind fun _ ↦ works_leaving (.program (works_serveFrame hc fuel f) _) none

theorem works_pushOnce (a : FieldAccess) {push : RunM Unit} (hpush : Works Q push) :
    Keeps (Running.AcrossWith Bool Q) (a.pushOnce push) := by
  have htwice : Works Q (do stackFault (.pushedTwice (← a.key)) : RunM Unit) :=
    Keeps.bind (looks_accessKey a) fun _ ↦ looks_stackFault _
  intro ⟨r, pushed⟩
  by_cases hfull : (a.valueAddr.isSome || pushed) = true
  · have hend : endState (a.pushOnce push) (r, pushed) =
        endState (keeping (do stackFault (.pushedTwice (← a.key)) : RunM Unit)) (r, pushed) := by
      simp only [endState, FieldAccess.pushOnce, hfull, if_true]
    rw [hend]
    exact works_keeping htwice (r, pushed)
  · have hend : endState (a.pushOnce push) (r, pushed) = endState (keeping push) (r, true) := by
      simp only [endState, FieldAccess.pushOnce, if_neg hfull]
    rw [hend]
    exact works_keeping hpush (r, true)

theorem works_serveAccess (hc : c.Work Q) (fuel : Nat) (a : FieldAccess) (r : AccessRequest) :
    Keeps (Running.AcrossWith Bool Q) (serveAccess c fuel a r) := by
  cases r with
  | domain r => exact works_keeping (works_onDomain (hc.serve r))
  | receiver => exact works_keeping (looks_accessThis a)
  | valueSlot => exact works_keeping (looks_valueSlot a)
  | value => exact works_keeping (looks_accessValue a fuel)
  | pushInt32 v => exact works_pushOnce a (works_onStack _)
  | pushInt64 v => exact works_pushOnce a (works_onStack _)
  | pushDouble v => exact works_pushOnce a (works_onStack _)
  | push v => exact works_pushOnce a (works_pushValue fuel v _)

theorem works_runDelegate (hc : c.Work Q) (fuel : Nat) (a : FieldAccess) (code : FieldDelegate) :
    Works Q (runDelegate c fuel a code) :=
  works_leaving (.program (works_serveAccess hc fuel a) _) false

theorem works_finishHostCall (fuel : Nat) (f : HostFrame) (result : Option Value) :
    Works Q (finishHostCall fuel f result) := by
  have hdefault (t : TypeId) :
      Works Q (do pushValue fuel (← (Domain.defaultValue fuel t : DomainM Value)) t) :=
    Keeps.bind (looks_onDomain (Domain.grows_defaultValue fuel t)) fun v ↦ works_pushValue fuel v t
  unfold finishHostCall
  refine Keeps.bind (works_onStack _) fun _ ↦ Keeps.bind (looks_descriptor _) fun ret ↦ ?_
  dsimp only
  by_cases hvoid : (!(f.method.flags.constructor && !f.hasReceiver) && ret.isVoid) = true
  · rw [if_pos hvoid]
    exact .pure _
  · rw [if_neg hvoid]
    refine Keeps.bind (looks_descriptor _) fun d ↦ ?_
    split
    · split
      · exact hdefault _
      · exact works_pushValue fuel _ _
    · exact hdefault _

theorem works_callHost (hc : c.Work Q) (fuel : Nat) (m : Method) (argBase : Nat)
    (hasReceiver : Bool) : Works Q (callHost c fuel m argBase hasReceiver) := by
  unfold callHost
  refine (looks_askDomain _).bind fun domain ↦ ?_
  dsimp only
  split
  · exact (works_runRedirection hc fuel _ _).bind fun result ↦ works_finishHostCall fuel _ result
  · split
    · exact (looks_fullName m).bind fun _ ↦ .throw _
    · split
      · exact .throw _
      · exact (looks_callHostCode (fun r ↦ works_onDomain (hc.serve r)) fuel _ _).bind fun v ↦
          works_finishHostCall fuel _ (some v)

theorem works_loadHost (hc : c.Work Q) (fuel : Nat) (field : Field) (receiver : Option Value) :
    Works Q (loadHost c fuel field receiver) := by
  unfold loadHost
  refine (looks_fieldKey field).bind fun key ↦ (looks_askDomain _).bind fun bindings ↦ ?_
  split
  · refine (works_runDelegate hc fuel _ _).bind fun pushed ↦ ?_
    split
    · exact .pure _
    · exact looks_stackFault _
  · split
    · exact (looks_onDomain (Domain.grows_runHost _)).bind fun v ↦ works_pushValue fuel v _
    · exact looks_noAccessor field _

theorem works_storeHost (hc : c.Work Q) (fuel : Nat) (field : Field) (receiver : Option Value) :
    Works Q (storeHost c fuel field receiver) := by
  unfold storeHost
  refine (looks_fieldKey field).bind fun key ↦ (looks_askDomain _).bind fun bindings ↦ ?_
  split
  · exact (looks_read _).bind fun _ ↦ (works_runDelegate hc fuel _ _).bind fun _ ↦ .pure _
  · refine looks_loadTop.bind fun carry ↦ (looks_carryValue fuel carry _).bind fun v ↦ ?_
    split
    · exact looks_onDomain (Domain.grows_runHost _)
    · exact looks_noAccessor field _

/-! ### Fields -/

theorem works_loadStatic (hc : c.Work Q) (fuel : Nat) (field : Field) :
    Works Q (loadStatic c fuel field) := by
  unfold loadStatic
  split
  · exact works_loadHost hc fuel field none
  · exact (hc.init fuel _).bind fun _ ↦
      (looks_onDomain (Domain.grows_static fuel _ _)).bind fun v ↦ works_pushValue fuel v _

theorem works_storeStatic (hc : c.Work Q) (fuel : Nat) (field : Field) :
    Works Q (storeStatic c fuel field) := by
  unfold storeStatic
  split
  · exact works_storeHost hc fuel field none
  · exact looks_loadTop.bind fun carry ↦ (looks_carryValue fuel carry _).bind fun v ↦
      (hc.init fuel _).bind fun _ ↦ looks_onDomain (Domain.grows_setStatic fuel _ _ v)

theorem works_loadStaticAddr (hc : c.Work Q) (fuel : Nat) (field : Field) :
    Works Q (loadStaticAddr c fuel field) := by
  unfold loadStaticAddr
  split
  · exact (looks_fieldKey field).bind fun _ ↦ .throw _
  · exact (hc.init fuel _).bind fun _ ↦ works_onStack _

theorem works_loadField (hc : c.Work Q) (fuel : Nat) (field : Field) :
    Works Q (loadField c fuel field) := by
  unfold loadField
  split
  · exact (works_onStack _).bind fun _ ↦ works_loadStatic hc fuel field
  · refine looks_top.bind fun s ↦ (looks_targetOf fuel s).bind fun target ↦ ?_
    split
    · exact (looks_hostReceiver fuel target).bind fun _ ↦ (works_onStack _).bind fun _ ↦
        works_loadHost hc fuel field _
    · cases target with
      | null => exact looks_nullReference
      | block d =>
        exact (looks_read _).bind fun addr ↦ (looks_loadCarry addr).bind fun carry ↦
          (looks_detach fuel carry).bind fun _ ↦ (works_onStack _).bind fun _ ↦
            works_pushCarry fuel _ _
      | object id =>
        exact (looks_onDomain (Domain.grows_field id _)).bind fun v ↦ (works_onStack _).bind
          fun _ ↦ works_pushValue fuel v _

theorem works_storeField (hc : c.Work Q) (fuel : Nat) (field : Field) :
    Works Q (storeField c fuel field) := by
  have hpop {x : RunM Unit} (hx : Works Q x) :
      Works Q (do x; Running.onStack (Stack.popMany 2)) :=
    hx.bind fun _ ↦ works_onStack _
  unfold storeField
  split
  · exact hpop (works_storeStatic hc fuel field)
  · refine (looks_peek 1).bind fun s ↦ (looks_targetOf fuel s).bind fun target ↦ ?_
    split
    · exact (looks_hostReceiver fuel target).bind fun _ ↦ hpop (works_storeHost hc fuel field _)
    · refine looks_loadTop.bind fun carry ↦ ?_
      cases target with
      | null => exact hpop looks_nullReference
      | block d => exact (looks_read _).bind fun _ ↦ hpop (works_storeInto fuel _ carry)
      | object id =>
        exact (looks_carryValue fuel carry _).bind fun v ↦
          hpop (looks_onDomain (Domain.grows_setField id _ v))

/-! ### Calls -/

theorem works_invokeAt (hc : c.Work Q) (fuel : Nat) (id : MethodId) (m : Method) (argBase : Nat) :
    Works Q (invokeAt c fuel id m argBase) := by
  unfold invokeAt
  split
  · exact works_callHost hc fuel m argBase _
  · refine (hc.run id argBase).bind fun result ↦ ?_
    cases result with
    | some carry => exact works_pushCarry fuel carry _
    | none => exact .pure _

/-- A static method is called after its type has been initialized. -/
theorem works_initializing (hc : c.Work Q) (fuel : Nat) (m : Method) {x : RunM α}
    (hx : Works Q x) : Works Q (do
      if !m.flags.hasThis then ensureInitialized c fuel m.declaring
      x) := by
  split
  · exact (hc.init fuel _).bind fun _ ↦ hx
  · exact hx

theorem works_callMethod (hc : c.Work Q) (fuel : Nat) (id : MethodId) (argBase : Nat)
    (virtual_ : Bool) : Works Q (callMethod c fuel id argBase virtual_) := by
  have hrest (target : MethodId) : Works Q (do
      let m ← method target
      if !m.flags.hasThis then ensureInitialized c fuel m.declaring
      invokeAt c fuel target m argBase) :=
    (looks_method target).bind fun m ↦
      works_initializing hc fuel m (works_invokeAt hc fuel target m argBase)
  unfold callMethod
  refine (looks_method id).bind fun m ↦ ?_
  split
  · refine (looks_read _).bind fun s ↦ (looks_receiverType fuel s).bind fun found ↦ ?_
    cases found with
    | some t => exact (looks_inRegistry (Registry.grows_findOverride fuel t id)).bind hrest
    | none => exact looks_nullReference.bind hrest
  · exact hrest id

/-- What a construction does when the type has been initialized. -/
theorem works_construction (hc : c.Work Q) (fuel : Nat) (id : MethodId) (m : Method)
    (argBase : Nat) : Works Q (do
      if m.native?.isSome then callHost c fuel m argBase false
      else if ← isInline fuel m.declaring then do
        let d ← allocInline fuel m.declaring
        Stack.insert argBase (.block d)
        Stack.insert (argBase + 1) (.stackRef argBase)
        let _ ← c.run id (argBase + 1)
      else do
        let object ← (newInstance fuel m.declaring : DomainM ObjectId)
        let entry ← Stack.pushEntry (.object object)
        Stack.insert argBase (.object entry)
        let _ ← c.run id argBase
        Stack.pushObject (.object object)) := by
  split
  · exact works_callHost hc fuel m argBase false
  · refine (looks_isInline fuel _).bind fun inline ↦ ?_
    split
    · exact (works_allocInline fuel _).bind fun d ↦ (works_onStack _).bind fun _ ↦
        (works_onStack _).bind fun _ ↦ (hc.run id _).bind fun _ ↦ .pure _
    · exact (looks_onDomain (grows_newInstance fuel _)).bind fun object ↦
        (works_onStack _).bind fun _ ↦ (works_onStack _).bind fun _ ↦
          (hc.run id _).bind fun _ ↦ works_onStack _

theorem works_constructAt (hc : c.Work Q) (fuel : Nat) (id : MethodId) (argBase : Nat) :
    Works Q (constructAt c fuel id argBase) :=
  (looks_method id).bind fun m ↦ (hc.init fuel _).bind fun _ ↦ works_construction hc fuel id
    m argBase

theorem works_call (hc : c.Work Q) (fuel : Nat) (f : Frame) (token : Token) (virtual_ : Bool) :
    Works Q (call c fuel f token virtual_) := by
  unfold call
  refine (looks_methodOperand fuel f token).bind fun found ↦ ?_
  cases found with
  | none => exact works_onStack _
  | some id =>
    exact (looks_method id).bind fun m ↦ (looks_operandsBase f _).bind fun base ↦
      works_callMethod hc fuel id base virtual_

theorem works_newObject (hc : c.Work Q) (fuel : Nat) (f : Frame) (token : Token) :
    Works Q (newObject c fuel f token) := by
  unfold newObject
  refine (looks_methodOperand fuel f token).bind fun found ↦ ?_
  cases found with
  | none =>
    exact (looks_inRegistry (Registry.grows_coreType _)).bind fun t ↦
      (looks_onDomain (Domain.grows_newObject _)).bind fun _ ↦ works_onStack _
  | some id =>
    exact (looks_method id).bind fun m ↦ (looks_operandsBase f _).bind fun base ↦
      works_constructAt hc fuel id base

/-! ### Instructions -/

/-- An instruction, given what the calls that it makes come to. -/
theorem works_step (hc : c.Work Q) (fuel : Nat) (f : Frame) (addr : Nat) (i : Instruction) :
    Works Q (step c fuel f addr i) := by
  have honward {x : RunM Unit} (hx : Works Q x) : Works Q (onward f x) := works_onward f hx
  cases i with
  | nop => exact honward (.pure _)
  | breakpoint => exact honward looks_breakpoint
  | constInt32 v => exact honward (works_onStack _)
  | constInt64 v => exact honward (works_onStack _)
  | constSingle v => exact honward (works_onStack _)
  | constDouble v => exact honward (works_onStack _)
  | loadNull => exact honward (works_onStack _)
  | loadString token =>
    exact honward ((looks_inRegistry (Registry.grows_resolveString _ _)).bind fun s ↦
      works_onStack _)
  | loadArg n => exact honward ((looks_argAddr f n).bind fun addr ↦ works_pushCopy fuel addr)
  | loadArgAddr n => exact honward ((looks_argAddr f n).bind fun addr ↦ works_onStack _)
  | storeArg n => exact honward ((looks_argAddr f n).bind fun addr ↦ works_storeTop fuel addr)
  | loadLocal n => exact honward ((looks_localAddr f n).bind fun addr ↦ works_pushCopy fuel addr)
  | loadLocalAddr n => exact honward ((looks_localAddr f n).bind fun addr ↦ works_onStack _)
  | storeLocal n => exact honward ((looks_localAddr f n).bind fun addr ↦ works_storeTop fuel addr)
  | dup => exact honward ((looks_read _).bind fun addr ↦ works_pushCopy fuel addr)
  | pop => exact honward (works_onStack _)
  | binary op => exact honward (works_binary op)
  | neg => exact honward (works_unary _)
  | compareEq => exact honward (works_pushComparison .eq)
  | compareGt => exact honward (works_pushComparison .gt)
  | compareLt => exact honward (works_pushComparison .lt)
  | convert target => exact honward (works_unary _)
  | branch target => exact .pure _
  | branchTrue target => exact (works_branchIf true target).bind fun _ ↦ .pure _
  | branchFalse target => exact (works_branchIf false target).bind fun _ ↦ .pure _
  | branchOn op target => exact (works_branchOn op target).bind fun _ ↦ .pure _
  | leave target => exact works_arrive (works_leave f addr _)
  | endFinally => exact works_arrive (works_endFinally f)
  | call token => exact honward (works_call hc fuel f token false)
  | callVirtual token => exact honward (works_call hc fuel f token true)
  | newObject token => exact honward (works_newObject hc fuel f token)
  | ret => exact (works_returnValue fuel f).bind fun _ ↦ .pure _
  | loadField token =>
    exact honward ((looks_fieldOperand fuel f token).bind fun field ↦ works_loadField hc fuel field)
  | loadFieldAddr token =>
    exact honward ((looks_fieldOperand fuel f token).bind fun field ↦
      works_loadFieldAddr fuel field)
  | storeField token =>
    exact honward ((looks_fieldOperand fuel f token).bind fun field ↦
      works_storeField hc fuel field)
  | loadStatic token =>
    exact honward ((looks_fieldOperand fuel f token).bind fun field ↦
      works_loadStatic hc fuel field)
  | loadStaticAddr token =>
    exact honward ((looks_fieldOperand fuel f token).bind fun field ↦
      works_loadStaticAddr hc fuel field)
  | storeStatic token =>
    exact honward ((looks_fieldOperand fuel f token).bind fun field ↦
      (works_storeStatic hc fuel field).bind fun _ ↦ works_onStack _)
  | newArray token =>
    exact honward ((looks_typeOperand f token).bind fun t ↦ works_newArray fuel t)
  | loadLength => exact honward works_loadLength
  | loadElement => exact honward (works_loadElement fuel)
  | storeElement => exact honward (works_storeElement fuel)
  | loadElementAddr token => exact honward works_loadElementAddr
  | loadObject token =>
    exact honward ((looks_typeOperand f token).bind fun t ↦ works_loadObject fuel t)
  | storeObject token =>
    exact honward ((looks_typeOperand f token).bind fun t ↦ works_storeObjectThrough fuel t)
  | initObject token =>
    exact honward ((looks_typeOperand f token).bind fun t ↦ works_initObject fuel t)
  | box token => exact honward ((looks_typeOperand f token).bind fun t ↦ works_box fuel t)
  | unboxAny token =>
    exact honward ((looks_typeOperand f token).bind fun t ↦ works_unboxAny fuel t)
  | castClass token =>
    exact honward ((looks_typeOperand f token).bind fun t ↦ works_cast fuel t true)
  | isInstance token =>
    exact honward ((looks_typeOperand f token).bind fun t ↦ works_cast fuel t false)
  | throw => exact looks_throwTop
  | rethrow => exact looks_rethrow f addr

/-! ### Methods -/

/-- With the exception that it may end in. -/
theorem works_advance (hc : c.Work Q) (fuel : Nat) (f : Frame) (addr : Nat) (i : Instruction) :
    Works Q (advance c fuel f addr i) := by
  intro r
  have hstep := works_step hc fuel f addr i
  have hpassed (ctl : Control) {r' : Running} (h : Running.Across Q r r')
      (hadvance : advance c fuel f addr i r = .ok ctl r') :
      Running.Across Q r (endState (advance c fuel f addr i) r) := endState_ok hadvance ▸ h
  have hraised (raised : Raised) (g : Frame) {r' : Running} (h : Running.Across Q r r')
      (hadvance : advance c fuel f addr i r = dispatch fuel g addr raised r') :
      Running.Across Q r (endState (advance c fuel f addr i) r) := by
    have hend : endState (advance c fuel f addr i) r = endState (dispatch fuel g addr raised)
        r' := by
      simp only [endState, hadvance]
    exact hend ▸ trans_of (Running.Across Q) h (works_dispatch fuel g addr raised r')
  cases h : step c fuel f addr i r with
  | ok p r' =>
    obtain ⟨outcome, g⟩ := p
    cases outcome with
    | next => exact hpassed (.at (addr + 1) g) (hstep.ok h) (by simp only [advance, h])
    | jump target => exact hpassed (.at target g) (hstep.ok h) (by simp only [advance, h])
    | ret v => exact hpassed (.done v) (hstep.ok h) (by simp only [advance, h])
    | raise raised => exact hraised raised g (hstep.ok h) (by simp only [advance, h])
  | error e r' =>
    by_cases hraise : ∃ raised, e = .exception raised
    · obtain ⟨raised, rfl⟩ := hraise
      exact hraised raised f (hstep.error h) (by simp only [advance, h])
    · have hadvance : advance c fuel f addr i r = .error e r' := by
        simp only [advance, h]
        split <;> simp_all
      exact endState_error hadvance ▸ hstep.error h

theorem works_setAddress (addr : Nat) : Works Q (setAddress addr) := by
  intro ⟨d, n, stack, frames⟩
  cases frames <;> exact ⟨refl_of Q d, rfl⟩

theorem works_loop (hc : c.Work Q) : (fuel : Nat) → (f : Frame) → (addr : Nat) →
    Works Q (loop c fuel f addr)
  | 0, _, _ => .throw _
  | fuel + 1, f, addr => by
    unfold loop
    split
    · exact (looks_fullName _).bind fun _ ↦ .throw _
    · refine (works_setAddress addr).bind fun _ ↦ (works_advance hc fuel f addr _).bind fun ctl ↦ ?_
      cases ctl with
      | «at» addr f => exact works_loop hc fuel f addr
      | done v => exact .pure _

theorem works_runMethod (hc : c.Work Q) (fuel : Nat) (id : MethodId) (argBase : Nat) :
    Works Q (runMethod c fuel id argBase) := by
  unfold runMethod
  refine (looks_askDomain _).bind fun limit ↦ Keeps.bind (fun r ↦ ⟨refl_of Q r.domain, rfl⟩)
    fun depth ↦ ?_
  refine Keeps.checked ((looks_method id).bind fun m ↦ ?_)
  split
  · refine (looks_ask _).bind fun mark ↦ (looks_ask _).bind fun bounds ↦ ?_
    refine (works_onStack _).bind fun _ ↦ Keeps.bind (fun r ↦ ⟨refl_of Q r.domain, rfl⟩) fun _ ↦ ?_
    refine works_afterwards ?_ ?_
    · exact (works_openFrame fuel id m _ _ argBase).bind fun f ↦ works_loop hc fuel f 0
    · exact Keeps.bind (fun r ↦ ⟨refl_of Q r.domain, rfl⟩) fun _ ↦ (works_onStack _).bind fun _ ↦
        works_onStack _
  · exact (looks_fullName m).bind fun _ ↦ .throw _

/-! ### Calls from the host -/

theorem works_restoring {x : RunM α} (hx : Works Q x) : Works Q (restoring x) :=
  (looks_ask _).bind fun _ ↦ works_afterwards hx (works_onStack _)

theorem works_pushAll (fuel : Nat) (args : List Value) (types : List TypeId) :
    Works Q (pushAll fuel args types) := by
  refine .forM ?_ _
  rintro ⟨v, t⟩
  exact works_pushValue fuel v t

/-- A call from the host. -/
theorem works_invokeHost (hc : c.Work Q) (fuel : Nat) (id : MethodId) (receiver : Option Value)
    (args : List Value) : Works Q (invokeHost c fuel id receiver args) := by
  refine works_restoring ((looks_method id).bind fun m ↦ (looks_ask _).bind fun start ↦ ?_)
  have hcall (argBase : Nat) : Works Q (do
      pushAll fuel args m.params
      invokeAt c fuel id m argBase
      if (← descriptor m.ret).isVoid then return none
      else return some (← readValue fuel (← read (·.topSlot)) m.ret)) := by
    refine (works_pushAll fuel args m.params).bind fun _ ↦
      (works_invokeAt hc fuel id m argBase).bind fun _ ↦ (looks_descriptor m.ret).bind fun ret ↦ ?_
    split
    · exact .pure _
    · exact (looks_read _).bind fun s ↦ (looks_readValue fuel s m.ret).bind fun _ ↦ .pure _
  cases receiver with
  | none => exact hcall start
  | some v =>
    refine (looks_isInline fuel _).bind fun inline ↦ ?_
    cases inline with
    | true =>
      exact (works_materialize fuel v _).bind fun d ↦ (works_onStack _).bind fun _ ↦
        (works_onStack _).bind fun _ ↦ hcall (start + 1)
    | false => exact (works_onStack _).bind fun _ ↦ hcall start

theorem works_constructHost (hc : c.Work Q) (fuel : Nat) (id : MethodId) (args : List Value) :
    Works Q (constructHost c fuel id args) :=
  works_restoring ((looks_method id).bind fun m ↦ (looks_ask _).bind fun argBase ↦
    (works_pushAll fuel args m.params).bind fun _ ↦
      (works_constructAt hc fuel id argBase).bind fun _ ↦ (looks_read _).bind fun s ↦
        looks_readValue fuel s _)

/-- The domain after a run on a borrowed interpreter, which is given back in the state it came
to. -/
theorem endState_withInterpreter (x : RunM α) (d : Domain) :
    endState (Domain.withInterpreter x) d =
      let r := endState x ⟨endState Domain.acquire d, d.pool.acquire.1⟩
      endState (Domain.release r.interpreter) r.domain := by
  refine (endState_bind (Domain.acquire_eq d)).trans ?_
  generalize endState Domain.acquire d = lent
  cases h : x ⟨lent, d.pool.acquire.1⟩ <;> simp only [endState, h] <;> rfl

theorem keeps_withInterpreter {x : RunM α} (hx : Works Q x) :
    Keeps Q (Domain.withInterpreter x) := by
  intro d
  rw [endState_withInterpreter]
  have h := hx ⟨endState Domain.acquire d, d.pool.acquire.1⟩
  exact Domain.Lending.lend h.id h.domain

/-- A call from the host as the domain sees it, with the interpreter borrowed for it. -/
theorem keeps_invoke (hc : c.Work Q) (fuel : Nat) (id : MethodId) (receiver : Option Value)
    (args : List Value) : Keeps Q (Domain.invoke c fuel id receiver args) := by
  have hrun (target : MethodId) (receiver : Option Value) : Keeps Q (do
      let m ← Domain.ask fun d ↦ d.registry.method target
      Domain.withInterpreter do
        if !m.flags.hasThis then ensureInitialized c fuel m.declaring
        invokeHost c fuel target receiver args) :=
    (Domain.grows_ask _).bind fun m ↦ keeps_withInterpreter
      (works_initializing hc fuel m (works_invokeHost hc fuel target receiver args))
  unfold Domain.invoke
  refine (Domain.grows_ask _).bind fun m ↦ Keeps.checked ?_
  refine (Domain.grows_checkReceiver _ _).bind fun receiver ↦ ?_
  refine (Domain.grows_checkArguments _ _ _).bind fun _ ↦ ?_
  dsimp only
  split
  · split
    · exact (Domain.grows_ask _).bind fun t ↦ (Domain.grows_inRegistry
        (Registry.grows_findOverride _ _ _)).bind fun target ↦ hrun target _
    · exact hrun _ _
  · exact hrun _ _

theorem keeps_instantiate (hc : c.Work Q) (fuel : Nat) (typeName : String) (args : List Value) :
    Keeps Q (Domain.instantiate c fuel typeName args) := by
  unfold Domain.instantiate
  refine (Domain.grows_inRegistry (Registry.grows_resolve _)).bind fun t ↦ ?_
  refine (Domain.grows_inRegistry (Registry.grows_constructors t)).bind fun candidates ↦ ?_
  refine (Domain.grows_inRegistry (Registry.grows_firstMethod _ _)).bind fun found ↦ ?_
  split
  · next id =>
    refine (Domain.grows_ask _).bind fun m ↦ (Domain.grows_checkArguments _ _ _).bind fun _ ↦ ?_
    exact keeps_withInterpreter (works_constructHost hc fuel id args)
  · refine (Domain.grows_ask _).bind fun isStruct ↦ ?_
    split
    · exact Domain.grows_defaultValue fuel t
    · exact .throw _

theorem keeps_answer (hc : c.Work Q) (fuel : Nat) (r : DomainRequest) :
    Keeps Q (answer c fuel r) := by
  cases r with
  | host r => exact Domain.grows_serveHost r
  | resolve name => exact Domain.grows_inRegistry (Registry.grows_resolve name)
  | allocate o => exact Domain.grows_allocate o
  | instantiate type args => exact keeps_instantiate hc fuel type args
  | invoke type name receiver args =>
    exact (Domain.grows_findMethod _ _ _ _).bind fun id ↦ keeps_invoke hc fuel id receiver args
  | moduleCount => exact Domain.grows_ask _

/-- A relation between domains that holds for growth and for every initialization holds for every
method and every request of host code. -/
theorem work_callees (hinit : ∀ n, (∀ id a, Works Q ((callees n).run id a)) →
    ∀ fuel t, Works Q (ensureInitialized (callees n) fuel t)) : (n : Nat) → (callees n).Work Q
  | 0 =>
    have hrun (id : MethodId) (a : Nat) : Works Q ((callees 0).run id a) := .throw _
    ⟨hrun, fun _ ↦ .throw _, hinit 0 hrun⟩
  | n + 1 =>
    have hc := work_callees hinit n
    have hrun (id : MethodId) (a : Nat) : Works Q ((callees (n + 1)).run id a) :=
      works_runMethod hc n id a
    ⟨hrun, keeps_answer hc n, hinit (n + 1) hrun⟩

/-! ### Streams -/

theorem works_reportSlot {value : RunM Value} (hvalue : Works Q value) (s : Slot) (r : Reading) :
    Works Q (Stream.reportSlot value s r) := by
  have hconverted {γ : Type} (convert : Value → Except Error γ) (report : γ → Report) :
      Works Q (do return report (← ofExcept (convert (← value)))) :=
    Keeps.bind hvalue fun v ↦ Keeps.bind (looks_ofExcept _) fun x ↦ .pure _
  unfold Stream.reportSlot
  split
  · exact hvalue.bind fun v ↦ looks_onDomain (Domain.grows_report v)
  · exact .pure _
  · exact hconverted _ _
  · exact .pure _
  · exact hconverted _ _
  · exact .pure _
  · exact hconverted _ _
  · exact .pure _
  · exact hconverted _ _
  · exact .pure _
  · exact hconverted _ _

theorem works_resultSlot (s : Stream) : Works Q s.resultSlot := by
  have hrest (m : Method) (missing : Bool) : Works Q (do
      if missing then stackFault (.noResult (← fullName m)) else read (·.topSlot) : RunM Slot) := by
    split
    · exact (looks_fullName m).bind fun _ ↦ looks_stackFault _
    · exact looks_read _
  unfold Stream.resultSlot
  refine (looks_method _).bind fun m ↦ ?_
  by_cases hinvoked : s.invoked
  · exact (looks_descriptor _).bind fun ret ↦ hrest m _
  · exact (looks_descriptor _).bind fun ret ↦ hrest m _

theorem works_pushedSlot (i : Nat) : Works Q (Stream.pushedSlot i) := by
  unfold Stream.pushedSlot
  refine (looks_ask _).bind fun pushed ↦ ?_
  split
  · exact looks_stackFault _
  · exact looks_read _

theorem works_streamInvoke (hc : c.Work Q) (fuel : Nat) (id : MethodId) :
    Works Q (Stream.invoke c fuel id) := by
  unfold Stream.invoke
  refine (looks_method id).bind fun m ↦ (looks_ask _).bind fun found ↦ ?_
  split
  · exact .throw _
  · exact works_callMethod hc fuel id _ _

/-- One request of a stream. -/
theorem works_streamCall (hc : c.Work Q) (fuel : Nat) (s : Stream) (x : StreamCall) :
    Works Q (s.call c fuel x) := by
  cases x with
  | push slot => exact (works_onStack _).bind fun _ ↦ .pure _
  | pushObject literal =>
    exact (works_onDomain (.program hc.serve _)).bind fun v ↦ (works_onStack _).bind fun _ ↦
      (works_onStack _).bind fun _ ↦ .pure _
  | pushReference i =>
    refine (looks_ask _).bind fun pushed ↦ ?_
    have hrest : Works Q (do
        Stack.push (.stackRef i)
        return (.null, s.invoked) : RunM (Report × Bool)) :=
      (works_onStack _).bind fun _ ↦ .pure _
    split
    · exact (looks_stackFault _).bind fun _ ↦ hrest
    · exact hrest
  | invoke => exact (works_streamInvoke hc fuel s.method).bind fun _ ↦ .pure _
  | pushed => exact (looks_ask _).bind fun _ ↦ .pure _
  | method => exact (looks_askDomain _).bind fun _ ↦ .pure _
  | read r =>
    exact (works_resultSlot s).bind fun slot ↦ (looks_method _).bind fun m ↦
      (works_reportSlot (looks_readValue fuel slot m.ret) slot r).bind fun _ ↦ .pure _
  | readAt r i =>
    have hvalue (slot : Slot) : Works Q (do
        readValue fuel slot (← (Registry.coreType CoreLibrary.objectName : RegistryM TypeId))) :=
      Keeps.bind (looks_inRegistry (Registry.grows_coreType _)) fun t ↦ looks_readValue fuel slot t
    exact (works_pushedSlot i).bind fun slot ↦
      (works_reportSlot (hvalue slot) slot r).bind fun _ ↦ .pure _

theorem works_streamCalls (hc : c.Work Q) (fuel : Nat) : (xs : List StreamCall) → (s : Stream) →
    Works Q (s.calls c fuel xs)
  | [], _ => .pure _
  | x :: rest, s => by
    unfold Stream.calls
    refine Keeps.bind (.tryCatch ?_ fun e ↦ ?_) ?_
    · exact (works_streamCall hc fuel s x).bind fun _ ↦ .pure _
    · exact (looks_onDomain (Domain.grows_reportError e)).bind fun _ ↦ .pure _
    · rintro ⟨report, invoked⟩
      exact (works_streamCalls hc fuel rest _).bind fun _ ↦ .pure _

theorem keeps_stream (hc : c.Work Q) (fuel : Nat) (method : MethodId) (xs : List StreamCall) :
    Keeps Q (Stream.run c fuel method xs) :=
  keeps_withInterpreter (works_streamCalls hc fuel xs _)

/-! ### On the way -/

/-- The domains in which `X` makes its calls are related to the one in which it starts. -/
def Leads (Q : Domain → Domain → Prop) (c : Callees) (X : Callees → RunM α) : Prop :=
  ∀ r, CallsOnly (fun _ _ s ↦ Q r.domain s.domain) c X r

namespace Leads

variable {X Y : Callees → RunM α} {F : α → Callees → RunM β}

omit [Domain.Lending Q] in
theorem of_same (h : ∀ run, X { c with run } = X c) : Leads Q c X :=
  fun r run _ ↦ congrFun (h run) r

omit [Domain.Lending Q] in
theorem const (x : RunM α) : Leads Q c fun _ ↦ x := of_same fun _ ↦ rfl

theorem run (id : MethodId) (a : Nat) : Leads Q c fun c ↦ c.run id a :=
  fun r _ hrun ↦ hrun id a r (refl_of Q r.domain)

theorem bind (hworks : Works Q (X c)) (hX : Leads Q c X) (hF : ∀ a, Leads Q c (F a)) :
    Leads Q c fun c ↦ X c >>= fun a ↦ F a c := by
  intro r run hrun
  have hsame : X { c with run } r = X c r := hX r run hrun
  cases h : X c r with
  | error e r' => exact (bind_of_error (hsame.trans h)).trans (bind_of_error h).symm
  | ok a r' =>
    refine (bind_of_ok (hsame.trans h)).trans (.trans ?_ (bind_of_ok h).symm)
    exact hF a r' run fun id b s hs ↦ hrun id b s (trans_of Q (hworks.ok h).domain hs)

/-- What comes first calls nothing. -/
theorem after {x : RunM α} (hx : Works Q x) (hF : ∀ a, Leads Q c (F a)) :
    Leads Q c fun c ↦ x >>= fun a ↦ F a c :=
  bind hx (const x) hF

omit [Domain.Lending Q] in
theorem ite {p : Prop} [Decidable p] (hX : Leads Q c X) (hY : Leads Q c Y) :
    Leads Q c fun c ↦ if p then X c else Y c := by
  by_cases hp : p
  · simpa only [if_pos hp] using hX
  · simpa only [if_neg hp] using hY

omit [Domain.Lending Q] in
/-- Whatever becomes of the code, what follows it calls nothing. -/
theorem afterwards (hX : Leads Q c X) (y : RunM Unit) :
    Leads Q c fun c ↦ Engine.afterwards (X c) y := by
  intro r run hrun
  have hsame : X { c with run } r = X c r := hX r run hrun
  simp only [Engine.afterwards, hsame]

end Leads

section
variable (hc : c.Work Q) (hinit : ∀ fuel t, Leads Q c fun c ↦ ensureInitialized c fuel t)
include hc hinit

omit hinit in
theorem leads_invokeAt (fuel : Nat) (id : MethodId) (m : Method) (argBase : Nat) :
    Leads Q c fun c ↦ invokeAt c fuel id m argBase := by
  refine .ite (.of_same fun _ ↦ rfl) (.bind (hc.run id argBase) (.run id argBase) fun result ↦ ?_)
  cases result <;> exact .const _

theorem leads_callMethod (fuel : Nat) (id : MethodId) (argBase : Nat) (virtual_ : Bool) :
    Leads Q c fun c ↦ callMethod c fuel id argBase virtual_ := by
  have hrest (target : MethodId) : Leads Q c (fun c ↦ do
      let m ← method target
      if !m.flags.hasThis then ensureInitialized c fuel m.declaring
      invokeAt c fuel target m argBase) := by
    refine .after (looks_method target) fun m ↦ .ite ?_ (leads_invokeAt hc fuel target m argBase)
    exact .bind (hc.init fuel _) (hinit fuel _) fun _ ↦ leads_invokeAt hc fuel target m argBase
  refine .after (looks_method id) fun m ↦ .ite ?_ (.after (.pure id) hrest)
  refine .after (looks_read _) fun s ↦ .after (looks_receiverType fuel s) fun found ↦ ?_
  cases found with
  | some t => exact .after (looks_inRegistry (Registry.grows_findOverride fuel t id)) hrest
  | none => exact .after looks_nullReference hrest

theorem leads_constructAt (fuel : Nat) (id : MethodId) (argBase : Nat) :
    Leads Q c fun c ↦ constructAt c fuel id argBase := by
  refine .after (looks_method id) fun m ↦ .bind (hc.init fuel _) (hinit fuel _) fun _ ↦ ?_
  refine .ite (.of_same fun _ ↦ rfl) (.after (looks_isInline fuel _) fun inline ↦ .ite ?_ ?_)
  · exact .after (works_allocInline fuel _) fun d ↦ .after (works_onStack _) fun _ ↦
      .after (works_onStack _) fun _ ↦ .bind (hc.run id _) (.run id _) fun _ ↦ .const _
  · exact .after (looks_onDomain (grows_newInstance fuel _)) fun object ↦
      .after (works_onStack _) fun entry ↦ .after (works_onStack _) fun _ ↦
        .bind (hc.run id _) (.run id _) fun _ ↦ .const _

theorem leads_loadStatic (fuel : Nat) (field : Field) :
    Leads Q c fun c ↦ loadStatic c fuel field :=
  .ite (.of_same fun _ ↦ rfl) (.bind (hc.init fuel _) (hinit fuel _) fun _ ↦ .const _)

theorem leads_storeStatic (fuel : Nat) (field : Field) :
    Leads Q c fun c ↦ storeStatic c fuel field :=
  .ite (.of_same fun _ ↦ rfl) (.after looks_loadTop fun carry ↦
    .after (looks_carryValue fuel carry _) fun _ ↦
      .bind (hc.init fuel _) (hinit fuel _) fun _ ↦ .const _)

theorem leads_loadStaticAddr (fuel : Nat) (field : Field) :
    Leads Q c fun c ↦ loadStaticAddr c fuel field :=
  .ite (.const _) (.bind (hc.init fuel _) (hinit fuel _) fun _ ↦ .const _)

theorem leads_loadField (fuel : Nat) (field : Field) :
    Leads Q c fun c ↦ loadField c fuel field := by
  refine .ite (.after (works_onStack _) fun _ ↦ leads_loadStatic hc hinit fuel field) ?_
  refine .after looks_top fun s ↦ .after (looks_targetOf fuel s) fun target ↦ .ite ?_ ?_
  · exact .after (looks_hostReceiver fuel target) fun _ ↦ .after (works_onStack _) fun _ ↦
      .of_same fun _ ↦ rfl
  · cases target <;> exact .const _

theorem leads_storeField (fuel : Nat) (field : Field) :
    Leads Q c fun c ↦ storeField c fuel field := by
  refine .ite (.bind (works_storeStatic hc fuel field) (leads_storeStatic hc hinit fuel field)
    fun _ ↦ .const _) ?_
  refine .after (looks_peek 1) fun s ↦ .after (looks_targetOf fuel s) fun target ↦
    .ite ?_ (.const _)
  exact .after (looks_hostReceiver fuel target) fun receiver ↦
    .bind (works_storeHost hc fuel field _) (.of_same fun _ ↦ rfl) fun _ ↦ .const _

theorem leads_call (fuel : Nat) (f : Frame) (token : Token) (virtual_ : Bool) :
    Leads Q c fun c ↦ call c fuel f token virtual_ := by
  refine .after (looks_methodOperand fuel f token) fun found ↦ ?_
  cases found with
  | none => exact .const _
  | some id =>
    exact .after (looks_method id) fun m ↦ .after (looks_operandsBase f _) fun base ↦
      leads_callMethod hc hinit fuel id base virtual_

theorem leads_newObject (fuel : Nat) (f : Frame) (token : Token) :
    Leads Q c fun c ↦ newObject c fuel f token := by
  refine .after (looks_methodOperand fuel f token) fun found ↦ ?_
  cases found with
  | none => exact .const _
  | some id =>
    exact .after (looks_method id) fun m ↦ .after (looks_operandsBase f _) fun base ↦
      leads_constructAt hc hinit fuel id base

/-- The calls of an instruction are made in domains to which work has led. -/
theorem leads_step (fuel : Nat) (f : Frame) (addr : Nat) (i : Instruction) :
    Leads Q c fun c ↦ step c fuel f addr i := by
  have honward {X : Callees → RunM Unit} (hworks : Works Q (X c)) (hX : Leads Q c X) :
      Leads Q c fun c ↦ onward f (X c) :=
    .bind hworks hX fun _ ↦ .const _
  have hfield {X : Callees → Field → RunM Unit} (token : Token)
      (hworks : ∀ field, Works Q (X c field)) (hX : ∀ field, Leads Q c fun c ↦ X c field) :
      Leads Q c (fun c ↦ onward f do X c (← fieldOperand fuel f token)) :=
    honward ((looks_fieldOperand fuel f token).bind hworks)
      (.after (looks_fieldOperand fuel f token) hX)
  cases i with
  | call token =>
    exact honward (works_call hc fuel f token false) (leads_call hc hinit fuel f token false)
  | callVirtual token =>
    exact honward (works_call hc fuel f token true) (leads_call hc hinit fuel f token true)
  | newObject token =>
    exact honward (works_newObject hc fuel f token) (leads_newObject hc hinit fuel f token)
  | loadField token =>
    exact hfield token (works_loadField hc fuel) (leads_loadField hc hinit fuel)
  | storeField token =>
    exact hfield token (works_storeField hc fuel) (leads_storeField hc hinit fuel)
  | loadStatic token =>
    exact hfield token (works_loadStatic hc fuel) (leads_loadStatic hc hinit fuel)
  | loadStaticAddr token =>
    exact hfield token (works_loadStaticAddr hc fuel) (leads_loadStaticAddr hc hinit fuel)
  | storeStatic token =>
    exact hfield (X := fun c field ↦ do storeStatic c fuel field; pop) token
      (fun field ↦ (works_storeStatic hc fuel field).bind fun _ ↦ works_onStack _)
      fun field ↦ .bind (works_storeStatic hc fuel field) (leads_storeStatic hc hinit fuel field)
        fun _ ↦ .const _
  | _ => exact .const _

theorem leads_advance (fuel : Nat) (f : Frame) (addr : Nat) (i : Instruction) :
    Leads Q c fun c ↦ advance c fuel f addr i := by
  intro r run hrun
  have hsame : step { c with run } fuel f addr i r = step c fuel f addr i r :=
    leads_step hc hinit fuel f addr i r run hrun
  simp only [advance, hsame]

end

/-- By induction on the fuel: the domain before each instruction of a run, and of all the calls in
it, is related to any domain that the one before the run is related to. -/
theorem along_of_leads {d : Domain} (hwork : ∀ n, (callees n).Work Q)
    (hinit : ∀ n fuel t, Leads Q (callees n) fun c ↦ ensureInitialized c fuel t) :
    (n : Nat) → (id : MethodId) → (a : Nat) → (r : Running) → Q d r.domain →
      Along (fun m ↦ Q d m.before.domain) n id a r
  | 0, _, _, _, _ => trivial
  | n + 1, id, a, r, h => by
    intro body home f r' _ hopen
    have hopens : Q (r.entered id).domain r'.domain :=
      ((works_openFrame n id _ body home a).ok hopen).domain
    have hopened : Q d r'.domain := trans_of Q h hopens
    suffices h : AlongLoop (Along (fun m ↦ Q d m.before.domain) n) (fun m ↦ Q d m.before.domain)
        (callees n) r n f 0 r' ∧ Ends (loop (callees n) n f 0) r' (fun _ _ ↦ True) fun _ ↦ True from
      h.1
    refine loop_induct (I := fun _ r ↦ Q d r.domain) (T := fun _ _ _ ↦ True) (P := fun _ ↦ True)
      (fun _ _ _ ↦ trivial) ?_ n hopened (alongLoop_true (fun _ _ _ ↦ trivial) n f 0 r')
    intro fuel f addr i r h _ _
    have hbefore : Q d (r.noting addr).domain := (r.noting_domain addr).symm ▸ h
    refine ⟨hbefore, fun id a s hmakes ↦ ?_, ?_⟩
    · exact along_of_leads hwork hinit n id a s (trans_of Q hbefore
        ((leads_advance (hwork n) (hinit n) fuel f addr i _).of_makes hmakes))
    · unfold Ends
      cases hadv : advance (callees n) fuel f addr i (r.noting addr) with
      | error e r' => trivial
      | ok ctl r' =>
        cases ctl with
        | «at» next f' =>
          exact trans_of Q hbefore ((works_advance (hwork n) fuel f addr i).ok hadv).domain
        | done v => trivial

end Engine

end ManagedMachine
