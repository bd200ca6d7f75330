import ManagedMachine.Engine.Run
import ManagedMachine.Proofs.DomainGrowth

/-!
Code that leaves the interpreter alone. Reading slots, values, fields and types may make the domain
grow, but the stack and the frames stay as they are: `Running.Later`. Most of what an instruction
does before it first changes an operand is of this kind. Such code does not start or end type
initializers either, and a relation that holds whenever this is so is a `Running.Looking`.

There are three ways to look: at slots, at values and at types. The lemmas are named for the
functions, `looks_readValue` and its like, and hold for every relation of the class, so a
specification that is stronger than `Running.Later` gets them for nothing.
-/

set_option autoImplicit false
set_option relaxedAutoImplicit false

namespace ManagedMachine

/-- The interpreter is as it was, and the domain has grown at most. -/
structure Running.Later (r r' : Running) : Prop where
  interpreter : r'.interpreter = r.interpreter
  domain : r.domain.Extends r'.domain

theorem Running.Later.refl (r : Running) : r.Later r := ⟨rfl, .refl _⟩

theorem Running.Later.trans {r r' r'' : Running} (h : r.Later r') (h' : r'.Later r'') :
    r.Later r'' :=
  ⟨h'.interpreter.trans h.interpreter, h.domain.trans h'.domain⟩

instance : IsPreorder Running Running.Later where
  refl := Running.Later.refl
  trans _ _ _ := Running.Later.trans

/-- What holds wherever the interpreter stays and the domain grows without getting on with type
initializers. -/
class Running.Looking (R : Running → Running → Prop) : Prop extends IsPreorder Running R where
  idle {d d' : Domain} (h : d.Idle d') (i : Interpreter) : R ⟨d, i⟩ ⟨d', i⟩

instance : Running.Looking Running.Later := ⟨fun h _ ↦ ⟨rfl, h.toExtends⟩⟩

/-- The code changes at most the domain. -/
abbrev Looks {α : Type} (x : RunM α) : Prop := Keeps Running.Later x

namespace Engine

variable {α β : Type} {R : Running → Running → Prop}

theorem endState_onDomain (x : DomainM α) (d : Domain) (i : Interpreter) :
    endState (Running.onDomain x) ⟨d, i⟩ = ⟨endState x d, i⟩ := by
  unfold endState Running.onDomain
  cases h : x d <;> simp only [h]

theorem looks_of_grows {x : DomainM α} (hx : Domain.Grows x) : Looks (Running.onDomain x) := by
  intro ⟨d, i⟩
  rw [endState_onDomain]
  exact ⟨rfl, hx d⟩

theorem looks_read [IsPreorder Running R] (query : Stack → Except Error α) :
    Keeps R (read query) := by
  intro r
  unfold endState read
  cases query r.stack <;> exact refl_of R r

variable [Running.Looking R]

theorem looks_onDomain {x : DomainM α} (hx : Keeps Domain.Idle x) :
    Keeps R (Running.onDomain x) := by
  intro ⟨d, i⟩
  rw [endState_onDomain]
  exact Running.Looking.idle (hx d) i

/-- Host code keeps what every answer to a request keeps. -/
theorem looks_host {serve : (r : DomainRequest) → DomainM r.Answer}
    (h : ∀ r, Keeps R (Running.onDomain (serve r)))
    (p : Program DomainRequest DomainRequest.Answer α) :
    Keeps R (Running.onDomain (p.run serve)) := by
  intro ⟨d, i⟩
  rw [endState_onDomain]
  have : IsPreorder Domain fun d d' ↦ R ⟨d, i⟩ ⟨d', i⟩ :=
    { refl := fun d ↦ refl_of R _
      trans := fun _ _ _ ↦ trans_of R }
  have hserve (r : DomainRequest) (d : Domain) : R ⟨d, i⟩ ⟨endState (serve r) d, i⟩ :=
    endState_onDomain (serve r) d i ▸ h r ⟨d, i⟩
  exact Keeps.program (S := fun d d' ↦ R ⟨d, i⟩ ⟨d', i⟩) hserve p d

theorem looks_inRegistry {x : RegistryM α} (hx : Registry.Grows x) :
    Keeps R (Running.onDomain (Domain.inRegistry x)) :=
  looks_onDomain (Domain.grows_inRegistry hx)

theorem looks_askDomain (query : Domain → α) : Keeps R (Running.onDomain (Domain.ask query)) :=
  looks_onDomain (Domain.grows_ask query)

theorem looks_ofExcept (x : Except Error α) : Keeps R (ofExcept x) := by
  cases x
  · exact .throw _
  · exact .pure _

theorem looks_ask (query : Stack → α) : Keeps R (ask query) := fun r ↦ refl_of R r

theorem looks_stackFault (fault : StackFault) : Keeps R (stackFault fault : RunM α) := .throw _

theorem looks_descriptor (t : TypeId) : Keeps R (descriptor t) := fun r ↦ refl_of R r

theorem looks_method (m : MethodId) : Keeps R (method m) := fun r ↦ refl_of R r

theorem looks_fullName (m : Method) : Keeps R (fullName m) := fun r ↦ refl_of R r

/-! ### Blocks and values -/

theorem looks_inlineKind (fuel : Nat) (t : TypeId) : Keeps R (inlineKind fuel t) := by
  unfold inlineKind
  refine (looks_descriptor t).bind fun d ↦ ?_
  split
  · exact .pure _
  · refine (looks_askDomain _).bind fun binder ↦ ?_
    split
    · exact .pure _
    · split
      · exact (looks_inRegistry (Registry.grows_layout fuel t)).bind fun _ ↦ .pure _
      · exact .pure _

theorem looks_isInline (fuel : Nat) (t : TypeId) : Keeps R (isInline fuel t) :=
  (looks_inlineKind fuel t).bind fun _ ↦ .pure _

theorem looks_notInline (t : TypeId) : Keeps R (notInline t : RunM α) :=
  (looks_descriptor t).bind fun _ ↦ looks_stackFault _

theorem looks_blockFields (d : Nat) : Keeps R (blockFields d) :=
  (looks_read _).bind fun _ ↦ .mapM (fun _ ↦ looks_read _) _

theorem grows_sharedOrCopied {R' : Domain → Domain → Prop} [Domain.Growth R'] (fuel : Nat)
    (v : Value) : Keeps R' (sharedOrCopied fuel v) := by
  unfold sharedOrCopied
  split
  · refine Keeps.get.bind fun d ↦ ?_
    split
    · exact (Domain.grows_copyStruct fuel _).bind fun _ ↦ .pure _
    · exact .pure _
  · exact .pure _

theorem looks_sharedOrCopied (fuel : Nat) (v : Value) :
    Keeps R (Running.onDomain (sharedOrCopied fuel v)) :=
  looks_onDomain (grows_sharedOrCopied fuel v)

theorem looks_typeAt (t : TypeId) : Keeps R (typeAt t) := looks_inRegistry (Registry.grows_lift _)

theorem looks_castMismatch (source target : TypeId) :
    Keeps R (castMismatch source target : RunM α) :=
  (looks_askDomain _).bind fun _ ↦ .throw _

theorem looks_referent (t : TypeId) : Keeps R (referent t) :=
  (looks_descriptor t).bind fun _ ↦ .pure _

/-- Reading an entry looks at the object that it refers to. -/
theorem looks_readHeap (fuel : Nat) (s : Slot) : Keeps R (readHeap fuel s) := by
  unfold readHeap
  split
  · refine (looks_read _).bind fun v ↦ ?_
    split
    · exact looks_onDomain (Domain.grows_field _ _)
    · exact looks_stackFault _
  · refine (looks_read _).bind fun v ↦ ?_
    split
    · refine (looks_onDomain (Domain.grows_element? _ _)).bind fun found ↦ ?_
      split
      · exact .pure _
      · exact looks_stackFault _
    · exact looks_stackFault _
  · exact (looks_typeAt _).bind fun _ ↦ looks_onDomain (Domain.grows_static _ _ _)
  · exact looks_stackFault _

mutual

/-- A block is read field by field, and nested ones with it. -/
theorem looks_snapshot : (fuel d : Nat) → Keeps R (snapshot fuel d)
  | 0, d => by
    unfold snapshot
    exact .throw _
  | fuel + 1, d => by
    unfold snapshot
    refine (looks_read _).bind fun ⟨type, count⟩ ↦ (looks_typeAt type).bind fun t ↦ ?_
    refine (looks_inlineKind fuel t).bind fun kind ↦ ?_
    split
    · exact (looks_blockFields d).bind fun _ ↦ (looks_ofExcept _).bind fun _ ↦
        looks_onDomain (Domain.grows_newObject _)
    · refine (Keeps.mapM (fun ⟨f, i⟩ ↦ ?_) _).bind fun fields ↦
        looks_onDomain (Domain.grows_newObject _)
      refine (looks_read _).bind fun s ↦ ?_
      split
      · exact (looks_read _).bind fun _ ↦ looks_sharedOrCopied _ _
      · exact looks_readValue fuel _ _
    · exact looks_notInline _

/-- The value of a slot, boxed if it is a struct. -/
theorem looks_readValue : (fuel : Nat) → (s : Slot) → (t : TypeId) → Keeps R (readValue fuel s t)
  | 0, s, t => by
    unfold readValue
    exact .throw _
  | fuel + 1, s, t => by
    have hheap : Keeps R (do
        let v ← readHeap fuel s
        return shownAs v (← descriptor (← referent t)).primitive?) :=
      (looks_readHeap fuel s).bind fun _ ↦ (looks_referent t).bind fun _ ↦
        (looks_descriptor _).bind fun _ ↦ .pure _
    unfold readValue
    cases s with
    | null => exact .pure _
    | int32 v => exact (looks_descriptor t).bind fun _ ↦ .pure _
    | int64 v => exact (looks_descriptor t).bind fun _ ↦ .pure _
    | single v => exact (looks_descriptor t).bind fun _ ↦ .pure _
    | double v => exact (looks_descriptor t).bind fun _ ↦ .pure _
    | object entry =>
      exact (looks_read _).bind fun _ ↦ (looks_descriptor t).bind fun _ ↦ .pure _
    | block d => exact looks_snapshot fuel d
    | stackRef addr =>
      refine (looks_read _).bind fun inner ↦ ?_
      split
      · exact looks_snapshot fuel addr
      · exact (looks_referent t).bind fun _ ↦ looks_readValue fuel _ _
    | fieldRef entry field => exact hheap
    | elementRef entry index => exact hheap
    | staticRef type field => exact hheap
    | header type fields => exact looks_stackFault _

end

theorem looks_boundSlots (binder : StructBinder) (t : TypeId) (id : ObjectId) :
    Keeps R (boundSlots binder t id) := by
  unfold boundSlots
  refine (looks_askDomain _).bind fun domain ↦ ?_
  split
  · exact looks_ofExcept _
  · exact .throw _

theorem looks_checkBox (t : TypeId) (id : ObjectId) : Keeps R (checkBox t id) := by
  unfold checkBox
  refine (looks_askDomain _).bind fun domain ↦ ?_
  split
  · exact looks_castMismatch _ _
  · exact .pure _

theorem looks_notBoxed (v : Value) (t : TypeId) : Keeps R (notBoxed v t : RunM α) :=
  (looks_askDomain _).bind fun _ ↦ .throw _

/-! ### Carries and targets -/

theorem looks_loadCarry (addr : Nat) : Keeps R (loadCarry addr) := by
  unfold loadCarry
  refine (looks_read _).bind fun s ↦ ?_
  split
  · exact (looks_read _).bind fun _ ↦ .pure _
  · exact .pure _
  · exact (looks_read _).bind fun _ ↦ .pure _
  · exact (looks_read _).bind fun _ ↦ .pure _
  · exact looks_stackFault _
  · exact .pure _

theorem looks_loadTop : Keeps R loadTop := (looks_read _).bind fun _ ↦ looks_loadCarry _

theorem looks_detach (fuel : Nat) (c : Carry) : Keeps R (detach fuel c) := by
  unfold detach
  split
  · exact (looks_snapshot _ _).bind fun _ ↦ .pure _
  · exact .pure _

/-- The value of what was taken off the stack. -/
theorem looks_carryValue (fuel : Nat) (c : Carry) (t : TypeId) : Keeps R (carryValue fuel c t) := by
  unfold carryValue
  split
  · exact .pure _
  · split
    · exact (looks_descriptor t).bind fun _ ↦ .pure _
    · exact .throw _
  · exact (looks_descriptor t).bind fun _ ↦ .pure _
  · exact looks_snapshot _ _
  · exact .throw _
  · exact .throw _

theorem looks_targetOfValue (v : Value) : Keeps R (targetOfValue v) := by
  unfold targetOfValue
  split
  · exact .pure _
  · exact .pure _
  · exact (looks_askDomain _).bind fun _ ↦ looks_stackFault _

/-- What an address refers to, through however many others. -/
theorem looks_targetOf : (fuel : Nat) → (s : Slot) → Keeps R (targetOf fuel s)
  | 0, _ => .throw _
  | fuel + 1, s => by
    unfold targetOf
    split
    · exact .pure _
    · exact (looks_read _).bind fun _ ↦ looks_targetOfValue _
    · exact .pure _
    · refine (looks_read _).bind fun inner ↦ ?_
      split
      · exact .pure _
      · exact looks_targetOf fuel _
    · exact (looks_readHeap _ _).bind fun _ ↦ looks_targetOfValue _
    · exact (looks_readHeap _ _).bind fun _ ↦ looks_targetOfValue _
    · exact (looks_readHeap _ _).bind fun _ ↦ looks_targetOfValue _
    · exact looks_stackFault _

theorem looks_loadThrough (fuel : Nat) (s : Slot) : Keeps R (loadThrough fuel s) := by
  unfold loadThrough
  split
  · refine (looks_read _).bind fun inner ↦ ?_
    split
    · exact .pure _
    · exact looks_loadCarry _
  · exact (looks_readHeap _ _).bind fun _ ↦ .pure _
  · exact (looks_readHeap _ _).bind fun _ ↦ .pure _
  · exact (looks_readHeap _ _).bind fun _ ↦ .pure _
  · exact looks_stackFault _

/-! ### Host code -/

theorem looks_blockOf : (fuel : Nat) → (s : Slot) → Keeps R (blockOf fuel s)
  | 0, _ => .throw _
  | fuel + 1, s => by
    unfold blockOf
    split
    · exact .pure _
    · refine (looks_read _).bind fun inner ↦ ?_
      split
      · exact .pure _
      · exact looks_blockOf fuel _
    · exact looks_stackFault _

theorem looks_hostArgAddr (f : HostFrame) (i : Nat) : Keeps R (f.argAddr i) := by
  unfold HostFrame.argAddr
  dsimp only
  split
  · exact .pure _
  · exact .throw _

theorem looks_argSlot (f : HostFrame) (i : Nat) : Keeps R (f.argSlot i) :=
  (looks_hostArgAddr f i).bind fun _ ↦ looks_read _

theorem looks_arg (f : HostFrame) (fuel i : Nat) : Keeps R (f.arg fuel i) :=
  (looks_argSlot f i).bind fun _ ↦ looks_readValue _ _ _

theorem looks_noReceiver (f : HostFrame) : Keeps R (f.noReceiver : RunM α) :=
  (looks_fullName _).bind fun _ ↦ .throw _

theorem looks_thisSlot (f : HostFrame) : Keeps R f.thisSlot := by
  unfold HostFrame.thisSlot
  split
  · exact looks_read _
  · exact looks_noReceiver f

theorem looks_this (f : HostFrame) (fuel : Nat) : Keeps R (f.this fuel) := by
  unfold HostFrame.this
  refine (looks_thisSlot f).bind fun s ↦ (looks_readValue _ _ _).bind fun v ↦ ?_
  split
  · exact looks_noReceiver f
  · exact .pure _

theorem looks_accessKey (a : FieldAccess) : Keeps R a.key :=
  looks_askDomain fun d ↦ d.registry.fieldKey a.field

theorem looks_accessThis (a : FieldAccess) : Keeps R a.this := by
  unfold FieldAccess.this
  split
  · exact .pure _
  · exact (looks_accessKey a).bind fun _ ↦ .throw _

theorem looks_valueSlot (a : FieldAccess) : Keeps R a.valueSlot := by
  unfold FieldAccess.valueSlot
  split
  · exact looks_read _
  · exact (looks_accessKey a).bind fun _ ↦ looks_stackFault _

theorem looks_accessValue (a : FieldAccess) (fuel : Nat) : Keeps R (a.value fuel) :=
  (looks_valueSlot a).bind fun _ ↦ looks_readValue _ _ _

theorem looks_callHostCode {c : Callees} (hc : ∀ r, Keeps R (Running.onDomain (c.serve r)))
    (fuel : Nat)
    (f : HostFrame) (host : HostMethod) : Keeps R (callHostCode c fuel f host) := by
  have hcall (receiver : Option Value) {args : RunM (List Value)} (hargs : Keeps R args) :
      Keeps R (do
        let args ← args
        let r ← (Domain.ask (·.registry) : DomainM Registry)
        let call : HostCall :=
          ⟨r.key f.method, r.fullName f.method, f.method.declaring, receiver, args⟩
        Running.onDomain ((host.code call).run c.serve)) :=
    hargs.bind fun _ ↦ (looks_askDomain _).bind fun _ ↦ looks_host hc _
  unfold callHostCode
  dsimp only
  split
  · refine (looks_read _).bind fun _ ↦ (looks_readValue _ _ _).bind fun receiver ↦ ?_
    exact hcall receiver (Keeps.mapM (fun p ↦ (looks_read _).bind fun _ ↦ looks_readValue _ _ _) _)
  · exact hcall none (Keeps.mapM (fun p ↦ (looks_read _).bind fun _ ↦ looks_readValue _ _ _) _)

/-! ### Calls -/

/-- The type that a virtual call goes by. -/
theorem looks_receiverType : (fuel : Nat) → (s : Slot) → Keeps R (receiverType fuel s)
  | 0, _ => .throw _
  | fuel + 1, s => by
    have hprimitive (p : Primitive) : Keeps R (do
        return some (← (Running.onDomain (Domain.inRegistry (Registry.primitive p))))) :=
      (looks_onDomain (Domain.grows_primitive p)).bind fun _ ↦ .pure _
    have hheap : Keeps R (do
        let v ← readHeap fuel s
        Running.onDomain (Domain.typeOfValue v)) :=
      (looks_readHeap fuel s).bind fun _ ↦ looks_onDomain (Domain.grows_typeOfValue _)
    unfold receiverType
    cases s with
    | null => exact .pure _
    | int32 v => exact hprimitive _
    | int64 v => exact hprimitive _
    | single v => exact hprimitive _
    | double v => exact hprimitive _
    | object entry =>
      exact (looks_read _).bind fun _ ↦ looks_onDomain (Domain.grows_typeOfValue _)
    | block d => exact (looks_read _).bind fun _ ↦ (looks_typeAt _).bind fun _ ↦ .pure _
    | stackRef addr =>
      refine (looks_read _).bind fun inner ↦ ?_
      split
      · exact (looks_typeAt _).bind fun _ ↦ .pure _
      · exact looks_receiverType fuel _
    | fieldRef entry field => exact hheap
    | elementRef entry index => exact hheap
    | staticRef type field => exact hheap
    | header type fields => exact looks_stackFault _

theorem looks_nullReference : Keeps R (nullReference : RunM α) :=
  looks_onDomain (Domain.grows_raise _ _)

theorem grows_newInstance {R' : Domain → Domain → Prop} [Domain.Growth R'] (fuel : Nat)
    (t : TypeId) : Keeps R' (newInstance fuel t) := by
  unfold newInstance
  refine (Domain.grows_inRegistry (Registry.grows_layout fuel t)).bind fun l ↦ ?_
  refine (Keeps.mapM (fun _ ↦ Domain.grows_defaultValue fuel _) _).bind fun fields ↦ ?_
  refine (Domain.grows_inRegistry (Registry.grows_firstHostBase fuel t)).bind fun base ↦ ?_
  refine (Domain.grows_ask _).bind fun adaptor ↦ ?_
  split
  · exact .throw _
  · exact Domain.grows_allocate _

/-! ### Operands -/

theorem looks_raise (f : CoreLibrary.Fault) (message : String) :
    Keeps R (raise f message : RunM α) :=
  looks_onDomain (Domain.grows_raise f message)

theorem looks_top : Keeps R top := looks_read _

theorem looks_peek (depth : Nat) : Keeps R (peek depth) := looks_read _

theorem looks_referenceValue (s : Slot) : Keeps R (referenceValue s) := by
  unfold referenceValue
  split
  · exact .pure _
  · exact looks_read _
  · exact looks_stackFault _

theorem looks_compareSlots (op : Comparison) (left right : Slot) :
    Keeps R (compareSlots op left right) := by
  unfold compareSlots
  split
  · exact (looks_ofExcept _).bind fun _ ↦ .pure _
  · split
    · exact (looks_referenceValue left).bind fun _ ↦ (looks_referenceValue right).bind fun _ ↦
        looks_ofExcept _
    · split
      · exact .pure _
      · exact .pure _
      · exact looks_stackFault _

theorem looks_compareTop (op : Comparison) : Keeps R (compareTop op) :=
  (looks_peek 1).bind fun _ ↦ looks_top.bind fun _ ↦ looks_compareSlots _ _ _

theorem looks_truthy (s : Slot) : Keeps R (truthy s) := by
  unfold truthy
  split
  all_goals first | exact .pure _ | exact (looks_read _).bind fun _ ↦ .pure _

theorem looks_arrayAt (depth : Nat) : Keeps R (arrayAt depth) := by
  unfold arrayAt
  refine (looks_peek depth).bind fun s ↦ (looks_referenceValue s).bind fun v ↦ ?_
  split
  · exact looks_nullReference
  · refine (looks_askDomain _).bind fun domain ↦ ?_
    split
    · exact .pure _
    · exact looks_stackFault _
  · exact (looks_askDomain _).bind fun _ ↦ looks_stackFault _

theorem looks_elementType (array : ObjectId) : Keeps R (elementType array) := by
  unfold elementType
  refine (looks_askDomain _).bind fun t ↦ ?_
  split
  · exact .pure _
  · exact looks_onDomain (Domain.grows_coreType _)

theorem looks_indexFault (index : Slot) : Keeps R (indexFault index : RunM α) := looks_raise _ _

theorem looks_newElements (fuel : Nat) (t : TypeId) (length : Nat) :
    Keeps R (newElements fuel t length) := by
  unfold newElements
  refine (looks_descriptor t).bind fun d ↦ (looks_askDomain _).bind fun factory ↦ ?_
  split
  · refine (looks_onDomain (Domain.grows_runHost _)).bind fun items ↦ ?_
    split
    · exact looks_stackFault _
    · exact .pure _
  · split
    · exact .mapM (fun _ ↦ looks_onDomain (Domain.grows_defaultValue _ _)) _
    · exact (looks_onDomain (Domain.grows_defaultValue _ _)).bind fun _ ↦ .pure _

theorem looks_outsideArray : Keeps R (outsideArray : RunM α) := looks_raise _ _

theorem looks_boxFits (v : Value) (t : TypeId) : Keeps R (boxFits v t) := by
  unfold boxFits
  refine (looks_descriptor t).bind fun d ↦ ?_
  split
  · exact .pure _
  · split
    · exact looks_askDomain _
    · exact .pure _

theorem looks_invalidCast (source target : String) : Keeps R (invalidCast source target : RunM α) :=
  looks_raise _ _

theorem looks_nameOfType (t : TypeId) : Keeps R (nameOfType t) :=
  (looks_descriptor t).bind fun _ ↦ .pure _

/-! ### Fields -/

theorem looks_fieldKey (field : Field) : Keeps R (fieldKey field) :=
  looks_askDomain fun d ↦ d.registry.fieldKey field

theorem looks_noAccessor (field : Field) (verb : String) :
    Keeps R (noAccessor field verb : RunM α) :=
  (looks_nameOfType _).bind fun _ ↦ .throw _

theorem looks_hostReceiver (fuel : Nat) (target : Target) : Keeps R (hostReceiver fuel target) := by
  cases target with
  | object id => exact .pure _
  | block d => exact looks_snapshot _ _
  | null => exact looks_nullReference

/-! ### Instructions -/

theorem looks_argAddr (f : Frame) (n : UInt16) : Keeps R (argAddr f n) := by
  unfold argAddr
  split
  · exact .pure _
  · exact (looks_fullName _).bind fun _ ↦ .throw _

theorem looks_localAddr (f : Frame) (n : UInt16) : Keeps R (localAddr f n) := by
  unfold localAddr
  split
  · exact .pure _
  · exact (looks_fullName _).bind fun _ ↦ .throw _

theorem looks_typeOperand (f : Frame) (token : Token) : Keeps R (typeOperand f token) :=
  looks_inRegistry (Registry.grows_resolveTypeToken _ _ _)

theorem looks_fieldOperand (fuel : Nat) (f : Frame) (token : Token) :
    Keeps R (fieldOperand fuel f token) := looks_inRegistry (Registry.grows_resolveField _ _ _ _)

theorem looks_methodOperand (fuel : Nat) (f : Frame) (token : Token) :
    Keeps R (methodOperand fuel f token) := looks_inRegistry (Registry.grows_resolveMethod _ _ _ _)

theorem looks_operandsBase (f : Frame) (count : Nat) : Keeps R (operandsBase f count) := by
  unfold operandsBase
  refine (looks_ask _).bind fun top ↦ ?_
  split
  · exact .pure _
  · exact (looks_fullName _).bind fun _ ↦ looks_stackFault _

theorem looks_throwTop : Keeps R (throwTop : RunM α) := by
  unfold throwTop
  refine looks_top.bind fun s ↦ (looks_referenceValue s).bind fun v ↦ ?_
  split
  · exact looks_nullReference
  · exact .throw _

/-! ### Exceptions -/

theorem looks_stackTrace : Keeps R stackTrace := fun r ↦ refl_of R r

theorem looks_withTrace (raised : Raised) : Keeps R (withTrace raised) := by
  unfold withTrace
  split
  · exact looks_stackTrace.bind fun _ ↦ .pure _
  · exact .pure _

theorem looks_catchFit (fuel : Nat) (f : Frame) (v : Value) (clause : Clause) :
    Keeps R (catchFit fuel f v clause) := by
  unfold catchFit
  split
  · exact .pure _
  · refine (looks_inRegistry (Registry.grows_resolveTypeToken _ _ _)).bind fun caught ↦ ?_
    refine (looks_onDomain (Domain.grows_typeOfValue v)).bind fun source ↦ ?_
    split
    · exact .pure _
    · split
      · exact .pure _
      · refine (looks_inRegistry (Registry.grows_isAssignable _ _ _)).bind fun fits ↦ ?_
        split <;> exact .pure _

theorem looks_selectFrom {fits : Nat → Clause → RunM (Option CatchFit)}
    (h : ∀ i clause, Keeps R (fits i clause)) (addr : Nat) : (best : Option Candidate) →
    (clauses : List (Nat × Clause)) → Keeps R (selectFrom fits addr best clauses)
  | _, [] => .pure _
  | best, (index, clause) :: rest => by
    unfold selectFrom
    split
    · refine (h index clause).bind fun fit ↦ ?_
      split
      · exact looks_selectFrom h addr best rest
      · exact looks_selectFrom h addr _ rest
    · exact looks_selectFrom h addr best rest

theorem looks_selectCatch {fits : Nat → Clause → RunM (Option CatchFit)}
    (h : ∀ i clause, Keeps R (fits i clause)) (clauses : List Clause) (addr : Nat) :
    Keeps R (selectCatch clauses addr fits) :=
  (looks_selectFrom h addr none _).bind fun _ ↦ .pure _

theorem looks_rethrow (f : Frame) (addr : Nat) : Keeps R (rethrow f addr : RunM α) := by
  unfold rethrow
  split <;> exact .throw _

theorem looks_breakpoint : Keeps R breakpoint :=
  looks_stackTrace.bind fun _ ↦
    Keeps.bind (fun r ↦ refl_of R r) fun _ ↦ looks_onDomain (Domain.grows_record _)

end Engine

end ManagedMachine
