import ManagedMachine.Proofs.ClauseOrder
import ManagedMachine.Proofs.CoreTypes
import ManagedMachine.Proofs.Succeeding

/-!
# Null dereferences

An instruction that needs the object of an operand raises a `System.NullReferenceException` where
the operand stands for null, and the exception goes to the clauses of the frame like any other. What
the instruction does from the moment that its token is resolved is what `nullReference` does, so
each instruction is looked at on its own, and the exception once.

Loads and stores through an address, and the reset of what an address refers to, are different: null
is no address to them, and their fault passes the clauses by.

`Dereferences` lists the instructions with the operand that they need and `null_dereference_raises`
goes through the list. Since resolving a token may change the registry, each case has to say in
which registry the exception is made (`Resolves`); that the type of the exception is there follows
from the core library alone (`nullReference_raises`).
-/

set_option autoImplicit false
set_option relaxedAutoImplicit false

namespace ManagedMachine

open Engine

/-! ### Operands that stand for null -/

namespace Stack

variable {st : Stack} {addr depth : Nat}

/-- The slot is null, or refers to a null entry. -/
inductive IsNull (st : Stack) : Slot → Prop
  | null : st.IsNull .null
  | entry {i : Nat} (h : st.entry i = .ok .null) : st.IsNull (.object i)

/-- A value that is null is null on the stack. -/
theorem Carries.isNull (h : st.Carries addr .null) : ∃ s, st.slotAt addr = .ok s ∧ st.IsNull s := by
  rcases h with ⟨hslot, -⟩ | ⟨i, hslot, hentry⟩
  · exact ⟨.null, slotAt_of_some hslot, .null⟩
  · exact ⟨.object i, slotAt_of_some hslot, .entry (entry_of_some hentry)⟩

/-- The operand `depth` positions below the top one stands for null. -/
def NullAt (st : Stack) (depth : Nat) : Prop :=
  depth < st.top ∧ st.Carries (st.top - (depth + 1)) .null

theorem NullAt.peek (h : st.NullAt depth) : ∃ s, st.peek depth = .ok s ∧ st.IsNull s := by
  obtain ⟨s, hslot, hnull⟩ := h.2.isNull
  exact ⟨s, by rw [Stack.peek, if_neg (Nat.not_le.mpr h.1), hslot], hnull⟩

theorem topSlot_eq_peek (h : 0 < st.top) : st.topSlot = st.peek 0 := by
  have htop : st.topAddr = .ok (st.top - 1) := if_neg (by omega)
  rw [topSlot, htop, Stack.peek, if_neg (by omega)]
  rfl

theorem peek_of_lt (hfits : st.top ≤ st.slots.size) (h : depth < st.top) :
    ∃ s, st.peek depth = .ok s := by
  have hslot : st.top - (depth + 1) < st.slots.size := by omega
  exact ⟨_, by rw [Stack.peek, if_neg (by omega), slotAt_of_some (Array.getElem?_eq_getElem hslot)]⟩

end Stack

namespace Engine

variable {c : Callees} {fuel addr depth : Nat} {f : Frame} {i : Instruction} {s : Slot}
variable {r r₁ : Running} {α β : Type}

theorem top_ok (h : r.stack.peek 0 = .ok s) : top r = .ok s r :=
  Spec.read_ok ((Stack.topSlot_eq_peek (Stack.peek_ok h).1).trans h)

theorem peek_ok (h : r.stack.peek depth = .ok s) : peek depth r = .ok s r := Spec.read_ok h

theorem entry_ok {i : Nat} {v : Value} (h : r.stack.entry i = .ok v) :
    read (·.entry i) r = .ok v r := Spec.read_ok h

theorem referenceValue_null (h : r.stack.IsNull s) : referenceValue s r = .ok .null r := by
  cases h with
  | null => rfl
  | entry h => exact entry_ok h

theorem targetOf_null (h : r.stack.IsNull s) : targetOf (fuel + 1) s r = .ok .null r := by
  cases h with
  | null => rfl
  | entry h =>
    unfold targetOf
    exact bind_of_ok (entry_ok h)

theorem receiverType_null (h : r.stack.IsNull s) : receiverType (fuel + 1) s r = .ok none r := by
  cases h with
  | null => rfl
  | entry h =>
    unfold receiverType
    exact bind_of_ok (entry_ok h)

/-! ### The exception -/

/-- The exception does not depend on what it comes instead of. -/
theorem nullReference_fails (r : Running) :
    ∃ e r', ∀ α : Type, (nullReference : RunM α) r = .error e r' := by
  cases h : Domain.faultError .nullReference
      "Object reference not set to an instance of an object." r.domain with
  | ok e d => exact ⟨e, r.withDomain d, fun _ ↦ Running.onDomain_error (bind_of_ok h)⟩
  | error e d => exact ⟨e, r.withDomain d, fun _ ↦ Running.onDomain_error (bind_of_error h)⟩

/-- Nothing that is to come after the exception is done. -/
theorem nullReference_bind {x : RunM α} {g : α → RunM β} (h : x r = nullReference r₁) :
    (x >>= g) r = nullReference r₁ := by
  obtain ⟨e, r', hfails⟩ := nullReference_fails r₁
  rw [hfails β]
  exact bind_of_error (h.trans (hfails α))

/-! ### Instructions -/

/-- The instruction needs the object of the operand `depth` positions below the top one, and `r₁` is
the machine when its token is resolved. A store of an interpreted field takes what it stores
first. -/
inductive Dereferences (fuel : Nat) (f : Frame) (r : Running) :
    Instruction → (depth : Nat) → Running → Prop
  | loadField {token : Token} {field : Field} {r₁ : Running}
    (h : fieldOperand fuel f token r = .ok field r₁) (hstatic : field.isStatic = false) :
    Dereferences fuel f r (.loadField token) 0 r₁
  | loadFieldAddr {token : Token} {field : Field} {r₁ : Running}
    (h : fieldOperand fuel f token r = .ok field r₁) (hnative : field.native = none) :
    Dereferences fuel f r (.loadFieldAddr token) 0 r₁
  | storeField {token : Token} {field : Field} {r₁ : Running}
    (h : fieldOperand fuel f token r = .ok field r₁) (hstatic : field.isStatic = false)
    (hvalue : field.native = none → ∃ carry, loadTop r₁ = .ok carry r₁) :
    Dereferences fuel f r (.storeField token) 1 r₁
  | loadLength : Dereferences fuel f r .loadLength 0 r
  | loadElement : Dereferences fuel f r .loadElement 1 r
  | storeElement : Dereferences fuel f r .storeElement 2 r
  | loadElementAddr {token : Token} : Dereferences fuel f r (.loadElementAddr token) 1 r
  | callVirtual {token : Token} {id : MethodId} {r₁ : Running} {count : Nat}
    (h : methodOperand fuel f token r = .ok (some id) r₁)
    (hthis : (r₁.domain.registry.method id).flags.hasThis = true)
    (hcount : (r₁.domain.registry.method id).argCount = count + 1)
    (hargs : f.evalBase + (count + 1) ≤ r.stack.top) :
    Dereferences fuel f r (.callVirtual token) count r₁
  | unboxAny {token : Token} {t : TypeId} {r₁ : Running} (h : typeOperand f token r = .ok t r₁)
    (hvalue : isValueType (r₁.domain.registry.type t) = true) :
    Dereferences fuel f r (.unboxAny token) 0 r₁
  | throw : Dereferences fuel f r .throw 0 r

theorem arrayAt_null (h : r.stack.NullAt depth) : arrayAt depth r = nullReference r := by
  obtain ⟨s, hpeek, hnull⟩ := h.peek
  unfold arrayAt
  rw [bind_of_ok (peek_ok hpeek), bind_of_ok (referenceValue_null hnull)]

theorem loadLength_null (h : r.stack.NullAt 0) : loadLength r = nullReference r :=
  nullReference_bind (arrayAt_null h)

theorem loadElement_null (hfits : r.stack.top ≤ r.stack.slots.size) (h : r.stack.NullAt 1) :
    loadElement fuel r = nullReference r := by
  obtain ⟨s, hs⟩ := Stack.peek_of_lt hfits (Nat.zero_lt_of_lt h.1)
  unfold loadElement
  rw [bind_of_ok (top_ok hs)]
  exact nullReference_bind (arrayAt_null h)

theorem storeElement_null (hfits : r.stack.top ≤ r.stack.slots.size) (h : r.stack.NullAt 2) :
    storeElement fuel r = nullReference r := by
  obtain ⟨s, hs⟩ := Stack.peek_of_lt hfits (Nat.lt_of_succ_lt h.1)
  unfold storeElement
  rw [bind_of_ok (peek_ok hs)]
  exact nullReference_bind (arrayAt_null h)

theorem loadElementAddr_null (hfits : r.stack.top ≤ r.stack.slots.size) (h : r.stack.NullAt 1) :
    loadElementAddr r = nullReference r := by
  obtain ⟨s, hs⟩ := Stack.peek_of_lt hfits (Nat.zero_lt_of_lt h.1)
  unfold loadElementAddr
  rw [bind_of_ok (top_ok hs)]
  exact nullReference_bind (arrayAt_null h)

theorem throwTop_null (h : r.stack.NullAt 0) : (throwTop : RunM α) r = nullReference r := by
  obtain ⟨s, hs, hnull⟩ := h.peek
  unfold throwTop
  rw [bind_of_ok (top_ok hs), bind_of_ok (referenceValue_null hnull)]
  rfl

theorem unbox_null {t : TypeId} (h : r.stack.NullAt 0) : unbox fuel t r = nullReference r := by
  obtain ⟨s, hs, hnull⟩ := h.peek
  unfold unbox
  rw [bind_of_ok (top_ok hs), bind_of_ok (referenceValue_null hnull)]
  rfl

theorem unboxAny_null {t : TypeId} (hvalue : isValueType (r.domain.registry.type t) = true)
    (h : r.stack.NullAt 0) : unboxAny fuel t r = nullReference r := by
  unfold unboxAny
  rw [bind_of_ok (descriptor_ok t r), if_pos hvalue]
  exact unbox_null h

/-- A host field has to have a receiver as well. -/
theorem hostReceiver_null : hostReceiver fuel .null r = nullReference r := rfl

theorem loadField_null {field : Field} (hstatic : field.isStatic = false) (h : r.stack.NullAt 0) :
    loadField c (fuel + 1) field r = nullReference r := by
  obtain ⟨s, hs, hnull⟩ := h.peek
  unfold loadField
  rw [if_neg (by simp [hstatic]), bind_of_ok (top_ok hs), bind_of_ok (targetOf_null hnull)]
  split
  · exact nullReference_bind hostReceiver_null
  · rfl

theorem loadFieldAddr_null {field : Field} (hnative : field.native = none) (h : r.stack.NullAt 0) :
    loadFieldAddr (fuel + 1) field r = nullReference r := by
  obtain ⟨s, hs, hnull⟩ := h.peek
  unfold loadFieldAddr
  rw [if_neg (by simp [hnative]), bind_of_ok (top_ok hs)]
  cases hnull with
  | null => rfl
  | entry h => exact bind_of_ok (targetOf_null (.entry h))

theorem storeField_null {field : Field} (hstatic : field.isStatic = false)
    (hvalue : field.native = none → ∃ carry, loadTop r = .ok carry r) (h : r.stack.NullAt 1) :
    storeField c (fuel + 1) field r = nullReference r := by
  obtain ⟨s, hs, hnull⟩ := h.peek
  unfold storeField
  rw [if_neg (by simp [hstatic]), bind_of_ok (peek_ok hs), bind_of_ok (targetOf_null hnull)]
  split
  · exact nullReference_bind hostReceiver_null
  · next hnative =>
    obtain ⟨carry, hcarry⟩ := hvalue (by simpa using hnative)
    exact (bind_of_ok hcarry).trans (nullReference_bind rfl)

theorem callMethod_null {id : MethodId} {argBase : Nat}
    (hthis : (r.domain.registry.method id).flags.hasThis = true)
    (h : r.stack.Carries argBase .null) :
    callMethod c (fuel + 1) id argBase true r = nullReference r := by
  obtain ⟨s, hs, hnull⟩ := h.isNull
  have hmethod : method id r = .ok (r.domain.registry.method id) r := rfl
  have hslot : read (·.slotAt argBase) r = .ok s r := Spec.read_ok hs
  unfold callMethod
  rw [bind_of_ok hmethod, hthis]
  refine (bind_of_ok hslot).trans ((bind_of_ok (receiverType_null hnull)).trans ?_)
  exact nullReference_bind rfl

/-- A call of an instance method needs its receiver, which is the operand below the other arguments.
-/
theorem call_null {token : Token} {id : MethodId} {count : Nat}
    (hmethod : methodOperand (fuel + 1) f token r = .ok (some id) r₁)
    (hthis : (r₁.domain.registry.method id).flags.hasThis = true)
    (hcount : (r₁.domain.registry.method id).argCount = count + 1)
    (hargs : f.evalBase + (count + 1) ≤ r₁.stack.top) (h : r₁.stack.NullAt count) :
    call c (fuel + 1) f token true r = nullReference r₁ := by
  have hfound : method id r₁ = .ok (r₁.domain.registry.method id) r₁ := rfl
  have hbase : operandsBase f (r₁.domain.registry.method id).argCount r₁ =
      .ok (r₁.stack.top - (count + 1)) r₁ := by
    have htop : ask Stack.top r₁ = .ok r₁.stack.top r₁ := rfl
    rw [hcount, operandsBase, bind_of_ok htop, if_pos hargs]
    rfl
  unfold call
  rw [bind_of_ok hmethod]
  exact (bind_of_ok hfound).trans ((bind_of_ok hbase).trans (callMethod_null hthis h.2))

/-- Resolving a token adds to the registry and does nothing else. -/
structure Resolves (r r₁ : Running) : Prop where
  interpreter : r₁.interpreter = r.interpreter
  reached : r.domain.registry.Reached → r₁.domain.registry.Reached

theorem resolves_of_operation {x : RegistryM α} {a : α} (hx : Registry.Operation x)
    (h : Running.onDomain (Domain.inRegistry x) r = .ok a r₁) : Resolves r r₁ := by
  obtain ⟨registry, hok, rfl⟩ := inRegistry_ok h
  exact ⟨rfl, fun hreached ↦ endState_ok hok ▸ hreached.step hx⟩

/-- Up to the operand, the instruction has only resolved what it names. -/
theorem Dereferences.resolves (h : Dereferences fuel f r i depth r₁) : Resolves r r₁ := by
  cases h with
  | loadField h | loadFieldAddr h | storeField h =>
    exact resolves_of_operation (.resolveField fuel f.home _ f.context) h
  | callVirtual h => exact resolves_of_operation (.resolveMethod fuel f.home _ f.context) h
  | unboxAny h => exact resolves_of_operation (.resolveTypeToken f.home _ f.context) h
  | loadLength | loadElement | storeElement | loadElementAddr | throw => exact ⟨rfl, id⟩

/-- What an instruction does once its token is resolved. -/
theorem step_null (hfits : r.stack.top ≤ r.stack.slots.size)
    (h : Dereferences (fuel + 1) f r i depth r₁) (hnull : r.stack.NullAt depth) :
    step c (fuel + 1) f addr i r = nullReference r₁ := by
  have hstack : r₁.stack = r.stack := congrArg Interpreter.stack h.resolves.interpreter
  rw [← hstack] at hfits hnull
  cases h with
  | loadField h hstatic =>
    exact nullReference_bind ((bind_of_ok h).trans (loadField_null hstatic hnull))
  | loadFieldAddr h hnative =>
    exact nullReference_bind ((bind_of_ok h).trans (loadFieldAddr_null hnative hnull))
  | storeField h hstatic hvalue =>
    exact nullReference_bind ((bind_of_ok h).trans (storeField_null hstatic hvalue hnull))
  | loadLength => exact nullReference_bind (loadLength_null hnull)
  | loadElement => exact nullReference_bind (loadElement_null hfits hnull)
  | storeElement => exact nullReference_bind (storeElement_null hfits hnull)
  | loadElementAddr => exact nullReference_bind (loadElementAddr_null hfits hnull)
  | callVirtual h hthis hcount hargs =>
    rw [← hstack] at hargs
    exact nullReference_bind (call_null h hthis hcount hargs hnull)
  | unboxAny h hvalue =>
    exact nullReference_bind ((bind_of_ok h).trans (unboxAny_null hvalue hnull))
  | throw => exact throwTop_null hnull

end Engine

/-! ### The exception that is raised -/

/-- A `System.NullReferenceException` with its message. -/
def Domain.IsNullReference (d : Domain) (v : Value) : Prop :=
  ∃ id t, v = .object id ∧ d.heap.object id = .native t
      (.exception (some "Object reference not set to an instance of an object.")) ∧
    d.registry.typeName t = "System.NullReferenceException"

namespace Engine

variable {c : Callees} {fuel depth : Nat} {i : Instruction} {p : Place} {r : Running} {α : Type}

/-- The exception is an object of a type of that name, whatever else is loaded. -/
theorem nullReference_raises (h : r.domain.registry.Reached) :
    ∃ v d, (nullReference : RunM α) r = .error (.exception ⟨v, []⟩) (r.withDomain d) ∧
      d.IsNullReference v := by
  obtain ⟨type, hcore⟩ : ∃ type,
      CoreLibrary.find? CoreLibrary.Fault.nullReference.typeName = some type := ⟨_, rfl⟩
  obtain ⟨t, registry, ht, hname⟩ := h.coreType_ok hcore
  let o : HeapObject := .native t
    (.exception (some "Object reference not set to an instance of an object."))
  let d : Domain := { r.domain with registry, heap := (r.domain.heap.allocate o).2 }
  have hcoreType : (Registry.coreType CoreLibrary.Fault.nullReference.typeName : DomainM TypeId)
      r.domain = .ok t { r.domain with registry } := by
    simp only [liftM, monadLift, MonadLift.monadLift, Domain.inRegistry, ht]
  have hfault : Domain.faultError .nullReference
      "Object reference not set to an instance of an object." r.domain =
        .ok (.exception ⟨.object (r.domain.heap.allocate o).1, []⟩) d := by
    unfold Domain.faultError
    rw [bind_of_ok hcoreType]
    rfl
  exact ⟨_, d, Running.onDomain_error (bind_of_ok hfault), _, t, rfl,
    Heap.object_allocate_self _ o, hname⟩

/-- An instruction whose operand stands for null where it needs the object raises a
`System.NullReferenceException`, and the exception goes to the clauses of the frame. -/
theorem null_dereference_raises (hreached : p.machine.domain.registry.Reached)
    (hfits : p.machine.stack.top ≤ p.machine.stack.capacity) (hi : p.instruction? = some i)
    (hderef : ∃ r₁, Dereferences (fuel + 1) p.frame p.noted i depth r₁)
    (hnull : p.machine.stack.NullAt depth) :
    ∃ v r, Raises c (fuel + 1) p p.frame ⟨v, []⟩ r ∧ r.domain.IsNullReference v ∧
      r.interpreter = p.noted.interpreter ∧
      advance c (fuel + 1) p.frame p.addr i p.noted =
        dispatch (fuel + 1) p.frame p.addr ⟨v, []⟩ r := by
  obtain ⟨r₁, hderef⟩ := hderef
  have hstep : step c (fuel + 1) p.frame p.addr i p.noted = nullReference r₁ :=
    step_null (p.noted_stack ▸ hfits) hderef (p.noted_stack ▸ hnull)
  have hdomain : p.noted.domain = p.machine.domain := p.machine.noting_domain p.addr
  obtain ⟨v, d, hraises, hv⟩ : ∃ v d, (nullReference : RunM (Outcome × Frame)) r₁ = _ ∧ _ :=
    nullReference_raises (hderef.resolves.reached (hdomain ▸ hreached))
  refine ⟨v, r₁.withDomain d, .step hi (hstep.trans hraises), hv, hderef.resolves.interpreter, ?_⟩
  rw [advance, hstep.trans hraises]

end Engine

/-- A registry with one interpreted class. -/
def Registry.onlyThing : Registry :=
  define ⟨⟨0⟩, .thing⟩ 0 ⟨"N", "Thing", .none, none, [], [], #[], #[]⟩
    { empty with modules := #[.thing] }

namespace Registry

theorem reached_onlyThing : onlyThing.Reached := by
  have hfree : ∀ name ∈ definitionNames .thing, name ∉ empty.names :=
    fun name _ ↦ Std.HashMap.not_mem_empty
  have hadd : addDefinitions ⟨⟨0⟩, .thing⟩ [(0, ⟨"N", "Thing", .none, none, [], [], #[], #[]⟩)]
      { empty with modules := #[.thing] } = .ok () onlyThing :=
    addDefinitions_of_free [] Std.HashMap.not_mem_empty
  have hload : loadModule .thing empty = .ok ⟨0⟩ onlyThing :=
    (loadModule_of_free rfl hfree).trans (bind_of_ok hadd)
  exact endState_ok hload ▸ Reached.empty.step (.loadModule .thing)

/-- In the sample a token is its type, in every context. -/
theorem resolveTypeToken_onlyThing (c : GenericContext) :
    ∃ r, resolveTypeToken ⟨0⟩ (Module.typeToken 0) c onlyThing = .ok ⟨0⟩ r := by
  let ref : Reference := ⟨⟨0⟩, Module.typeToken 0⟩
  have hknown : onlyThing.tokens.types[ref]? = none := Std.HashMap.getElem?_empty
  have hmodule : lift (·.module ⟨0⟩) onlyThing = .ok .thing onlyThing := rfl
  have hrow : lift (fun _ ↦ Module.thing.typeSignature (Module.typeToken 0)) onlyThing =
      .ok (.definition (Module.typeToken 0)) onlyThing := rfl
  have hdefined : definedType ⟨0⟩ (Module.typeToken 0) onlyThing = .ok ⟨0⟩ onlyThing := by
    have hfound : onlyThing.definitions[ref]? = some ⟨0⟩ := Std.HashMap.getElem?_insert_self
    rw [definedType, ask_bind, hfound]
    rfl
  have hsignature : resolveSignature ⟨0⟩ c (.definition (Module.typeToken 0)) onlyThing =
      .ok (.fixed ⟨0⟩) onlyThing := by
    rw [resolveSignature]
    exact bind_of_ok hdefined
  refine ⟨{ onlyThing with
    tokens := { onlyThing.tokens with types := onlyThing.tokens.types.insert ref ⟨0⟩ } }, ?_⟩
  rw [resolveTypeToken, ask_bind, hknown]
  exact (bind_of_ok hmodule).trans ((bind_of_ok hrow).trans ((bind_of_ok hsignature).trans rfl))

end Registry

/-- An instruction under a clause that catches everything, in a machine with a null operand. -/
def Place.onNull (i : Instruction) : Place where
  fuel := 4
  frame := ⟨⟨0⟩, default, ⟨[], #[i], [⟨.catch, 0, 0, 0, 0, none⟩]⟩, ⟨0⟩, 0, 0, 0, 0, 0, [], []⟩
  addr := 0
  machine :=
    ⟨{ (default : Domain) with registry := .onlyThing }, ⟨0, (Stack.empty 8).pushed .null, []⟩⟩

namespace Engine

variable {c : Callees} {fuel depth : Nat} {i : Instruction} {p : Place} {r : Running} {α : Type}

theorem null_dereference_raises_length :
    (Place.onNull .loadLength).machine.domain.registry.Reached ∧
      (Place.onNull .loadLength).machine.stack.NullAt 0 ∧
      ∃ v r, Raises (callees 4) 3 (.onNull .loadLength) (Place.onNull .loadLength).frame ⟨v, []⟩ r ∧
        r.domain.IsNullReference v := by
  have hnull : (Place.onNull .loadLength).machine.stack.NullAt 0 := ⟨by decide, .inl ⟨rfl, rfl⟩⟩
  obtain ⟨v, r, hraises, hv, -⟩ := @null_dereference_raises (callees 4) 2 0 .loadLength
    (.onNull .loadLength) Registry.reached_onlyThing (by decide) rfl ⟨_, .loadLength⟩ hnull
  exact ⟨Registry.reached_onlyThing, hnull, v, r, hraises, hv⟩

/-! ### Null addresses -/

theorem loadThrough_null {s : Slot} (h : r.stack.IsNull s) :
    loadThrough fuel s r = .error (.stack (.addressExpected s.kind)) r := by
  cases h <;> rfl

theorem storeThrough_null {s : Slot} {carry : Carry} {t : TypeId} (h : r.stack.IsNull s) :
    storeThrough fuel s carry t r = .error (.stack (.addressExpected s.kind)) r := by
  cases h <;> rfl

/-- A reset through null, which is refused as no address. -/
theorem initObject_null {s : Slot} {t : TypeId}
    (hstruct : (r.domain.registry.type t).isStruct = false) (hs : r.stack.peek 0 = .ok s)
    (hnull : r.stack.IsNull s) :
    initObject fuel t r = .error (.stack (.addressExpected s.kind)) r := by
  have hinline : isInline fuel t r = .ok false r := by
    have hkind : inlineKind fuel t r = .ok none r := by
      unfold inlineKind
      rw [bind_of_ok (descriptor_ok t r), if_pos (by simp [hstruct])]
      rfl
    exact bind_of_ok hkind
  unfold initObject
  rw [bind_of_ok (descriptor_ok t r)]
  cases (r.domain.registry.type t).primitive? with
  | some p => exact (bind_of_ok (top_ok hs)).trans (bind_of_error (storeThrough_null hnull))
  | none =>
    refine (bind_of_ok hinline).trans ?_
    rw [hstruct]
    exact (bind_of_ok (top_ok hs)).trans (bind_of_error (storeThrough_null hnull))

/-- The instruction reads or writes what the operand `depth` positions below the top one refers to,
and `r₁` is the machine when its token is resolved. A reset is here for types without storage of
their own, so that there is something to write. -/
inductive UsesAddress (f : Frame) (r : Running) : Instruction → (depth : Nat) → Running → Prop
  | loadObject {token : Token} {t : TypeId} {r₁ : Running} (h : typeOperand f token r = .ok t r₁) :
    UsesAddress f r (.loadObject token) 0 r₁
  | storeObject {token : Token} {t : TypeId} {r₁ : Running} {carry : Carry}
    (h : typeOperand f token r = .ok t r₁) (hvalue : loadTop r₁ = .ok carry r₁) :
    UsesAddress f r (.storeObject token) 1 r₁
  | initObject {token : Token} {t : TypeId} {r₁ : Running} (h : typeOperand f token r = .ok t r₁)
    (hstruct : (r₁.domain.registry.type t).isStruct = false) :
    UsesAddress f r (.initObject token) 0 r₁

/-- Null is no address. The call ends there, and no clause has a say. -/
theorem step_null_address {f : Frame} {addr : Nat} {r₁ : Running} (h : UsesAddress f r i depth r₁)
    (hstack : r₁.stack.NullAt depth) :
    ∃ kind, step c fuel f addr i r = .error (.stack (.addressExpected kind)) r₁ := by
  obtain ⟨s, hs, hnull⟩ := hstack.peek
  refine ⟨s.kind, ?_⟩
  cases h with
  | loadObject h =>
    refine bind_of_error ((bind_of_ok h).trans ?_)
    exact (bind_of_ok (top_ok hs)).trans (bind_of_error (loadThrough_null hnull))
  | storeObject h hvalue =>
    refine bind_of_error ((bind_of_ok h).trans ((bind_of_ok hvalue).trans ?_))
    exact (bind_of_ok (peek_ok hs)).trans (bind_of_error (storeThrough_null hnull))
  | initObject h hstruct =>
    exact bind_of_error ((bind_of_ok h).trans (initObject_null hstruct hs hnull))

/-- A load through null is not caught, whatever the clauses of the frame are. -/
theorem null_address_not_raised : ¬∀ (c : Callees) (fuel depth : Nat) (p : Place) (i : Instruction),
    p.machine.domain.registry.Reached → p.machine.stack.top ≤ p.machine.stack.capacity →
    p.instruction? = some i → (∃ r₁, UsesAddress p.frame p.noted i depth r₁) →
    p.machine.stack.NullAt depth → ∃ v r, Raises c (fuel + 1) p p.frame ⟨v, []⟩ r := by
  intro h
  let p : Place := .onNull (.loadObject (Module.typeToken 0))
  have hnull : p.machine.stack.NullAt 0 := ⟨by decide, .inl ⟨rfl, rfl⟩⟩
  obtain ⟨registry, hresolve⟩ := Registry.resolveTypeToken_onlyThing p.frame.context
  have htype : typeOperand p.frame (Module.typeToken 0) p.noted =
      .ok ⟨0⟩ { p.noted with domain := { p.noted.domain with registry } } := by
    change Running.onDomain (Domain.inRegistry
      (Registry.resolveTypeToken ⟨0⟩ (Module.typeToken 0) p.frame.context)) p.noted = _
    have hregistry : p.noted.domain.registry = .onlyThing := rfl
    simp only [Running.onDomain, Domain.inRegistry, hregistry, hresolve]
  obtain ⟨v, r, hraises⟩ := h (callees 4) 2 0 p _ Registry.reached_onlyThing (by decide) rfl
    ⟨_, .loadObject htype⟩ hnull
  obtain ⟨kind, hfails⟩ : ∃ kind, step (callees 4) 3 p.frame 0 _ p.noted = .error (.stack _) _ :=
    step_null_address (.loadObject htype) hnull
  cases hraises with
  | step hi hstep =>
    cases hi
    cases hfails.symm.trans hstep
  | heldBack hi => cases hi

end Engine

end ManagedMachine
