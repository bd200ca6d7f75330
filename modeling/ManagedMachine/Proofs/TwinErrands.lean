import ManagedMachine.Engine.Stream
import ManagedMachine.Proofs.HandlerEntry
import ManagedMachine.Proofs.TwinMethods

/-!
# What the host asks of twins

The host borrows an interpreter to call a method, to make an object or to stream a call. On twins
all of this goes the same way. A host method reads its arguments by their places, so each of them
has to have been put there: a value is put on the stack unless it is passed for a parameter of type
void.

A value that is pushed leaves twins with its slot in the set, and a list of values one slot each
(`alike_pushAll` and its like), so a call that counts its arguments from there finds them all.
Streams push and call in turns, and keep for themselves no more than where they began.
-/

set_option autoImplicit false
set_option relaxedAutoImplicit false

namespace ManagedMachine

open Engine

variable {α : Type} {g : Guard} {K : Set Nat} {r r' : Running} {c : Callees}

/-- None of the types is void, whatever is registered later. -/
def Registry.Solid (r : Registry) (types : List TypeId) : Prop :=
  ∀ r', r.Extends r' → ∀ t ∈ types, (r'.type t).isVoid = false

theorem Registry.Solid.extends {r r' : Registry} {types : List TypeId} (h : r.Solid types)
    (hr : r.Extends r') : r'.Solid types := fun r'' hr' ↦ h r'' (hr.trans hr')

/-- There is a value for every parameter of the method. -/
structure Registry.Accepts (r : Registry) (id : MethodId) (args : List Value) : Prop where
  present : r.HasMethod id
  count : args.length = (r.method id).params.length

theorem Registry.Accepts.extends {r r' : Registry} {id : MethodId} {args : List Value}
    (h : r.Accepts id args) (hr : r.Extends r') : r'.Accepts id args where
  present := hr.hasMethod h.present
  count := (hr.method_eq h.present).symm ▸ h.count

/-- So many operands were put on the stack. -/
structure Running.Taller (n : Nat) (r r' : Running) : Prop where
  top : r'.stack.top = r.stack.top + n
  registry : r.domain.registry.Extends r'.domain.registry

theorem Running.Taller.trans {m n : Nat} {r s t : Running} (h : r.Taller m s) (h' : s.Taller n t) :
    r.Taller (m + n) t :=
  ⟨by rw [h'.top, h.top, Nat.add_assoc], h.registry.trans h'.registry⟩

theorem Running.Taller.after {n : Nat} {r s t : Running} (h' : s.Taller n t) (h : r.Taller 0 s) :
    r.Taller n t := Nat.zero_add n ▸ h.trans h'

/-- What is left of twins when only what a cleared stack keeps matters. -/
structure Running.Akin (r r' : Running) : Prop where
  domain : r'.domain = r.domain
  id : r'.interpreter.id = r.interpreter.id
  capacity : r'.stack.capacity = r.stack.capacity
  honest : r.domain.bindings.Honest

theorem Running.Twin.akin (h : Running.Twin g K r r') : r.Akin r' :=
  ⟨h.domain, h.id, h.stack.size, h.honest⟩

namespace Engine

/-! ### Arguments -/

theorem taller_onStack {x : StackM α} {a : α} {n : Nat}
    (hx : ∀ st, x r.stack = .ok a st → st.top = r.stack.top + n)
    (h : Running.onStack x r = .ok a r') : r.Taller n r' := by
  have hdomain : r'.domain = r.domain := by
    obtain ⟨d, i, st, frames⟩ := r
    simp only [Running.onStack] at h
    split at h
    · cases h
      rfl
    · cases h
  exact ⟨hx _ (onStack_ok h), hdomain ▸ .refl _⟩

theorem taller_push {s : Slot} (h : (Stack.push s : RunM Unit) r = .ok () r') : r.Taller 1 r' :=
  taller_onStack (fun st hst ↦ by
    obtain ⟨-, rfl⟩ := Stack.push_ok hst
    rfl) h

theorem taller_pushObject {v : Value} (h : (Stack.pushObject v : RunM Unit) r = .ok () r') :
    r.Taller 1 r' := taller_onStack (fun _ hst ↦ (Stack.pushObject_ok hst).1) h

theorem taller_of_sameTop {x : RunM α} {a : α} (htop : Keeps Running.SameTop x)
    (hx : Works Domain.Extends x) (h : x r = .ok a r') : r.Taller 0 r' :=
  ⟨htop.ok h, (hx.ok h).domain.registry⟩

theorem taller_looks {x : RunM α} {a : α}
    (hx : ∀ {R : Running → Running → Prop} [Running.Looking R], Keeps R x)
    (h : x r = .ok a r') : r.Taller 0 r' := taller_of_sameTop hx hx h

theorem taller_materialize {fuel d : Nat} {v : Value} {t : TypeId}
    (h : materialize fuel v t r = .ok d r') : r.Taller 0 r' :=
  taller_of_sameTop ((sameTop_allocInline fuel t).bind fun d ↦
    (sameTop_writeBoxed fuel d v).seqRight (.pure d)) (works_materialize fuel v t) h

/-- A value takes one operand. -/
theorem taller_pushValue {fuel : Nat} {v : Value} {t : TypeId}
    (hvoid : (r.domain.registry.type t).isVoid = false)
    (h : pushValue fuel v t r = .ok () r') : r.Taller 1 r' := by
  unfold pushValue at h
  rw [bind_of_ok (descriptor_ok t r)] at h
  cases hp : (r.domain.registry.type t).primitive? with
  | some p =>
    rw [hp] at h
    cases p with
    | void =>
      rw [Descriptor.isVoid, hp] at hvoid
      cases hvoid
    | _ =>
      obtain ⟨s, u, hs, h⟩ := exists_of_bind h
      exact (taller_push h).after (taller_looks (looks_ofExcept _) hs)
  | none =>
    rw [hp] at h
    obtain ⟨inline, u, hinline, h⟩ := exists_of_bind h
    refine Running.Taller.after ?_ (taller_looks (looks_isInline fuel t) hinline)
    split at h
    · obtain ⟨d, w, hd, h⟩ := exists_of_bind h
      exact (taller_push h).after (taller_materialize hd)
    · split at h
      · obtain ⟨w, u', hw, h⟩ := exists_of_bind h
        exact (taller_pushObject h).after (taller_looks (looks_sharedOrCopied fuel v) hw)
      · exact taller_pushObject h

/-- Values are put on the stack one by one. -/
theorem gives_pushAll : (fuel : Nat) → (args : List Value) → (types : List TypeId) → {K : Set Nat} →
    {r r' : Running} → Running.Twin g K r r' → r.domain.registry.Solid types →
    Gives (Running.Twin g) K (pushAll fuel args types) r r'
      fun _ _ t ↦ r.Taller (min args.length types.length) t
  | _, [], _, _, _, _, h, _ => .pure h ⟨by simp, .refl _⟩
  | _, _ :: _, [], _, _, _, h, _ => .pure h ⟨rfl, .refl _⟩
  | fuel, v :: args, t :: types, K, r, r', h, hsolid => by
    have hfirst := (alike_pushValue h fuel v t).also (Q := fun _ u ↦ r.Taller 1 u) fun _ u hrun ↦
      taller_pushValue (hsolid _ (.refl _) t List.mem_cons_self) hrun
    refine Gives.bind (x := pushValue fuel v t) hfirst fun K' _ u u' _ _ hu hpost ↦ ?_
    obtain ⟨-, htaller⟩ := hpost
    refine (gives_pushAll fuel args types hu fun r'' hr'' t ht ↦ hsolid r''
      (htaller.registry.trans hr'') t (List.mem_cons_of_mem _ ht)).imp fun _ _ w _ hw ↦ ?_
    have hlength : 1 + min args.length types.length =
        min (v :: args).length (t :: types).length := by
      rw [List.length_cons, List.length_cons]
      omega
    exact hlength ▸ htaller.trans hw

/-! ### Calls -/

theorem akin_restoring {x : RunM α} (h : Running.Twin g K r r')
    (hx : Alike (Running.Twin g) K x r r') :
    Alike (fun _ ↦ Running.Akin) K (restoring x) r r' := by
  have hrun (u : Running) :
      restoring x u = afterwards x (modifyStack (Stack.reset u.stack.mark)) u :=
    rfl
  unfold Alike Gives
  rw [hrun, hrun, h.mark]
  have hany : ∀ (K' K'' : Set Nat) (_ : α), K' ⊆ K'' → True → True := fun _ _ _ _ h ↦ h
  have hafter : ∀ K' t t', K ⊆ K' → Running.Twin g K' t t' →
      Alike (fun _ ↦ Running.Akin) K' (modifyStack (Stack.reset r.stack.mark)) t t' :=
    fun K' _ _ _ ht ↦ .ok ⟨K', subset_rfl, ⟨ht.domain, ht.id, ht.stack.size, ht.honest⟩, trivial⟩
  exact gives_afterwards hany hx hafter

/-- What follows when the receiver is in its place. -/
theorem alike_invocation (hc : c.Twins) (hg : g.Shields) (h : Running.Twin g K r r') (fuel : Nat)
    (id : MethodId) (m : Method) {args : List Value} {argBase : Nat}
    (hcount : args.length = m.params.length)
    (htop : argBase + m.flags.hasThis.toNat ≤ r.stack.top)
    (hsolid : r.domain.registry.Solid m.params) :
    Alike (Running.Twin g) K (do
      pushAll fuel args m.params
      invokeAt c fuel id m argBase
      if (← descriptor m.ret).isVoid then return none
      else return some (← readValue fuel (← read (·.topSlot)) m.ret)) r r' := by
  refine (gives_pushAll fuel args m.params h hsolid).seq fun _ t _ _ _ h htaller ↦ ?_
  have hargs (i : Nat) (hi : i < m.argCount) : argBase + i ∈ _ := h.stack.mem_of_lt (by
    have := htaller.top
    unfold Method.argCount at hi
    change _ < t.stack.top
    omega)
  refine (alike_invokeAt hc hg h fuel id fun _ ↦ hargs).seq fun _ _ _ _ _ h _ ↦
    Sees.andThen h (.descriptor h _) fun ret _ _ _ h _ ↦ ?_
  split
  · exact .pure h trivial
  · exact Sees.andThen h (.of_read h h.stack.topSlot) fun s _ _ _ h hs ↦
      Sees.andThen h (sees_readValue fuel h (h.stack.shown_topSlot hs).leads _) fun _ _ _ _ h _ ↦
        .pure h trivial

/-- A call from the host, with its receiver and its arguments. -/
theorem akin_invokeHost (hc : c.Twins) (hg : g.Shields) (h : Running.Twin g K r r') (fuel : Nat)
    {id : MethodId} {receiver : Option Value} {args : List Value}
    (haccepts : r.domain.registry.Accepts id args)
    (hsolid : r.domain.registry.Solid (r.domain.registry.method id).params)
    (hreceiver : (r.domain.registry.method id).flags.hasThis = true → receiver.isSome) :
    Alike (fun _ ↦ Running.Akin) K (invokeHost c fuel id receiver args) r r' := by
  refine akin_restoring h ?_
  refine Sees.andThen h (.method h id) fun m d hrun hd h hm ↦ ?_
  subst hm
  obtain rfl : r.domain = d := congrArg Running.domain (EStateM.Result.ok.inj hrun).2
  refine Sees.andThen h (.ask h h.stack.top) fun start _ _ hd h hstart ↦ ?_
  cases receiver with
  | none =>
    have hthis : (r.domain.registry.method id).flags.hasThis = false :=
      Bool.eq_false_iff.mpr fun hthis ↦ absurd (hreceiver hthis) nofun
    refine alike_invocation hc hg h fuel id _ haccepts.count ?_ (hsolid.extends hd.registry)
    rw [hthis, hstart]
    exact Nat.le_refl _
  | some v =>
    -- Whatever stands for the receiver, the arguments follow it.
    have hcall {K : Set Nat} {u u' : Running} (h : Running.Twin g K u u') {argBase n : Nat}
        (htaller : r.Taller (n + 1) u) (hbase : argBase = r.stack.top + n) :=
      alike_invocation hc hg h fuel id (r.domain.registry.method id) haccepts.count
        (by
          have := Bool.toNat_le (r.domain.registry.method id).flags.hasThis
          rw [htaller.top, hbase]
          omega : argBase + _ ≤ _)
        (hsolid.extends htaller.registry)
    refine Sees.andThen h (sees_isInline h fuel _) fun inline d hinline _ h _ ↦ ?_
    have hlooked := (taller_looks (looks_isInline fuel _) hinline).after (r := r) ⟨rfl, hd.registry⟩
    split
    · refine ((gives_materialize h fuel v _).also fun _ _ ↦ taller_materialize).bind
        fun _ block t _ _ _ h hblock ↦ ?_
      refine ((h.push (.block hblock.1)).also fun _ _ ↦ taller_push).seq fun _ u _ _ _ h hpush ↦ ?_
      have hplaced := hpush.2.after (hblock.2.after hlooked)
      have hplace : start ∈ _ := h.stack.mem_of_lt (hplaced.top ▸ hstart ▸ Nat.lt_succ_self start)
      refine ((h.push (.stackRef hplace)).also fun _ _ ↦ taller_push).seq fun _ _ _ _ _ h hpush ↦ ?_
      exact hcall h (hplaced.trans hpush.2) (congrArg (· + 1) hstart)
    · refine ((h.pushObject v).also fun _ _ ↦ taller_pushObject).seq fun _ _ _ _ _ h hpush ↦ ?_
      exact hcall h (n := 0) (hpush.2.after hlooked) hstart

/-- A new object, made by one of its constructors. -/
theorem akin_constructHost (hc : c.Twins) (hg : g.Shields) (h : Running.Twin g K r r') (fuel : Nat)
    {id : MethodId} {args : List Value} (haccepts : r.domain.registry.Accepts id args)
    (hsolid : r.domain.registry.Solid (r.domain.registry.method id).params) :
    Alike (fun _ ↦ Running.Akin) K (constructHost c fuel id args) r r' := by
  refine akin_restoring h ?_
  refine Sees.andThen h (.method h id) fun m d hrun _ h hm ↦ ?_
  subst hm
  obtain rfl : r.domain = d := congrArg Running.domain (EStateM.Result.ok.inj hrun).2
  refine Sees.andThen h (.ask h h.stack.top) fun start _ _ hd h hstart ↦ ?_
  refine (gives_pushAll fuel args _ h (hsolid.extends hd.registry)).seq
    fun K' t _ _ _ h htaller ↦ ?_
  have hargs (i : Nat) (hi : i < (t.domain.registry.method id).params.length) :
      start + i ∈ K' := by
    refine h.stack.mem_of_lt ?_
    have htop := htaller.top
    have hcount := (haccepts.extends (hd.registry.trans htaller.registry)).count
    rw [haccepts.count, Nat.min_self] at htop
    rw [← hcount, haccepts.count] at hi
    change t.stack.top = r.stack.top + _ at htop
    change start = r.stack.top at hstart
    change _ < t.stack.top
    omega
  exact (alike_constructAt hc hg h fuel id hargs).seq fun _ _ _ _ _ h _ ↦
    Sees.andThen h (.of_read h h.stack.topSlot) fun s _ _ _ h hs ↦
      (Sees.gives h (sees_readValue fuel h (h.stack.shown_topSlot hs).leads _)).alike

/-- The call of a host; a static method is called after its type has been initialized. -/
theorem akin_invocation (hc : c.Twins) (hwork : c.Work Domain.Extends) (hg : g.Shields)
    (h : Running.Twin g K r r') (fuel : Nat)
    {id : MethodId} {receiver : Option Value} {args : List Value}
    (haccepts : r.domain.registry.Accepts id args)
    (hsolid : r.domain.registry.Solid (r.domain.registry.method id).params)
    (hreceiver : (r.domain.registry.method id).flags.hasThis = true → receiver.isSome) :
    Alike (fun _ ↦ Running.Akin) K (do
      if !(r.domain.registry.method id).flags.hasThis then
        ensureInitialized c fuel (r.domain.registry.method id).declaring
      invokeHost c fuel id receiver args) r r' := by
  split
  · have hinit := alike_ensureInitialized hc hg h fuel (r.domain.registry.method id).declaring
    refine Gives.bind_weaken (fun _ _ _ ↦ Running.Twin.akin) hinit fun _ _ t _ hrun _ h _ ↦ ?_
    have hextends := ((hwork.init fuel _).ok hrun).domain.registry
    have hsame := hextends.method_eq haccepts.present
    exact akin_invokeHost hc hg h fuel (haccepts.extends hextends)
      (hsame.symm ▸ hsolid.extends hextends) (hsame.symm ▸ hreceiver)
  · exact akin_invokeHost hc hg h fuel haccepts hsolid hreceiver

/-! ### Streams -/

theorem sees_resultSlot (h : Running.Twin g K r r') (s : Stream) :
    Sees s.resultSlot r r' (·.Leads K) := by
  unfold Stream.resultSlot
  refine Sees.bind h (.method h _) fun m _ h _ ↦ Sees.bind h (.descriptor h _) fun ret _ h _ ↦ ?_
  split
  · exact Sees.bind h (.fullName h _) fun _ _ h _ ↦ .stackFault h _
  · exact (Sees.of_read h h.stack.topSlot).imp fun _ hs ↦ (h.stack.shown_topSlot hs).leads

theorem sees_pushedSlot (h : Running.Twin g K r r') (i : Nat) :
    Sees (Stream.pushedSlot i) r r' (·.Leads K) := by
  unfold Stream.pushedSlot
  refine Sees.bind h (.ask h h.stack.top) fun pushed _ h hpushed ↦ ?_
  split
  · exact .stackFault h _
  · next hi =>
    have hmem : i ∈ K := h.stack.mem_of_lt (by
      change pushed = r.stack.top at hpushed
      change i < r.stack.top
      omega)
    exact (Sees.of_read h (h.stack.slotAt hmem)).imp fun _ hs ↦ h.stack.leads_slotAt hmem hs

/-- A report on a slot is the same on both. -/
theorem sees_reportSlot (h : Running.Twin g K r r') {value : RunM Value}
    (hvalue : Sees value r r' fun _ ↦ True) (s : Slot) (reading : Reading) :
    Sees (Stream.reportSlot value s reading) r r' fun _ ↦ True := by
  have hread {β : Type} (convert : Value → Except Error β) (report : β → Report) :
      Sees (do return report (← ofExcept (convert (← value)))) r r' fun _ ↦ True :=
    Sees.bind h hvalue fun _ _ h _ ↦
      Sees.bind h (.ofExcept (P := fun _ ↦ True) h fun _ _ ↦ trivial) fun _ _ h _ ↦ .pure h trivial
  unfold Stream.reportSlot
  split
  · exact Sees.bind h hvalue fun v _ h _ ↦ .domain h (Domain.grows_report v)
  all_goals
    first
    | exact .pure h trivial
    | exact hread _ _

end Engine

/-- What is pushed as it is shows no address, and it is no header. -/
def StreamCall.Plain : StreamCall → Prop
  | .push s => s.Shown ∅
  | _ => True

namespace Engine

/-- The call at the end of a stream. -/
theorem alike_streamInvoke (hc : c.Twins) (hg : g.Shields) (h : Running.Twin g K r r') (fuel : Nat)
    (id : MethodId) : Alike (Running.Twin g) K (Stream.invoke c fuel id) r r' := by
  refine Sees.andThen h (.method h id) fun m d hrun _ h hm ↦ ?_
  subst hm
  obtain rfl : r.domain = d := congrArg Running.domain (EStateM.Result.ok.inj hrun).2
  refine Sees.andThen h (.ask h h.stack.top) fun found d hask _ h hfound ↦ ?_
  obtain rfl : r.domain = d := congrArg Running.domain (EStateM.Result.ok.inj hask).2
  split
  · exact .throw h _
  · next hcount =>
    refine alike_callMethod hc hg h fuel (fun i hi ↦ h.stack.mem_of_lt ?_) _
    change i < (r.domain.registry.method id).argCount at hi
    change found = r.stack.top at hfound
    change _ < r.stack.top
    omega

/-- One request of a stream. -/
theorem alike_streamCall (hc : c.Twins) (hg : g.Shields) (h : Running.Twin g K r r') (fuel : Nat)
    (s : Stream) {x : StreamCall} (hx : x.Plain) :
    Alike (Running.Twin g) K (s.call c fuel x) r r' := by
  cases x with
  | push slot =>
    exact (h.push (hx.mono (Set.empty_subset K))).seq fun _ _ _ _ _ h _ ↦ .pure h trivial
  | pushObject literal =>
    exact Sees.andThen h (.domain h (.program hc.serve _)) fun v _ _ _ h _ ↦
      (h.pushEntry v).bind fun _ _ _ _ _ _ h _ ↦
        (h.push ⟨.of_none rfl, rfl⟩).seq fun _ _ _ _ _ h _ ↦ .pure h trivial
  | pushReference i =>
    refine Sees.andThen h (.ask h h.stack.top) fun pushed _ _ _ h hpushed ↦ ?_
    split
    · exact Sees.stops h (.stackFault h _)
    · next hi =>
      have hmem : i ∈ K := h.stack.mem_of_lt (by
        change pushed = r.stack.top at hpushed
        change i < r.stack.top
        omega)
      exact (h.push (.stackRef hmem)).seq fun _ _ _ _ _ h _ ↦ .pure h trivial
  | invoke =>
    exact (alike_streamInvoke hc hg h fuel s.method).seq fun _ _ _ _ _ h _ ↦ .pure h trivial
  | pushed =>
    exact Sees.andThen h (.ask h h.stack.top) fun _ _ _ _ h _ ↦ .pure h trivial
  | method => exact Sees.andThen h (.askDomain h _) fun _ _ _ _ h _ ↦ .pure h trivial
  | read reading =>
    exact Sees.andThen h (sees_resultSlot h s) fun slot _ _ _ h hslot ↦
      Sees.andThen h (.method h _) fun m _ _ _ h _ ↦
        Sees.andThen h (sees_reportSlot h (sees_readValue fuel h hslot _) slot reading)
          fun _ _ _ _ h _ ↦ .pure h trivial
  | readAt reading i =>
    exact Sees.andThen h (sees_pushedSlot h i) fun slot _ _ _ h hslot ↦
      Sees.andThen h (sees_reportSlot h (Sees.bind h
        (.registry h (Registry.grows_coreType CoreLibrary.objectName)) fun t _ h _ ↦
          sees_readValue fuel h hslot t) slot reading) fun _ _ _ _ h _ ↦ .pure h trivial

/-- A stream is alike as its requests are. -/
theorem alike_streamCalls (hc : c.Twins) (hg : g.Shields) (fuel : Nat) : (xs : List StreamCall) →
    (∀ x ∈ xs, x.Plain) → (s : Stream) → {K : Set Nat} → {r r' : Running} →
    Running.Twin g K r r' → Alike (Running.Twin g) K (s.calls c fuel xs) r r'
  | [], _, _, _, _, _, h => .pure h trivial
  | x :: rest, hxs, s, K, r, r', h => by
    have hfirst := alike_streamCall hc hg h fuel s (hxs x List.mem_cons_self)
    have hrest (s : Stream) {K : Set Nat} {r r' : Running} (h : Running.Twin g K r r') :=
      alike_streamCalls hc hg fuel rest (fun x hx ↦ hxs x (List.mem_cons_of_mem _ hx)) s h
    refine Alike.andThen (Gives.catching (hfirst.bind fun _ _ _ _ _ _ h _ ↦ .pure h trivial)
      fun e _ _ _ _ h ↦ Sees.andThen h (.domain h (Domain.grows_reportError e))
        fun _ _ _ _ h _ ↦ .pure h trivial) fun _ _ _ _ _ _ h ↦ ?_
    exact (hrest _ h).bind fun _ _ _ _ _ _ h _ ↦ .pure h trivial

end Engine

end ManagedMachine
