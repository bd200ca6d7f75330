import ManagedMachine.Proofs.OperandSpecs

/-!
Access to fields, as edits. A field of a host type goes through host code, which pushes the value
that is loaded by itself; what a failed push has left behind is dropped.

`spec_loadHost` and `spec_storeHost` are about the host, whose requests are taken one at a time
(`steps_pushOnce`). The fields of the interpreter are slots of statics, of objects and of blocks,
and an instruction on one of them (`does_loadField`, `does_storeField`) finds its operands, deals
with the field and takes the operands off.
-/

set_option autoImplicit false
set_option relaxedAutoImplicit false

namespace ManagedMachine

open Engine

namespace Engine

variable {S : Scope} {c : Callees} {v : View}

/-! ### Delegates -/

theorem steps_keeping {α : Type} {x : RunM α}
    (hx : ∀ v, v.pending = [] → Spec (Edit S) x v fun _ _ ↦ True) :
    Steps (Edit S) (fun v _ ↦ v.pending = []) (keeping x : WithResult Bool α) := by
  intro v pushed hv
  obtain ⟨v', hrun, hR⟩ := (hx v hv).ends
  have hend : endState (keeping x : WithResult Bool α) (v.run, pushed) =
      (endState x v.run, pushed) := by
    simp only [endState, keeping]
    cases x v.run <;> rfl
  exact ⟨{ v' with own := none, pending := [] }, by rw [hend]; exact hrun, hR.tail .drop, rfl⟩

/-- A request to push is an edit the first time, and nothing after that. -/
theorem steps_pushOnce {a : FieldAccess} {push : RunM Unit} (ha : a.valueAddr = none)
    (hpush : ∀ v, v.pending = [] → Spec (Edit S) push v fun _ _ ↦ True) :
    Steps (Edit S) (fun v _ ↦ v.pending = []) (a.pushOnce push) := by
  intro v pushed hv
  cases pushed with
  | false =>
    have honce : endState (a.pushOnce push) (v.run, false) =
        endState (keeping push : WithResult Bool Unit) (v.run, true) := by
      simp only [endState, FieldAccess.pushOnce, ha]
      rfl
    rw [honce]
    exact steps_keeping hpush v true hv
  | true =>
    have hfault : Looks (do stackFault (.pushedTwice (← a.key)) : RunM Unit) :=
      (looks_accessKey a).bind fun _ ↦ looks_stackFault _
    have hagain : endState (a.pushOnce push) (v.run, true) =
        endState (keeping (do stackFault (.pushedTwice (← a.key))) : WithResult Bool Unit)
          (v.run, true) := by
      simp only [endState, FieldAccess.pushOnce, ha]
      rfl
    rw [hagain]
    exact steps_keeping (fun _ _ ↦ (Spec.looks hfault).trivially) v true hv

theorem steps_serveAccess (hc : ∀ r, Domain.Grows (c.serve r)) (fuel : Nat) {a : FieldAccess}
    (ha : a.valueAddr = none) (r : AccessRequest) :
    Steps (Edit S) (fun v _ ↦ v.pending = []) (serveAccess c fuel a r) := by
  have hlooks {α : Type} {x : RunM α} (hx : Looks x) :
      Steps (Edit S) (fun v _ ↦ v.pending = []) (keeping x : WithResult Bool α) :=
    steps_keeping fun _ _ ↦ (Spec.looks hx).trivially
  cases r with
  | domain r => exact hlooks (looks_of_grows (hc r))
  | receiver => exact hlooks (looks_accessThis a)
  | valueSlot => exact hlooks (looks_valueSlot a)
  | value => exact hlooks (looks_accessValue a fuel)
  | pushInt32 x => exact steps_pushOnce ha fun _ _ ↦ (Spec.push (s := .int32 x) trivial).trivially
  | pushInt64 x => exact steps_pushOnce ha fun _ _ ↦ (Spec.push (s := .int64 x) trivial).trivially
  | pushDouble x => exact steps_pushOnce ha fun _ _ ↦ (Spec.push (s := .double x) trivial).trivially
  | push x => exact steps_pushOnce ha fun v hv ↦ (spec_pushValue fuel x a.field.type hv).trivially

theorem spec_runCopy (hc : ∀ r, Domain.Grows (c.serve r)) (fuel : Nat) {a : FieldAccess}
    (ha : a.valueAddr = none) (code : FieldDelegate) (hv : v.pending = []) :
    Spec (Edit S) (runDelegate c fuel a code) v fun _ _ ↦ True :=
  (Steps.leaving (Steps.program (P := fun _ ↦ True)
    (fun r _ ↦ steps_serveAccess hc fuel ha r) _ (Program.asks_of_forall (fun _ ↦ trivial) _))
    hv).trivially

/-- A delegate that stores a value pushes none. -/
theorem steps_serveStore (hc : ∀ r, Domain.Grows (c.serve r)) (fuel : Nat) {a : FieldAccess}
    (ha : a.valueAddr.isSome = true) (r : AccessRequest) :
    Steps (Quiet S) (fun _ _ ↦ True) (serveAccess c fuel a r) := by
  have hlooks {α : Type} {x : RunM α} (hx : Looks x) :
      Steps (Quiet S) (fun _ _ ↦ True) (keeping x : WithResult Bool α) :=
    Steps.keeping (fun _ _ _ ↦ (Spec.looks hx).trivially) fun _ _ _ _ _ ↦ trivial
  have hpush (push : RunM Unit) : Steps (Quiet S) (fun _ _ ↦ True) (a.pushOnce push) := by
    have hfault : Looks (do stackFault (.pushedTwice (← a.key)) : RunM Unit) :=
      (looks_accessKey a).bind fun _ ↦ looks_stackFault _
    have hrefused : a.pushOnce push =
        (keeping (do stackFault (.pushedTwice (← a.key))) : WithResult Bool Unit) := by
      funext ⟨r, pushed⟩
      simp only [FieldAccess.pushOnce, ha, Bool.true_or, if_true]
    rw [hrefused]
    exact hlooks hfault
  cases r with
  | domain r => exact hlooks (looks_of_grows (hc r))
  | receiver => exact hlooks (looks_accessThis a)
  | valueSlot => exact hlooks (looks_valueSlot a)
  | value => exact hlooks (looks_accessValue a fuel)
  | _ => exact hpush _

theorem spec_runAssign (hc : ∀ r, Domain.Grows (c.serve r)) (fuel : Nat) {a : FieldAccess}
    (ha : a.valueAddr.isSome = true) (code : FieldDelegate) :
    Spec (Quiet S) (runDelegate c fuel a code) v fun _ _ ↦ True :=
  (Steps.leaving (Steps.program (P := fun _ ↦ True)
    (fun r _ ↦ steps_serveStore hc fuel ha r) _ (Program.asks_of_forall (fun _ ↦ trivial) _))
    trivial).trivially

/-! ### Host fields -/

/-- Loading through a binding leaves at most one operand more, and the rest as it was. -/
theorem spec_loadHost (hc : ∀ r, Domain.Grows (c.serve r)) (fuel : Nat) (field : Field)
    (receiver : Option Value) (hv : v.pending = []) :
    Spec (Edit S) (loadHost c fuel field receiver) v fun _ _ ↦ True := by
  unfold loadHost
  refine Spec.look (looks_fieldKey field) fun key d _ _ ↦ Spec.askDomain ?_
  split
  · next delegates _ =>
    refine (spec_runCopy (v := v.withDomain d) (a := ⟨field, receiver, none⟩) hc fuel rfl
      delegates.copy hv).bind fun pushed w _ _ ↦ ?_
    split
    · exact Spec.pure trivial
    · exact Spec.throw _
  · split
    · next get _ =>
      refine Spec.look (looks_onDomain (Domain.grows_runHost _)) fun x d' _ _ ↦ ?_
      exact (spec_pushValue (v := (v.withDomain d).withDomain d') fuel x field.type hv).trivially
    · exact (Spec.looks (looks_noAccessor field _)).trivially

/-- Storing through a binding does not touch the operands. -/
theorem spec_storeHost (hc : ∀ r, Domain.Grows (c.serve r)) (fuel : Nat) (field : Field)
    (receiver : Option Value) :
    Spec (Quiet S) (storeHost c fuel field receiver) v fun _ _ ↦ True := by
  unfold storeHost
  refine Spec.look (looks_fieldKey field) fun key d _ _ ↦ Spec.askDomain ?_
  split
  · next delegates _ =>
    refine Spec.read fun addr _ ↦ ?_
    exact (spec_runAssign (a := ⟨field, receiver, some addr⟩) hc fuel rfl delegates.assign).quietly
      fun _ _ _ _ ↦ Spec.pure trivial
  · refine Spec.look looks_loadTop fun carry d' _ _ ↦ ?_
    refine Spec.look (looks_carryValue fuel carry field.type) fun x d'' _ _ ↦ ?_
    split
    · exact (Spec.looks (looks_onDomain (Domain.grows_runHost _))).trivially
    · exact (Spec.looks (looks_noAccessor field _)).trivially

/-! ### Static fields -/

theorem ready_of_finds {k : Nat} (hv : S.Finds v k) : S.Ready v v.stack.top :=
  ⟨Nat.le_trans hv.bottom (Nat.sub_le _ _), Nat.le_refl _, hv.pending, hv.covers⟩

theorem does_loadStatic (hc : c.Meet S v) (fuel : Nat) (field : Field) (hv : S.Finds v 0) :
    Does S c (fun c ↦ loadStatic c fuel field) v fun _ _ ↦ True := by
  unfold loadStatic
  refine Does.ite (fun _ ↦ ?_) fun _ ↦ ?_
  · exact Does.of_same (spec_loadHost hc.serve fuel field none hv.pending) fun _ ↦ rfl
  · refine (does_ensureInitialized hc fuel _ (ready_of_finds hv)).bind fun _ w _ h ↦ ?_
    refine Does.of_spec (Spec.look (looks_onDomain (Domain.grows_static _ _ _)) fun x d _ _ ↦ ?_)
    exact (spec_pushValue (v := w.withDomain d) fuel x field.type h.pending).trivially

/-- A static that is stored takes the operand on top off. The initializer of its type may run
before. -/
theorem does_storeStatic (hc : c.Meet S v) (fuel : Nat) (field : Field) (hv : S.Finds v 1) :
    Does S c (fun c ↦ storeStatic c fuel field) v fun _ w ↦ w.Rests v.stack.top := by
  unfold storeStatic
  refine Does.ite (fun _ ↦ ?_) fun _ ↦ ?_
  · refine Does.of_same ((spec_storeHost hc.serve fuel field none).of_quiet fun _ _ hlevel _ ↦ ?_)
      fun _ ↦ rfl
    exact ⟨hlevel.top, hlevel.pending.trans hv.pending⟩
  · refine Does.look looks_loadTop fun carry d _ hR _ ↦ ?_
    refine Does.look (looks_carryValue fuel carry field.type) fun x d' _ hR' _ ↦ ?_
    have hv' := (hv.withDomain d).withDomain d'
    refine (does_ensureInitialized (hc.after (hR.trans hR')) fuel _ (ready_of_finds hv')).bind
      fun _ w _ h ↦ ?_
    refine Does.of_spec ((Spec.looks (looks_onDomain (Domain.grows_setStatic _ _ _ _))).of_quiet
      fun _ _ hlevel _ ↦ ?_)
    exact ⟨hlevel.top.trans h.top, hlevel.pending.trans h.pending⟩

theorem does_loadStaticAddr (hc : c.Meet S v) (fuel : Nat) (field : Field) (hv : S.Finds v 0) :
    Does S c (fun c ↦ loadStaticAddr c fuel field) v fun _ _ ↦ True := by
  unfold loadStaticAddr
  refine Does.ite (fun _ ↦ ?_) fun _ ↦ ?_
  · exact Does.of_spec (Spec.look (looks_fieldKey field) fun _ _ _ _ ↦ Spec.throw _)
  · refine (does_ensureInitialized hc fuel _ (ready_of_finds hv)).bind fun _ w _ h ↦ ?_
    exact Does.of_spec (Spec.push (s := .staticRef _ _) trivial).trivially

/-! ### Instance fields -/

theorem spec_detach {carry : Carry} (fuel : Nat) (h : v.Carries carry) :
    Spec (Quiet S) (detach fuel carry) v fun c w ↦ w.Carries c ∧ ∀ d, c ≠ .block d := by
  unfold detach
  split
  · exact Spec.look (looks_snapshot _ _) fun _ _ _ _ ↦ Spec.pure ⟨trivial, nofun⟩
  · next hblock => exact Spec.pure ⟨h, fun d hd ↦ hblock d hd⟩

/-- The receiver is an object, a block or an address, and gives way to the value of the field. -/
theorem does_loadField (hc : c.Meet S v) (fuel : Nat) (field : Field) (hv : S.Finds v 1) :
    Does S c (fun c ↦ loadField c fuel field) v fun _ _ ↦ True := by
  unfold loadField
  refine Does.ite (fun _ ↦ ?_) fun _ ↦ ?_
  · refine (Does.of_spec (Spec.pop hv.bottom)).bind fun _ w hR h ↦ ?_
    refine does_loadStatic (hc.after hR) fuel field ⟨?_, Edits.covers hR hv.covers, ?_, ?_⟩
    · exact h.top ▸ hv.bottom
    · exact h.pending.trans hv.pending
    · exact h.fresh ▸ hv.fresh
  refine Does.read fun s hs ↦ ?_
  obtain ⟨htop, hslot⟩ := Stack.topSlot_ok hs
  refine Does.leads (hv.known Nat.one_pos htop) hslot fun w hlevel hR hleads ↦ ?_
  refine Does.quietly (spec_targetOf fuel s w hleads) fun target w₁ hR₁ hlevel₁ htarget ↦ ?_
  have hv₁ := (hv.level hlevel).level hlevel₁
  refine Does.ite (fun _ ↦ ?_) fun _ ↦ ?_
  · refine Does.look (looks_hostReceiver fuel target) fun receiver d _ _ _ ↦ ?_
    refine (Does.of_spec (spec_pop (hv₁.withDomain d))).bind fun _ w₂ _ h ↦ ?_
    exact Does.of_same (spec_loadHost hc.serve fuel field _ h.pending) fun _ ↦ rfl
  · refine Does.of_spec ?_
    cases target with
    | null => exact (Spec.looks looks_nullReference).trivially
    | block e =>
      refine Spec.read fun addr haddr ↦ ?_
      obtain ⟨t, n, hheader, hi, rfl⟩ := Stack.fieldAddr_ok haddr
      refine Spec.fields (htarget e rfl) hheader (Or.inl ⟨e, hheader⟩)
        fun w₂ hlevel₂ _ hfields ↦ ?_
      refine (spec_loadCarry (hfields _ hi).1).quietly fun carry w₃ hlevel₃ hcarries ↦ ?_
      have hv₃ := (hv₁.level hlevel₂).level hlevel₃
      refine (spec_detach fuel hcarries).quietly fun carry' w₄ hlevel₄ hdetached ↦ ?_
      have hv₄ := hv₃.level hlevel₄
      refine (spec_pop hv₄).bind fun _ w₅ hR₅ h ↦ ?_
      exact (spec_pushCarry fuel field.type (hdetached.1.mono (Edits.known hR₅)) h.pending
        fun d hd ↦ absurd hd (hdetached.2 d)).trivially
    | object id =>
      refine Spec.look (looks_onDomain (Domain.grows_field _ _)) fun x d _ _ ↦ ?_
      refine (spec_pop (hv₁.withDomain d)).bind fun _ w₂ _ h ↦ ?_
      exact (spec_pushValue fuel x field.type h.pending).trivially

/-- The address of a field takes the place of the receiver, with no access to the field. -/
theorem spec_loadFieldAddr (fuel : Nat) (field : Field) (hv : S.Finds v 1) :
    Spec (Edit S) (loadFieldAddr fuel field) v fun _ _ ↦ True := by
  unfold loadFieldAddr
  split
  · exact Spec.look (looks_fieldKey field) fun _ _ _ _ ↦ Spec.throw _
  refine Spec.read fun s hs ↦ ?_
  obtain ⟨htop, hslot⟩ := Stack.topSlot_ok hs
  split
  · exact Spec.look (looks_fieldKey field) fun _ _ _ _ ↦ Spec.throw _
  refine Spec.leads (hv.known Nat.one_pos htop) hslot fun w hlevel hleads ↦ ?_
  refine (spec_targetOf fuel s w hleads).quietly fun target w₁ hlevel₁ htarget ↦ ?_
  have hv₁ := (hv.level hlevel).level hlevel₁
  cases target with
  | null => exact (Spec.looks looks_nullReference).trivially
  | block e =>
    refine Spec.read fun addr haddr ↦ ?_
    obtain ⟨t, n, hheader, hi, rfl⟩ := Stack.fieldAddr_ok haddr
    refine Spec.fields (htarget e rfl) hheader (Or.inl ⟨e, hheader⟩) fun w₂ hlevel₂ _ hfields ↦ ?_
    exact spec_replaceBy (hv₁.level hlevel₂) fun w₃ hR ↦ Edits.known hR (hfields _ hi).1
  | object id => exact spec_refineTop id (fun _ ↦ rfl) (fun _ ↦ rfl) hv₁

/-- Receiver and value are taken off, whatever the receiver is. -/
theorem does_storeField (hc : c.Meet S v) (fuel : Nat) (field : Field) (hv : S.Finds v 2) :
    Does S c (fun c ↦ storeField c fuel field) v fun _ _ ↦ True := by
  have hpop {X : Callees → RunM Unit} {w : View} (htop : w.stack.top = v.stack.top)
      (hX : Does S c X w fun _ w' ↦ w'.Rests v.stack.top) :
      Does S c (fun c ↦ do X c; Stack.popMany 2) w fun _ _ ↦ True :=
    hX.bind fun _ w' _ h ↦ (Does.of_spec (Spec.popMany 2 (h.top ▸ hv.bottom))).trivially
  unfold storeField
  refine Does.ite (fun _ ↦ ?_) fun _ ↦ ?_
  · exact hpop rfl (does_storeStatic hc fuel field (hv.mono (Nat.le_succ 1)))
  refine Does.read fun s hs ↦ ?_
  obtain ⟨htop, hslot⟩ := Stack.peek_ok hs
  refine Does.leads (hv.known (Nat.lt_succ_self 1) htop) hslot fun w hlevel hR hleads ↦ ?_
  refine Does.quietly (spec_targetOf fuel s w hleads) fun target w₁ hR₁ hlevel₁ htarget ↦ ?_
  have hv₁ := (hv.level hlevel).level hlevel₁
  have htop₁ : w₁.stack.top = v.stack.top := hlevel₁.top.trans hlevel.top
  refine Does.ite (fun _ ↦ ?_) fun _ ↦ ?_
  · refine Does.look (looks_hostReceiver fuel target) fun receiver d _ _ _ ↦ ?_
    refine hpop htop₁ (Does.of_same ((spec_storeHost hc.serve fuel field _).of_quiet
      fun _ _ hlevel' _ ↦ ?_) fun _ ↦ rfl)
    exact ⟨hlevel'.top.trans htop₁, hlevel'.pending.trans hv₁.pending⟩
  · refine Does.quietly (spec_loadTop hv₁.covers (hv₁.mono (Nat.le_succ 1)).bottom)
      fun carry w₂ _ hlevel₂ hcarries ↦ ?_
    have hv₂ := hv₁.level hlevel₂
    have htop₂ : w₂.stack.top = v.stack.top := hlevel₂.top.trans htop₁
    cases target with
    | null =>
      refine hpop htop₂ (Does.of_spec ((Spec.looks looks_nullReference).of_quiet
        fun _ _ hlevel' _ ↦ ?_))
      exact ⟨hlevel'.top.trans htop₂, hlevel'.pending.trans hv₂.pending⟩
    | block e =>
      refine Does.read fun addr haddr ↦ ?_
      obtain ⟨t, n, hheader, hi, rfl⟩ := Stack.fieldAddr_ok haddr
      refine hpop htop₂ (Does.of_spec ?_)
      refine Spec.fields (hlevel₂.known (htarget e rfl)) hheader (Or.inl ⟨e, hheader⟩)
        fun w₃ hlevel₃ _ hfields ↦ ?_
      have hv₃ := hv₂.level hlevel₃
      refine (spec_storeInto fuel (hfields.writable hi) (hcarries.mono hlevel₃.known) hv₃.pending
        hv₃.fresh).imp fun _ _ _ h ↦ ⟨h.top.trans (hlevel₃.top.trans htop₂), h.pending⟩
    | object id =>
      refine Does.look (looks_carryValue fuel carry field.type) fun x d _ _ _ ↦ ?_
      refine hpop htop₂
        (Does.of_spec ((Spec.looks (looks_onDomain (Domain.grows_setField _ _ _))).of_quiet
        fun _ _ hlevel' _ ↦ ?_))
      exact ⟨hlevel'.top.trans htop₂, hlevel'.pending.trans hv₂.pending⟩

end Engine

end ManagedMachine
