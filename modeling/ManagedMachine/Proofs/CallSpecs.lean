import ManagedMachine.Proofs.Calling

/-!
Calls as edits. Host code is held to what the engine does for it: a redirection may overwrite the
fields of its receiver, and a delegate may push one value. A call to an interpreted method is an
edit of its own.
-/

set_option autoImplicit false
set_option relaxedAutoImplicit false

namespace ManagedMachine

open Engine

namespace Engine

variable {S : Scope} {c : Callees} {v : View}

/-! ### Host code -/

/-- A redirection may overwrite the fields of its receiver, which is at the first argument. -/
theorem spec_setThisFields {f : HostFrame} {slots : List Slot} (fuel : Nat)
    (hf : f.hasReceiver = true → f.argBase ∈ v.known) (hslots : ∀ s ∈ slots, S.host s) :
    Spec (Quiet S) (f.setThisFields fuel slots) v fun _ _ ↦ True := by
  unfold HostFrame.setThisFields HostFrame.thisSlot
  split
  · next hreceiver =>
    refine Spec.read fun s hs ↦ ?_
    replace hs : v.slot? f.argBase = some s := Stack.slotAt_ok hs
    refine Spec.leads (hf hreceiver) hs fun v₁ _ hleads ↦ ?_
    refine (spec_blockOf fuel s v₁ hleads).quietly fun d v₂ _ hd ↦ ?_
    refine Spec.read fun ⟨type, count⟩ _ ↦ ?_
    dsimp only
    split
    · exact Spec.throw _
    · refine (Spec.forM (I := fun v' ↦ d ∈ v'.known) _ ?_ hd).trivially
      rintro ⟨s, i⟩ hmem v₃ - hd
      refine Spec.read fun addr haddr ↦ ?_
      obtain ⟨t, n, hheader, hi, rfl⟩ := Stack.fieldAddr_ok haddr
      refine Spec.fields hd hheader (Or.inl ⟨d, hheader⟩) fun v₄ hlevel _ hfields ↦ ?_
      refine (Spec.hostSlot (hfields i hi).1 (hfields i hi).2
        (hslots s (List.fst_mem_of_mem_zipIdx hmem))).imp fun _ v₅ hquiet _ ↦ ?_
      exact (Quiets.level hquiet).known (hlevel.known hd)
  · exact Spec.failing rfl

/-- The code of a redirection knows its receiver. -/
abbrev Receives (f : HostFrame) (v : View) : Prop := f.hasReceiver = true → f.argBase ∈ v.known

/-- Each request of a redirection is looking, or it writes to the receiver what it was handed. -/
theorem steps_serveFrame (hc : ∀ r, Domain.Grows (c.serve r)) (fuel : Nat) (f : HostFrame)
    (r : FrameRequest) (hr : r.Writes S.host) :
    Steps (Quiet S) (fun v _ ↦ Receives f v) (serveFrame c fuel f r) := by
  have hlooks {α : Type} {x : RunM α} (hx : Looks x) :
      Steps (Quiet S) (fun v _ ↦ Receives f v) (keeping x : WithResult (Option Value) α) :=
    Steps.keeping (fun _ _ _ ↦ (Spec.looks hx).trivially) fun _ _ _ hquiet hf hreceiver ↦
      (Quiets.level hquiet).known (hf hreceiver)
  cases r with
  | domain r => exact hlooks (looks_of_grows (hc r))
  | argumentSlot i => exact hlooks (looks_argSlot f i)
  | argument i => exact hlooks (looks_arg f fuel i)
  | this => exact hlooks (looks_this f fuel)
  | valueFields i =>
    exact hlooks ((looks_argSlot f i).bind fun s ↦ (looks_blockOf fuel s).bind looks_blockFields)
  | thisFields =>
    exact hlooks ((looks_thisSlot f).bind fun s ↦ (looks_blockOf fuel s).bind looks_blockFields)
  | setThisFields slots =>
    exact Steps.keeping (fun _ _ hf ↦ spec_setThisFields fuel hf hr) fun _ _ _ hquiet hf hreceiver ↦
      (Quiets.level hquiet).known (hf hreceiver)
  | setResult x => exact fun v _ hf ↦ ⟨v, rfl, .refl, hf⟩

theorem spec_runRedirection (hc : ∀ r, Domain.Grows (c.serve r)) (fuel : Nat) {f : HostFrame}
    {code : Redirection} (hcode : ∀ site, (code site).Asks (FrameRequest.Writes S.host))
    (hf : Receives f v) : Spec (Quiet S) (runRedirection c fuel f code) v fun _ _ ↦ True := by
  unfold runRedirection
  refine Spec.look (looks_askDomain _) fun key d _ _ ↦ ?_
  exact (Steps.leaving (v := v.withDomain d)
    (Steps.program (fun r hr ↦ steps_serveFrame hc fuel f r hr) _ (hcode _)) hf).trivially

/-- The arguments of a host call go, and its result is pushed in their place. -/
theorem spec_finishHostCall (fuel : Nat) (f : HostFrame) (result : Option Value)
    (hbottom : S.bottom ≤ f.argBase) (hv : v.pending = []) :
    Spec (Edit S) (finishHostCall fuel f result) v fun _ v' ↦ v'.Above f.argBase := by
  unfold finishHostCall
  refine (Spec.popTo hbottom).bind fun _ v₁ _ h ↦ ?_
  have hpending : v₁.pending = [] := h.2.2.trans hv
  have hpush (x : Value) (t : TypeId) (w : View) (htop : w.stack.top = f.argBase)
      (hw : w.pending = []) :
      Spec (Edit S) (pushValue fuel x t) w fun _ v' ↦ v'.Above f.argBase :=
    (spec_pushValue fuel x t hw).imp fun _ _ _ h ↦ ⟨htop ▸ h.top, h.pending⟩
  have hdefault (t : TypeId) (w : View) (htop : w.stack.top = f.argBase) (hw : w.pending = []) :
      Spec (Edit S) (do pushValue fuel (← (Domain.defaultValue fuel t : DomainM Value)) t) w
        fun _ v' ↦ v'.Above f.argBase :=
    Spec.look (looks_onDomain (Domain.grows_defaultValue fuel t)) fun x d _ _ ↦
      hpush x t (w.withDomain d) htop hw
  dsimp only
  refine Spec.look (looks_descriptor _) fun ret d _ _ ↦ ?_
  by_cases hvoid : (!(f.method.flags.constructor && !f.hasReceiver) && ret.isVoid) = true
  · rw [if_pos hvoid]
    exact Spec.pure ⟨h.1.ge, hpending⟩
  · rw [if_neg hvoid]
    refine Spec.look (looks_descriptor _) fun desc d' _ _ ↦ ?_
    split
    · split
      · exact hdefault _ ((v₁.withDomain d).withDomain d') h.1 hpending
      · exact hpush _ _ ((v₁.withDomain d).withDomain d') h.1 hpending
    · exact hdefault _ ((v₁.withDomain d).withDomain d') h.1 hpending

/-- A call of a host method is done with the slots from its first argument on. -/
theorem spec_callHost (hc : c.Meet S v) (fuel : Nat) (m : Method) {argBase : Nat}
    {hasReceiver : Bool} (hbottom : S.bottom ≤ argBase) (hv : v.pending = [])
    (hreceiver : hasReceiver = true → argBase ∈ v.known) :
    Spec (Edit S) (callHost c fuel m argBase hasReceiver) v fun _ v' ↦ v'.Above argBase := by
  unfold callHost
  dsimp only
  refine Spec.askDomain ?_
  split
  · next code hcode =>
    refine (spec_runRedirection (f := ⟨m, argBase, hasReceiver⟩) hc.serve fuel (hc.host _ _ hcode)
      hreceiver).quietly fun result v' hlevel _ ↦ ?_
    exact spec_finishHostCall fuel ⟨m, argBase, hasReceiver⟩ result hbottom
      (hlevel.pending.trans hv)
  · split
    · exact Spec.looking rfl (Spec.throw _)
    · split
      · exact Spec.throw _
      · next host _ _ =>
        refine Spec.look (looks_callHostCode (fun r ↦ looks_of_grows (hc.serve r)) fuel
          ⟨m, argBase, hasReceiver⟩ host)
          fun x d _ _ ↦ ?_
        exact spec_finishHostCall (v := v.withDomain d) fuel ⟨m, argBase, hasReceiver⟩ (some x)
          hbottom hv

/-! ### Interpreted methods -/

/-- The initializer of a type runs on top of the operands and leaves them as they are. -/
theorem does_ensureInitialized (hc : c.Meet S v) (fuel : Nat) (t : TypeId)
    (hv : S.Ready v v.stack.top) :
    Does S c (fun c ↦ ensureInitialized c fuel t) v fun _ v' ↦ v'.Rests v.stack.top := by
  unfold ensureInitialized
  refine Does.look (looks_of_grows (Domain.grows_beginInitialization fuel t))
    fun first d _ hR _ ↦ ?_
  have hfinish (w : View) : Spec (Edit S) (Running.onDomain (Domain.finishInitialization fuel t)) w
      fun _ w' ↦ w'.stack.top = w.stack.top ∧ w'.pending = w.pending :=
    (Spec.looks (looks_of_grows (Domain.grows_finishInitialization fuel t))).of_quiet
      fun _ _ hlevel _ ↦ ⟨hlevel.top, hlevel.pending⟩
  cases first with
  | false => exact Does.pure ⟨rfl, hv.pending⟩
  | true =>
    refine Does.afterwards (P := fun _ v' ↦ v'.Rests v.stack.top) ?_
      (fun w _ ↦ (hfinish w).trivially) fun _ w _ h ↦ ?_
    · refine Does.look (looks_inRegistry (Registry.grows_typeInitializer t))
        fun found d' _ hR' _ ↦ ?_
      cases found with
      | none => exact Does.pure ⟨rfl, hv.pending⟩
      | some initializer =>
        refine Does.look (looks_ask Stack.top) fun a d'' _ hR'' ha ↦ ?_
        obtain rfl : a = v.stack.top := by
          cases ha
          rfl
        have hc' := hc.after ((hR.trans hR').trans hR'')
        have hready : S.Ready (((v.withDomain d).withDomain d').withDomain d'') v.stack.top :=
          ⟨hv.bottom, hv.top, hv.pending, hv.covers⟩
        exact (Does.run hc' hready initializer).bind fun _ w _ h ↦ Does.pure h.1
    · exact (hfinish w).imp fun _ _ _ h' ↦ ⟨h'.1.trans h.top, h'.2.trans h.pending⟩

/-- A call takes its arguments off and leaves what it returns. -/
theorem does_invokeAt (hc : c.Meet S v) (fuel : Nat) (id : MethodId) {m : Method} {argBase : Nat}
    (hv : S.Ready v argBase) (hreceiver : m.flags.hasThis = true → argBase ∈ v.known) :
    Does S c (fun c ↦ invokeAt c fuel id m argBase) v fun _ v' ↦ v'.Above argBase := by
  unfold invokeAt
  by_cases hnative : m.native?.isSome = true
  · simp only [if_pos hnative]
    exact Does.of_same (spec_callHost hc fuel m hv.bottom hv.pending hreceiver) fun _ ↦ rfl
  · simp only [if_neg hnative]
    refine (Does.run hc hv id).bind fun result v' _ h ↦ ?_
    cases result with
    | none => exact Does.pure (h.1.above (Nat.le_refl _))
    | some carry =>
      obtain ⟨hcarries, hblock⟩ := h.2 carry rfl
      refine Does.of_spec ((spec_pushCarry fuel m.ret hcarries h.1.pending
        fun d hd ↦ absurd hd (hblock d)).imp fun _ _ _ h' ↦ ?_)
      exact ⟨h.1.top ▸ h'.top, h'.pending⟩

/-- A virtual call is a call of the method that the receiver has for it. -/
theorem does_callMethod (hc : c.Meet S v) (fuel : Nat) (id : MethodId) {argBase : Nat}
    (virtual_ : Bool) (hv : S.Ready v argBase)
    (hreceiver : (v.domain.registry.method id).flags.hasThis = true → argBase ∈ v.known) :
    Does S c (fun c ↦ callMethod c fuel id argBase virtual_) v fun _ v' ↦ v'.Above argBase := by
  have hinvoke (target : MethodId) (m : Method) (w : View) (hw : Edits S v w)
      (htop : w.stack.top = v.stack.top) (hpending : w.pending = [])
      (hthis : m.flags.hasThis = true → argBase ∈ w.known) :
      Does S c (fun c ↦ invokeAt c fuel target m argBase) w fun _ v' ↦ v'.Above argBase :=
    does_invokeAt (hc.after hw) fuel target
      ⟨hv.bottom, htop ▸ hv.top, hpending, Edits.covers hw hv.covers⟩ hthis
  have hrest (target : MethodId) (w : View) (hw : Edits S v w) (htop : w.stack.top = v.stack.top)
      (hpending : w.pending = [])
      (hthis : (w.domain.registry.method target).flags.hasThis = true → argBase ∈ w.known) :
      Does S c (fun c ↦ do
        let m ← method target
        if !m.flags.hasThis then ensureInitialized c fuel m.declaring
        invokeAt c fuel target m argBase) w fun _ v' ↦ v'.Above argBase := by
    refine Does.looking rfl ?_
    refine Does.ite (fun hthis' ↦ ?_) fun hthis' ↦ ?_
    · have hready : S.Ready w w.stack.top :=
        ⟨Nat.le_trans hv.bottom (Nat.le_trans hv.top htop.ge), Nat.le_refl _, hpending,
          Edits.covers hw hv.covers⟩
      refine (does_ensureInitialized (hc.after hw) fuel _ hready).bind fun _ w' hR' h ↦ ?_
      refine hinvoke target _ w' (hw.trans hR') (h.top.trans htop) h.pending fun h ↦ ?_
      simp only [Bool.not_eq_true'] at hthis'
      exact absurd (hthis'.symm.trans h) Bool.false_ne_true
    · exact hinvoke target _ w hw htop hpending hthis
  unfold callMethod
  refine Does.looking rfl (Does.ite (fun hvirtual ↦ ?_) fun hvirtual ↦ ?_)
  · simp only [Bool.and_eq_true] at hvirtual
    refine Does.read fun s _ ↦ ?_
    refine Does.look (looks_receiverType fuel s) fun found d _ hR _ ↦ ?_
    cases found with
    | none =>
      exact Does.look looks_nullReference fun target d' _ hR' _ ↦
        hrest target _ (hR.trans hR') rfl hv.pending fun _ ↦ hreceiver hvirtual.1
    | some t =>
      exact Does.look (looks_inRegistry (Registry.grows_findOverride _ _ _)) fun target d' _ hR' _ ↦
        hrest target _ (hR.trans hR') rfl hv.pending fun _ ↦ hreceiver hvirtual.1
  · exact hrest id v .refl rfl hv.pending hreceiver

/-- The new object is put below the arguments of its constructor, which is a call like any other. -/
theorem does_constructAt (hc : c.Meet S v) (fuel : Nat) (id : MethodId) {argBase : Nat}
    (hv : S.Ready v argBase) :
    Does S c (fun c ↦ constructAt c fuel id argBase) v fun _ _ ↦ True := by
  unfold constructAt
  refine Does.looking rfl ?_
  have hready : S.Ready v v.stack.top :=
    ⟨Nat.le_trans hv.bottom hv.top, Nat.le_refl _, hv.pending, hv.covers⟩
  refine (does_ensureInitialized hc fuel _ hready).bind fun _ w hR h ↦ ?_
  have hargs : argBase ≤ w.stack.top := h.top ▸ hv.top
  refine Does.ite (fun hnative ↦ ?_) fun hnative ↦ ?_
  · refine Does.of_same (spec_callHost (hc.after hR) fuel _ hv.bottom h.pending ?_).trivially
      fun _ ↦ rfl
    exact fun h ↦ absurd h Bool.false_ne_true
  refine Does.look (looks_isInline fuel _) fun inline d _ hR' _ ↦ ?_
  refine Does.ite (fun _ ↦ ?_) fun _ ↦ ?_
  · refine (Does.of_spec ((spec_allocInline fuel _ _).mono fun _ _ ↦ Edit.build)).bind
      fun e w₁ hR₁ h₁ ↦ ?_
    have hpending : w₁.Storable (.block e) := by
      rw [View.Storable, h₁.2.1]
      exact congrArg _ h.pending
    have htop₁ : w₁.stack.top = w.stack.top := (Builds.raised h₁.1).top
    refine (Does.of_spec (Spec.insert hv.bottom hpending)).bind fun _ w₂ hR₂ h₂ ↦ ?_
    have hw₂ := ((hR.trans hR').trans hR₁).trans hR₂
    have hknown : argBase ∈ w₂.known := Edits.covers hw₂ hv.covers argBase hv.bottom (by
      rw [h₂.top, htop₁]
      omega)
    refine (Does.of_spec (Spec.insert (s := .stackRef argBase) (Nat.le_succ_of_le hv.bottom)
      hknown)).bind fun _ w₃ hR₃ h₃ ↦ ?_
    have hw₃ := hw₂.trans hR₃
    have hready₃ : S.Ready w₃ (argBase + 1) :=
      ⟨Nat.le_succ_of_le hv.bottom, by rw [h₃.top, h₂.top, htop₁]; omega, h₃.pending,
        Edits.covers hw₃ hv.covers⟩
    exact (Does.run (hc.after hw₃) hready₃ id).bind fun _ _ _ _ ↦ Does.pure trivial
  · refine Does.look (looks_onDomain (grows_newInstance fuel _)) fun object d' _ hR₁ _ ↦ ?_
    refine Does.quietly (Spec.pushEntry _) fun entry w₁ hR₂ hlevel hown ↦ ?_
    refine (Does.of_spec (Spec.insert (s := .object entry) hv.bottom hown.1)).bind
      fun _ w₂ hR₃ h₂ ↦ ?_
    have hw₂ := (((hR.trans hR').trans hR₁).trans hR₂).trans hR₃
    have hready₂ : S.Ready w₂ argBase :=
      ⟨hv.bottom, by rw [h₂.top, hlevel.top]; exact Nat.le_succ_of_le hargs, h₂.pending,
        Edits.covers hw₂ hv.covers⟩
    exact (Does.run (hc.after hw₂) hready₂ id).bind fun _ _ _ _ ↦
      (Does.of_spec (Spec.pushObject _)).trivially

end Engine

end ManagedMachine
