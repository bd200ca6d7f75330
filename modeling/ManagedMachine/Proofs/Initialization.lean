import ManagedMachine.Proofs.WholeRuns

/-!
# Type initializers

The initializer of a type is started by the first use of the type, and by no later one. A `History`
of a domain lists when initializers were started and when they ended, with what became of them; it
determines how far the initializer of every type has come. Whole runs add to the history, and what
they start has ended when they are over.

An initializer that fails, or that could not be called at all, counts as one that has ended. The
type is used afterwards as if its initializer had returned.

The history is that of the starts and ends, and `Balanced` says of a list of them that as many
initializers have ended in it as were started. Work of the engine keeps what happens in between
balanced (`Domain.Whole`), which is shown for one initializer from what holds of the calls it makes
(`ensureInitialized_history`) and carries over to whole runs.
-/

set_option autoImplicit false
set_option relaxedAutoImplicit false

namespace ManagedMachine

/-! ### Events -/

/-- What happens to the initializer of a type. -/
inductive InitEvent where
  | started (t : TypeId)
  /-- The initializer has returned, or it has failed. -/
  | ended (t : TypeId) (returned : Bool)
  deriving DecidableEq

namespace InitEvent

/-- Whether the event is a start of this initializer. -/
def starts (t : TypeId) : InitEvent → Bool
  | started u => u = t
  | ended _ _ => false

/-- Whether the event is an end of this initializer, well or not. -/
def ends (t : TypeId) : InitEvent → Bool
  | started _ => false
  | ended u _ => u = t

/-- Every initializer that is started ends. -/
def Balanced (es : List InitEvent) : Prop := ∀ t, es.countP (starts t) = es.countP (ends t)

/-- The initializer was started and has not ended yet: it is on the way, further up in the calls. -/
def Active (es : List InitEvent) (t : TypeId) : Prop :=
  .started t ∈ es ∧ ∀ returned, .ended t returned ∉ es

theorem balanced_nil : Balanced [] := fun _ ↦ rfl

theorem Balanced.append {es es' : List InitEvent} (h : Balanced es) (h' : Balanced es') :
    Balanced (es ++ es') := fun t ↦ by rw [List.countP_append, List.countP_append, h t, h' t]

/-! The events of one initializer are counted; those of others do not count. -/

section
variable (t u : TypeId) (returned : Bool)

@[simp] theorem countP_starts_started : [started u].countP (starts t) = if u = t then 1 else 0 := by
  simp [starts, List.countP_singleton]

@[simp] theorem countP_ends_started : [started u].countP (ends t) = 0 := by
  simp [ends]

@[simp] theorem countP_starts_ended : [ended u returned].countP (starts t) = 0 := by
  simp [starts]

@[simp] theorem countP_ends_ended :
    [ended u returned].countP (ends t) = if u = t then 1 else 0 := by
  simp [ends, List.countP_singleton]

end

/-- An initializer that starts and ends around a balanced list. -/
theorem Balanced.around {es : List InitEvent} (h : Balanced es) (t : TypeId) (returned : Bool) :
    Balanced ([started t] ++ es ++ [ended t returned]) := by
  intro u
  simp only [List.countP_append, countP_starts_started, countP_starts_ended, countP_ends_started,
    countP_ends_ended, h u]
  omega

theorem countP_starts (es : List InitEvent) (t : TypeId) :
    es.countP (starts t) = es.count (started t) := by
  refine List.countP_congr fun e _ ↦ ?_
  cases e <;> simp [starts]

/-- An end is counted where there is one. -/
theorem countP_ends_pos {es : List InitEvent} {t : TypeId} :
    0 < es.countP (ends t) ↔ ∃ returned, ended t returned ∈ es := by
  rw [List.countP_pos_iff]
  constructor
  · rintro ⟨e, he, hends⟩
    cases e with
    | started u => cases hends
    | ended u returned => exact ⟨returned, of_decide_eq_true hends ▸ he⟩
  · rintro ⟨returned, h⟩
    exact ⟨_, h, decide_eq_true rfl⟩

end InitEvent

open InitEvent

/-- How often the initializer of a type has been started. -/
def InitState.starts : InitState → Nat
  | untouched => 0
  | _ => 1

/-- How often it has ended. -/
def InitState.ends : InitState → Nat
  | done => 1
  | _ => 0

/-! ### The state of an initializer -/

namespace Domain

variable {fuel : Nat} {t : TypeId} {d d' : Domain}

theorem initState_of_static {s : Statics} (h : d.statics[t]? = some s) :
    d.initState t = s.state := by
  rw [initState, h]
  rfl

/-- Only an initializer that nothing has happened to is claimed. -/
theorem beginInitialization_ok {first : Bool} (h : beginInitialization fuel t d = .ok first d') :
    if first then d.initState t = .untouched ∧
      ∀ u, d'.initState u = if t = u then .running else d.initState u
    else d.initState t ≠ .untouched ∧ d.Idle d' := by
  obtain ⟨s, d₁, hstatics, h⟩ := exists_of_bind h
  obtain ⟨hidle, hknown, hstate⟩ := staticsOf_ok hstatics
  cases hs : s.state with
  | untouched =>
    rw [hs] at h
    cases h
    refine ⟨hstate ▸ hs, fun u ↦ ?_⟩
    rw [initState_insert, hidle.inits]
  | running =>
    rw [hs] at h
    cases h
    exact ⟨by rw [← hstate, hs]; nofun, hidle⟩
  | done =>
    rw [hs] at h
    cases h
    exact ⟨by rw [← hstate, hs]; nofun, hidle⟩

/-- An initializer that could not even be looked up has not started. -/
theorem beginInitialization_error {e : Error} (h : beginInitialization fuel t d = .error e d') :
    d.Idle d' := by
  have hspec := staticsOf_spec fuel t d
  cases hstatics : staticsOf fuel t d with
  | error e' d₁ =>
    rw [hstatics] at hspec
    cases (bind_of_error hstatics).symm.trans h
    exact hspec
  | ok s d₁ =>
    have h := (bind_of_ok hstatics).symm.trans h
    cases hs : s.state <;> rw [hs] at h <;> cases h

/-- An initializer that was started can be marked as ended. -/
theorem finishInitialization_of_begun (fuel : Nat) (h : d.initState t ≠ .untouched) :
    ∃ d', finishInitialization fuel t d = .ok () d' ∧
      ∀ u, d'.initState u = if t = u then .done else d.initState u := by
  cases hknown : d.statics[t]? with
  | none => exact absurd (by rw [initState, hknown]; rfl) h
  | some s =>
    have hstatics : staticsOf fuel t d = .ok s d := staticsOf_of_known hknown
    exact ⟨_, bind_of_ok hstatics, fun u ↦ initState_insert d t u { s with state := .done }⟩

theorem finishInitialization_ok (hbegun : d.initState t ≠ .untouched)
    (h : finishInitialization fuel t d = .ok () d') (u : TypeId) :
    d'.initState u = if t = u then .done else d.initState u := by
  obtain ⟨d₁, hfinish, hinits⟩ := finishInitialization_of_begun fuel hbegun
  cases hfinish.symm.trans h
  exact hinits u

end Domain

/-! ### Histories -/

namespace Engine

/-- The initializer is run on `r`, which it leaves as `r'`. -/
def Attempt (t : TypeId) (returned : Bool) (r r' : Running) : Prop :=
  ∃ n, match runInitializer (callees n) t r with
    | .ok _ s => returned = true ∧ s = r'
    | .error _ s => returned = false ∧ s = r'

end Engine

/-- The events that have led to a domain, since no initializer had been started. -/
inductive Domain.History : List InitEvent → Domain → Prop
  | fresh {d : Domain} (h : ∀ t, d.initState t = .untouched) : History [] d
  | idle {es : List InitEvent} {d d' : Domain} (h : History es d)
      (hinits : ∀ t, d'.initState t = d.initState t) : History es d'
  | started {es : List InitEvent} {fuel : Nat} {t : TypeId} {d d' : Domain} (h : History es d)
      (hbegin : beginInitialization fuel t d = .ok true d') : History (es ++ [.started t]) d'
  | ended {es es' : List InitEvent} {fuel : Nat} {t : TypeId} {returned : Bool} {r r' : Running}
      {d : Domain} (h : History (es ++ [.started t]) r.domain)
      (hattempt : Engine.Attempt t returned r r')
      (h' : History (es ++ [.started t] ++ es') r'.domain)
        (hactive : r'.domain.initState t = .running)
      (hfinish : finishInitialization fuel t r'.domain = .ok () d) :
      History (es ++ [.started t] ++ es' ++ [.ended t returned]) d

namespace Domain

variable {es es' : List InitEvent} {d d' : Domain} {t : TypeId}

/-- The state of every initializer is what its events amount to. -/
theorem History.counts (h : d.History es) (t : TypeId) :
    es.countP (starts t) = (d.initState t).starts ∧ es.countP (ends t) = (d.initState t).ends := by
  induction h with
  | fresh h => rw [h t]; exact ⟨rfl, rfl⟩
  | idle _ hinits ih => rw [hinits t]; exact ih
  | @started es _ u d _ _ hbegin ih =>
    obtain ⟨huntouched, hinits⟩ := beginInitialization_ok hbegin
    rw [hinits t, List.countP_append, List.countP_append, ih.1, ih.2, countP_starts_started,
      countP_ends_started]
    split
    · next heq =>
      rw [← heq, huntouched]
      exact ⟨rfl, rfl⟩
    · exact ⟨rfl, rfl⟩
  | @ended es es' _ u returned _ r' _ _ _ _ hactive hfinish _ ih =>
    rw [finishInitialization_ok (by rw [hactive]; nofun) hfinish t]
    have hlast (p : InitEvent → Bool) :
        (es ++ [InitEvent.started u] ++ es' ++ [InitEvent.ended u returned]).countP p =
          (es ++ [InitEvent.started u] ++ es').countP p +
            [InitEvent.ended u returned].countP p := List.countP_append
    rw [hlast, hlast, ih.1, ih.2, countP_starts_ended, countP_ends_ended]
    split
    · next heq =>
      rw [← heq, hactive]
      exact ⟨rfl, rfl⟩
    · exact ⟨rfl, rfl⟩

theorem History.active_iff (h : d.History es) : Active es t ↔ d.initState t = .running := by
  have hstarted : .started t ∈ es ↔ 0 < es.countP (starts t) := by
    rw [countP_starts, List.count_pos_iff]
  have hended : (∀ returned, .ended t returned ∉ es) ↔ ¬0 < es.countP (ends t) := by
    rw [countP_ends_pos, not_exists]
  rw [Active, hstarted, hended, (h.counts t).1, (h.counts t).2]
  cases d.initState t <;> decide

/-- No initializer is started twice. -/
theorem History.started_once (h : d.History es) (hstarted : .started t ∈ es) :
    es.count (.started t) = 1 := by
  refine Nat.le_antisymm ?_ (List.count_pos_iff.mpr hstarted)
  rw [← countP_starts, (h.counts t).1]
  cases d.initState t <;> decide

/-- No initializer ends twice. -/
theorem History.ended_once (h : d.History es) (t : TypeId) : es.countP (ends t) ≤ 1 := by
  rw [(h.counts t).2]
  cases d.initState t <;> decide

/-- An initializer that is neither on the way nor still to be started has ended. -/
theorem History.ended_of_not_active (h : d.History es) (hbegun : d.initState t ≠ .untouched)
    (hactive : ¬Active es t) : .started t ∈ es ∧ ∃ returned, .ended t returned ∈ es := by
  rw [h.active_iff] at hactive
  obtain ⟨hstarts, hends⟩ := h.counts t
  cases hs : d.initState t with
  | untouched => exact absurd hs hbegun
  | running => exact absurd hs hactive
  | done =>
    rw [hs] at hstarts hends
    rw [countP_starts] at hstarts
    exact ⟨List.count_pos_iff.mp (hstarts.symm ▸ Nat.one_pos),
      countP_ends_pos.mp (hends.symm ▸ Nat.one_pos)⟩

/-- Events that end what they start do not end an initializer that is on the way. -/
theorem History.stays_active (h : d.History es) (hactive : d.initState t = .running)
    (h' : d'.History (es ++ es')) (hbalanced : Balanced es') : d'.initState t = .running := by
  obtain ⟨hstarts, hends⟩ := h.counts t
  obtain ⟨hstarts', hends'⟩ := h'.counts t
  rw [List.countP_append, hstarts, hactive] at hstarts'
  rw [List.countP_append, hends, hactive, ← hbalanced t] at hends'
  cases hs : d'.initState t <;> rw [hs] at hstarts' hends' <;>
    simp only [InitState.starts, InitState.ends] at hstarts' hends' <;> omega

/-- Every history goes on: initializers are started and end. -/
def Onward (d d' : Domain) : Prop :=
  ∀ es, d.History es → ∃ es', d'.History (es ++ es')

/-- Every history goes on, and initializers that are started meanwhile have ended. -/
def Whole (d d' : Domain) : Prop :=
  ∀ es, d.History es → ∃ es', Balanced es' ∧ d'.History (es ++ es')

theorem Whole.onward (h : d.Whole d') : d.Onward d' := fun es hes ↦
  (h es hes).imp fun _ ↦ And.right

instance : Growth Onward where
  refl d es h := ⟨[], by rwa [List.append_nil]⟩
  trans _ _ _ h h' es hes := by
    obtain ⟨es₁, hes₁⟩ := h es hes
    obtain ⟨es₂, hes₂⟩ := h' _ hes₁
    exact ⟨es₁ ++ es₂, by rwa [← List.append_assoc]⟩
  idle h es hes := ⟨[], by rw [List.append_nil]; exact hes.idle h.inits⟩

instance : Growth Whole where
  refl d es h := ⟨[], balanced_nil, by rwa [List.append_nil]⟩
  trans _ _ _ h h' es hes := by
    obtain ⟨es₁, hbalanced₁, hes₁⟩ := h es hes
    obtain ⟨es₂, hbalanced₂, hes₂⟩ := h' _ hes₁
    exact ⟨es₁ ++ es₂, hbalanced₁.append hbalanced₂, by rwa [← List.append_assoc]⟩
  idle h es hes := ⟨[], balanced_nil, by rw [List.append_nil]; exact hes.idle h.inits⟩

/-- Histories say nothing of interpreters. -/
theorem History.withPool (h : d.History es) (pool : Pool) : { d with pool }.History es :=
  h.idle fun _ ↦ rfl

instance : Lending Onward :=
  .of_pool fun _ pool es hes ↦ ⟨[], by rw [List.append_nil]; exact hes.withPool pool⟩

instance : Lending Whole :=
  .of_pool fun _ pool es hes ↦ ⟨[], balanced_nil, by rw [List.append_nil]; exact hes.withPool pool⟩

theorem onward_beginInitialization (fuel : Nat) (t : TypeId) :
    Keeps Onward (beginInitialization fuel t) := by
  intro d
  cases h : beginInitialization fuel t d with
  | error e d' => exact endState_error h ▸ Growth.idle (beginInitialization_error h)
  | ok first d' =>
    rw [endState_ok h]
    cases first with
    | true => exact fun es hes ↦ ⟨[.started t], hes.started h⟩
    | false => exact Growth.idle (beginInitialization_ok h).2

end Domain

/-! ### Initialization -/

namespace Engine

open Domain

variable {fuel n : Nat} {t : TypeId} {c : Callees} {r r' : Running}

theorem afterwards_ok {α : Type} {x : RunM α} {y : RunM Unit} {a : α} {r'' : Running}
    (hx : x r = .ok a r') (hy : y r' = .ok () r'') : afterwards x y r = .ok a r'' := by
  simp only [afterwards, hx, hy]

theorem afterwards_error {α : Type} {x : RunM α} {y : RunM Unit} {e : Error} {r'' : Running}
    (hx : x r = .error e r') (hy : y r' = .ok () r'') : afterwards x y r = .error e r'' := by
  simp only [afterwards, hx, hy]

/-- The first use of a type runs its initializer, and marks it as ended whatever becomes of it. -/
theorem ensureInitialized_first {d : Domain}
    (h : beginInitialization fuel t r.domain = .ok true d) :
    ensureInitialized c fuel t r =
      afterwards (runInitializer c t) (Running.onDomain (finishInitialization fuel t))
        ⟨d, r.interpreter⟩ := by
  have hbegin : Running.onDomain (beginInitialization fuel t) r = .ok true ⟨d, r.interpreter⟩ := by
    simp only [Running.onDomain, h]
  exact bind_of_ok hbegin

/-- Any other use does nothing. -/
theorem ensureInitialized_later {d : Domain}
    (h : beginInitialization fuel t r.domain = .ok false d) :
    ensureInitialized c fuel t r = .ok () ⟨d, r.interpreter⟩ := by
  have hbegin : Running.onDomain (beginInitialization fuel t) r = .ok false ⟨d, r.interpreter⟩ := by
    simp only [Running.onDomain, h]
  exact bind_of_ok hbegin

theorem ensureInitialized_error {d : Domain} {e : Error}
    (h : beginInitialization fuel t r.domain = .error e d) :
    ensureInitialized c fuel t r = .error e ⟨d, r.interpreter⟩ := by
  have hbegin : Running.onDomain (beginInitialization fuel t) r = .error e ⟨d, r.interpreter⟩ := by
    simp only [Running.onDomain, h]
  exact bind_of_error hbegin

/-- The initialization of a type either changes nothing, or it starts the initializer and sees it
end. -/
theorem ensureInitialized_history (hrun : ∀ id a, Works Whole ((callees n).run id a)) (fuel : Nat)
    (t : TypeId) {es : List InitEvent} (h : r.domain.History es) :
    match ensureInitialized (callees n) fuel t r with
    | .ok _ r' =>
      (r.domain.initState t ≠ .untouched ∧ r'.domain.History es) ∨
        ∃ es', Balanced es' ∧ r'.domain.History (es ++ [.started t] ++ es' ++ [.ended t true])
    | .error _ r' =>
      r'.domain.History es ∨
        ∃ es', Balanced es' ∧
        r'.domain.History (es ++ [.started t] ++ es' ++ [.ended t false]) := by
  cases hbegin : beginInitialization fuel t r.domain with
  | error e d =>
    rw [ensureInitialized_error hbegin]
    exact .inl (h.idle (beginInitialization_error hbegin).inits)
  | ok first d =>
    cases first with
    | false =>
      obtain ⟨hbegun, hidle⟩ := beginInitialization_ok hbegin
      rw [ensureInitialized_later hbegin]
      exact .inl ⟨hbegun, h.idle hidle.inits⟩
    | true =>
      have hactive : d.initState t = .running := by
        rw [(beginInitialization_ok hbegin).2 t, if_pos rfl]
      have hstarted : d.History (es ++ [.started t]) := h.started hbegin
      -- Whatever the initializer comes to, it is still the one on the way, and then it has ended.
      have hends {returned : Bool} {r' : Running}
          (hattempt : Attempt t returned ⟨d, r.interpreter⟩ r')
          (hwhole : d.Whole r'.domain) : ∃ d', finishInitialization fuel t r'.domain = .ok () d' ∧
            ∃ es', Balanced es' ∧
              d'.History (es ++ [.started t] ++ es' ++ [.ended t returned]) := by
        obtain ⟨es', hbalanced, hes'⟩ := hwhole _ hstarted
        have hactive' := hstarted.stays_active hactive hes' hbalanced
        obtain ⟨d', hfinish, -⟩ := finishInitialization_of_begun fuel (hactive'.trans_ne nofun)
        exact ⟨d', hfinish, es', hbalanced, .ended hstarted hattempt hes' hactive' hfinish⟩
      have hworks := works_runInitializer hrun t
      have hfinished {r' : Running} {d' : Domain}
          (h : finishInitialization fuel t r'.domain = .ok () d') :
          Running.onDomain (finishInitialization fuel t) r' = .ok () ⟨d', r'.interpreter⟩ := by
        simp only [Running.onDomain, h]
      rw [ensureInitialized_first hbegin]
      cases hinit : runInitializer (callees n) t ⟨d, r.interpreter⟩ with
      | ok u r' =>
        obtain ⟨d', hfinish, hes'⟩ :=
          hends ⟨n, by rw [hinit]; exact ⟨rfl, rfl⟩⟩ (hworks.ok hinit).domain
        rw [afterwards_ok hinit (hfinished hfinish)]
        exact .inr hes'
      | error e r' =>
        obtain ⟨d', hfinish, hes'⟩ :=
          hends ⟨n, by rw [hinit]; exact ⟨rfl, rfl⟩⟩ (hworks.error hinit).domain
        rw [afterwards_error hinit (hfinished hfinish)]
        exact .inr hes'

/-- By induction on the calls: every method and every request of host code adds events that end what
they start. -/
theorem whole_callees (n : Nat) : (callees n).Work Whole := by
  refine work_callees (Q := Whole) (fun n hrun fuel t ↦ ?_) n
  refine works_ensureInitialized_of hrun fun r es hes ↦ ?_
  have hhistory := ensureInitialized_history hrun fuel t hes
  unfold endState
  cases h : ensureInitialized (callees n) fuel t r with
  | ok u r' =>
    rw [h] at hhistory
    obtain ⟨-, hes⟩ | ⟨es', hbalanced, hes'⟩ := hhistory
    · exact ⟨[], balanced_nil, by rwa [List.append_nil]⟩
    · exact ⟨_, hbalanced.around t true, by simpa only [List.append_assoc] using hes'⟩
  | error e r' =>
    rw [h] at hhistory
    obtain hes | ⟨es', hbalanced, hes'⟩ := hhistory
    · exact ⟨[], balanced_nil, by rwa [List.append_nil]⟩
    · exact ⟨_, hbalanced.around t false, by simpa only [List.append_assoc] using hes'⟩

theorem onward_callees (n : Nat) : (callees n).Work Onward :=
  (whole_callees n).mono fun _ _ ↦ Whole.onward

/-- The initializer is called after it has been started. -/
theorem leads_ensureInitialized (n fuel : Nat) (t : TypeId) :
    Leads Onward (callees n) fun c ↦ ensureInitialized c fuel t := by
  refine .after (works_onDomain (onward_beginInitialization fuel t)) fun first ↦
    .ite (.afterwards (.after (looks_inRegistry (Registry.grows_typeInitializer t)) fun found ↦
      ?_) _)
      (.const _)
  cases found with
  | some initializer =>
    exact .after (looks_ask _) fun a ↦
      .bind ((onward_callees n).run initializer a) (.run initializer a) fun _ ↦ .const _
  | none => exact .const _

/-! ### Uses of a type -/

/-- The instruction uses a static field or a static method of the type, or makes an object of it. -/
inductive Uses (fuel : Nat) (f : Frame) (r : Running) : Instruction → TypeId → Prop
  | loadStatic {token : Token} {field : Field} {r' : Running}
      (h : fieldOperand fuel f token r = .ok field r') (hnative : field.native = none) :
      Uses fuel f r (.loadStatic token) field.declaring
  | storeStatic {token : Token} {field : Field} {r' : Running}
      (h : fieldOperand fuel f token r = .ok field r') (hnative : field.native = none) :
      Uses fuel f r (.storeStatic token) field.declaring
  | loadStaticAddr {token : Token} {field : Field} {r' : Running}
      (h : fieldOperand fuel f token r = .ok field r') :
      Uses fuel f r (.loadStaticAddr token) field.declaring
  | call {token : Token} {id : MethodId} {m : Method} {r' : Running}
      (h : methodOperand fuel f token r = .ok (some id) r') (hm : r'.domain.registry.method id = m)
      (hstatic : m.flags.hasThis = false) : Uses fuel f r (.call token) m.declaring
  | callVirtual {token : Token} {id : MethodId} {m : Method} {r' : Running}
      (h : methodOperand fuel f token r = .ok (some id) r') (hm : r'.domain.registry.method id = m)
      (hstatic : m.flags.hasThis = false) : Uses fuel f r (.callVirtual token) m.declaring
  | newObject {token : Token} {id : MethodId} {m : Method} {r' : Running}
      (h : methodOperand fuel f token r = .ok (some id) r')
      (hm : r'.domain.registry.method id = m) :
      Uses fuel f r (.newObject token) m.declaring

/-- Between two machines the type is initialized, before anything else happens to initializers. -/
def Through (n : Nat) (t : TypeId) (r r' : Running) : Prop :=
  ∃ fuel r₁ r₂, r.domain.Idle r₁.domain ∧ ensureInitialized (callees n) fuel t r₁ = .ok () r₂ ∧
    r₂.domain.Whole r'.domain

namespace Through

variable {r₁ r₂ : Running}

theorem of_ok (h : ensureInitialized (callees n) fuel t r = .ok () r') : Through n t r r' :=
  ⟨fuel, r, r', refl_of Idle _, h, refl_of Whole _⟩

/-- Uses of other types may come before. -/
theorem after (h : Running.Across Idle r r₁) (h' : Through n t r₁ r') : Through n t r r' := by
  obtain ⟨fuel, r₂, r₃, hidle, hinit, hwhole⟩ := h'
  exact ⟨fuel, r₂, r₃, trans_of Idle h.domain hidle, hinit, hwhole⟩

/-- Whatever is balanced may come afterwards. -/
theorem before (h : Through n t r r₁) (h' : Running.Across Whole r₁ r') : Through n t r r' := by
  obtain ⟨fuel, r₂, r₃, hidle, hinit, hwhole⟩ := h
  exact ⟨fuel, r₂, r₃, hidle, hinit, trans_of Whole hwhole h'.domain⟩

/-- A use that gets through has ended the initializer, or has found that it had ended. -/
theorem history (h : Through n t r r') {es : List InitEvent} (hes : r.domain.History es)
    (hidle : ¬Active es t) : ∃ es', r'.domain.History (es ++ es') ∧
      (es ++ es').count (.started t) = 1 ∧ (.ended t true ∈ es ++ es' ∨ .ended t false ∈ es) := by
  obtain ⟨fuel, r₁, r₂, hlooks, hinit, hwhole⟩ := h
  have hes₁ : r₁.domain.History es := hes.idle hlooks.inits
  have hhistory := ensureInitialized_history (whole_callees n).run fuel t hes₁
  rw [hinit] at hhistory
  obtain ⟨hbegun, hes₂⟩ | ⟨es', -, hes₂⟩ := hhistory
  · obtain ⟨hstarted, returned, hended⟩ := hes₁.ended_of_not_active hbegun hidle
    obtain ⟨es', -, hes'⟩ := hwhole _ hes₂
    refine ⟨es', hes', hes'.started_once (List.mem_append_left _ hstarted), ?_⟩
    cases returned with
    | true => exact .inl (List.mem_append_left _ hended)
    | false => exact .inr hended
  · obtain ⟨es₂, -, hes'⟩ := hwhole _ hes₂
    rw [List.append_assoc, List.append_assoc, List.append_assoc] at hes'
    exact ⟨_, hes', hes'.started_once (by simp), .inl (by simp)⟩

end Through

section
variable {field : Field} {id : MethodId} {m : Method} {a : Nat} {f : Frame}

theorem through_loadStatic (hnative : field.native = none)
    (h : loadStatic (callees n) fuel field r = .ok () r') : Through n field.declaring r r' := by
  unfold loadStatic at h
  rw [hnative] at h
  obtain ⟨_, r₁, hinit, hrest⟩ := exists_of_bind h
  refine (Through.of_ok hinit).before (Keeps.ok ?_ hrest)
  exact (looks_onDomain (grows_static fuel _ _)).bind fun v ↦ works_pushValue fuel v _

/-- A store to a static first has the initializer of its type run, unless it has begun before. -/
theorem through_storeStatic (hnative : field.native = none)
    (h : storeStatic (callees n) fuel field r = .ok () r') : Through n field.declaring r r' := by
  unfold storeStatic at h
  rw [hnative] at h
  obtain ⟨carry, r₁, hcarry, h⟩ := exists_of_bind h
  obtain ⟨v, r₂, hv, h⟩ := exists_of_bind h
  obtain ⟨_, r₃, hinit, hrest⟩ := exists_of_bind h
  refine .after (Keeps.ok looks_loadTop hcarry) ?_
  refine .after (Keeps.ok (looks_carryValue fuel carry _) hv) ?_
  exact (Through.of_ok hinit).before
    (Keeps.ok (looks_onDomain (grows_setStatic fuel _ _ v)) hrest)

theorem through_loadStaticAddr (h : loadStaticAddr (callees n) fuel field r = .ok () r') :
    Through n field.declaring r r' := by
  unfold loadStaticAddr at h
  split at h
  · obtain ⟨key, r₁, -, hthrow⟩ := exists_of_bind h
    cases hthrow
  · obtain ⟨_, r₁, hinit, hrest⟩ := exists_of_bind h
    exact (Through.of_ok hinit).before (Keeps.ok (works_onStack _) hrest)

theorem callMethod_static (hm : r.domain.registry.method id = m) (hstatic : m.flags.hasThis = false)
    (virtual_ : Bool) : callMethod c fuel id a virtual_ r = (do
      ensureInitialized c fuel m.declaring
      invokeAt c fuel id m a : RunM Unit) r := by
  have hmethod : method id r = .ok m r := by rw [← hm]; rfl
  unfold callMethod
  rw [bind_of_ok hmethod, if_neg (by simp [hstatic])]
  refine (bind_of_ok (x := pure id) rfl).trans ((bind_of_ok hmethod).trans ?_)
  rw [if_pos (by simp [hstatic])]

theorem through_callMethod (hm : r.domain.registry.method id = m)
    (hstatic : m.flags.hasThis = false)
    {virtual_ : Bool} (h : callMethod (callees n) fuel id a virtual_ r = .ok () r') :
    Through n m.declaring r r' := by
  rw [callMethod_static hm hstatic] at h
  obtain ⟨_, r₁, hinit, hrest⟩ := exists_of_bind h
  exact (Through.of_ok hinit).before ((works_invokeAt (whole_callees n) fuel id m a).ok hrest)

theorem through_constructAt (hm : r.domain.registry.method id = m)
    (h : constructAt (callees n) fuel id a r = .ok () r') : Through n m.declaring r r' := by
  have hmethod : method id r = .ok m r := by rw [← hm]; rfl
  have h := (bind_of_ok hmethod).symm.trans h
  obtain ⟨_, r₁, hinit, hrest⟩ := exists_of_bind h
  exact (Through.of_ok hinit).before ((works_construction (whole_callees n) fuel id m a).ok hrest)

/-- An instruction that uses a type goes through its initializer. -/
theorem through_step {addr : Nat} {i : Instruction} {p : Outcome × Frame}
    (huses : Uses fuel f r i t)
    (h : step (callees n) fuel f addr i r = .ok p r') : Through n t r r' := by
  have honward {x : RunM Unit} (h : onward f x r = .ok p r') : x r = .ok () r' := by
    obtain ⟨_, r₁, hx, hnext⟩ := exists_of_bind h
    cases hnext
    exact hx
  have hfield {token : Token} {field : Field} {r₁ : Running}
      (h : fieldOperand fuel f token r = .ok field r₁) : Running.Across Idle r r₁ :=
    Keeps.ok (looks_fieldOperand fuel f token) h
  have hmethod {token : Token} {found : Option MethodId} {r₁ : Running}
      (h : methodOperand fuel f token r = .ok found r₁) : Running.Across Idle r r₁ :=
    Keeps.ok (looks_methodOperand fuel f token) h
  have hcall {token : Token} {id : MethodId} {m : Method} {r₁ : Running} {virtual_ : Bool}
      (h : methodOperand fuel f token r = .ok (some id) r₁) (hm : r₁.domain.registry.method id = m)
      (hstatic : m.flags.hasThis = false)
      (hcall : call (callees n) fuel f token virtual_ r = .ok () r') :
        Through n m.declaring r r' := by
    obtain ⟨m', r₂, hread, hoperands⟩ := exists_of_bind ((bind_of_ok h).symm.trans hcall)
    cases hread
    obtain ⟨base, r₃, hbase, hrest⟩ := exists_of_bind hoperands
    obtain ⟨-, -, rfl⟩ := operandsBase_ok hbase
    exact (through_callMethod hm hstatic hrest).after (hmethod h)
  cases huses with
  | loadStatic hf hnative =>
    exact (through_loadStatic hnative ((bind_of_ok hf).symm.trans (honward h))).after (hfield hf)
  | storeStatic hf hnative =>
    obtain ⟨_, r₂, hstore, hpop⟩ := exists_of_bind ((bind_of_ok hf).symm.trans (honward h))
    exact ((through_storeStatic hnative hstore).before
      (Keeps.ok (works_onStack _) hpop)).after (hfield hf)
  | loadStaticAddr hf =>
    exact (through_loadStaticAddr ((bind_of_ok hf).symm.trans (honward h))).after (hfield hf)
  | call hfound hm hstatic => exact hcall hfound hm hstatic (honward h)
  | callVirtual hfound hm hstatic => exact hcall hfound hm hstatic (honward h)
  | newObject hfound hm =>
    obtain ⟨m', r₂, hread, hoperands⟩ := exists_of_bind ((bind_of_ok hfound).symm.trans (honward h))
    cases hread
    obtain ⟨base, r₃, hbase, hrest⟩ := exists_of_bind hoperands
    obtain ⟨-, -, rfl⟩ := operandsBase_ok hbase
    exact (through_constructAt hm hrest).after (hmethod hfound)

end

/-! ### The order of initialization and use -/

/-- The instruction has had its effect, and control goes on behind it. -/
def Moment.Succeeds (m : Moment) : Prop :=
  ∃ n, step (callees n) m.fuel m.frame m.addr m.instruction m.before = .ok (.next, m.frame) m.after

/-- Whenever a type has been used while its initializer is not on the way, the initializer has been
started exactly once, and it has returned by then unless it failed when the type was used before.
This holds for every instruction of a run. What runs and requests start has ended when they are
over. -/
theorem initializer_ended_after_use {es : List InitEvent} {r : Running} (h : r.domain.History es)
    (n : Nat) :
    (∀ id a, Along (fun m ↦ ∃ es₁, m.before.domain.History (es ++ es₁) ∧
      ∀ t, Uses m.fuel m.frame m.before m.instruction t → Moment.Succeeds m →
        ¬Active (es ++ es₁) t → ∃ es₂, m.after.domain.History (es ++ es₁ ++ es₂) ∧
          (es ++ es₁ ++ es₂).count (.started t) = 1 ∧
          (.ended t true ∈ es ++ es₁ ++ es₂ ∨ .ended t false ∈ es ++ es₁)) n id a r) ∧
    (∀ id a, ∃ es', Balanced es' ∧ (endState (run n id a) r).domain.History (es ++ es')) ∧
    (∀ q, ∃ es', Balanced es' ∧ (endState (serve n q) r.domain).History (es ++ es')) ∧
    ∀ fuel id xs, ∃ es', Balanced es' ∧
      (endState (Stream.run (callees n) fuel id xs) r.domain).History (es ++ es') := by
  have hwork := whole_callees n
  refine ⟨fun id a ↦ ?_, fun id a ↦ (hwork.run id a r).domain es h,
    fun q ↦ hwork.serve q r.domain es h,
      fun fuel id xs ↦ keeps_stream hwork fuel id xs r.domain es h⟩
  refine (along_of_leads onward_callees leads_ensureInitialized n id a r (refl_of Onward _)).mono ?_
  intro m hm
  obtain ⟨es₁, hes₁⟩ := hm es h
  refine ⟨es₁, hes₁, fun t huses ⟨k, hstep⟩ hidle ↦ ?_⟩
  exact (through_step huses hstep).history hes₁ hidle

/-- A domain that allows one call. A static field of type 0 is known by a token, and method 0 is the
initializer of that type. -/
def shallowDomain : Domain :=
  let r := Registry.empty
  { (default : Domain) with
    config := { Config.standard with maxCallDepth := 1 }
    registry := { r with
      facts := { r.facts with methods := r.facts.methods.insert ⟨0⟩ [⟨0⟩] }
      tokens := { r.tokens with
        fields := r.tokens.fields.insert ⟨⟨0⟩, ⟨0⟩⟩ ⟨⟨0⟩, "count", 0, true, ⟨0⟩, none⟩ }
      methods := #[{ (default : Method) with
        flags := { MethodFlags.none with typeInitializer := true }
        origin := .interpreted ⟨⟨0⟩, .empty ""⟩ ⟨0⟩ (some ⟨[], #[.ret], []⟩) }] } }

/-- The machine on which the one call is being executed. -/
def shallow (statics : Std.HashMap TypeId Statics) : Running :=
  ⟨{ shallowDomain with statics }, { Interpreter.fresh 0 8 with frames := [⟨⟨1⟩, 0⟩] }⟩

/-- The static field of the type, and the state of its initializer. -/
def withCount (statics : Std.HashMap TypeId Statics) (state : InitState) :
    Std.HashMap TypeId Statics := statics.insert ⟨0⟩ ⟨#[.null], state⟩

theorem shallow_fresh : (shallow (withCount {} .untouched)).domain.History [] := by
  refine .fresh fun t ↦ (initState_insert { shallowDomain with statics := {} } ⟨0⟩ t
    ⟨#[.null], .untouched⟩).trans ?_
  have hempty : initState { shallowDomain with statics := {} } t = .untouched := by
    have hnone : ({} : Std.HashMap TypeId Statics)[t]? = none := Std.HashMap.getElem?_empty
    rw [initState]
    exact congrArg (Option.elim · InitState.untouched Statics.state) hnone
  rw [hempty, ite_self]

theorem initializer_ended_after_use_shallow :
    (shallow (withCount {} .untouched)).domain.History [] ∧ ∃ es', Balanced es' ∧
      (endState (run 3 ⟨0⟩ 0) (shallow (withCount {} .untouched))).domain.History ([] ++ es') :=
  ⟨shallow_fresh, (initializer_ended_after_use shallow_fresh 3).2.1 ⟨0⟩ 0⟩

/-- The initializer cannot be called on a machine like that. -/
theorem runInitializer_shallow (statics : Std.HashMap TypeId Statics) :
    runInitializer (callees 1) ⟨0⟩ (shallow statics) = .error (.callDepth 1) (shallow statics) := by
  have hmethods : Registry.methodsOf ⟨0⟩ shallowDomain.registry =
      .ok [⟨0⟩] shallowDomain.registry := by
    have hask : Registry.ask (fun r ↦ r.facts.methods[(⟨0⟩ : TypeId)]?) shallowDomain.registry =
        .ok (some [⟨0⟩]) shallowDomain.registry :=
      congrArg (EStateM.Result.ok · _) Std.HashMap.getElem?_insert_self
    exact bind_of_ok hask
  have hfound : Registry.typeInitializer ⟨0⟩ shallowDomain.registry =
      .ok (some ⟨0⟩) shallowDomain.registry := (bind_of_ok hmethods).trans rfl
  have hlifted : Running.onDomain (inRegistry (Registry.typeInitializer ⟨0⟩)) (shallow statics) =
      .ok (some ⟨0⟩) (shallow statics) := by
    simp only [shallow, Running.onDomain, inRegistry, hfound]
  exact (bind_of_ok hlifted).trans rfl

variable {statics : Std.HashMap TypeId Statics}

theorem staticsOf_withCount (state : InitState) :
    staticsOf 1 ⟨0⟩ (shallow (withCount statics state)).domain =
      .ok ⟨#[.null], state⟩ (shallow (withCount statics state)).domain :=
  staticsOf_of_known Std.HashMap.getElem?_insert_self

/-- The first use of the type fails, and its initializer counts as one that has ended. -/
theorem ensureInitialized_shallow : ∃ statics, ensureInitialized (callees 1) 1 ⟨0⟩
      (shallow (withCount {} .untouched)) =
      .error (.callDepth 1) (shallow (withCount statics .done)) ∧
    (shallow (withCount statics .done)).domain.History [.started ⟨0⟩, .ended ⟨0⟩ false] := by
  have hbegin : beginInitialization 1 ⟨0⟩ (shallow (withCount {} .untouched)).domain =
      .ok true (shallow (withCount (withCount {} .untouched) .running)).domain :=
    (bind_of_ok (staticsOf_withCount .untouched)).trans rfl
  have hfinish : finishInitialization 1 ⟨0⟩
      (shallow (withCount (withCount {} .untouched) .running)).domain =
      .ok () (shallow (withCount (withCount (withCount {} .untouched) .running) .done)).domain :=
    (bind_of_ok (staticsOf_withCount .running)).trans rfl
  have hrun := runInitializer_shallow (withCount (withCount {} .untouched) .running)
  have hactive : (shallow (withCount (withCount {} .untouched) .running)).domain.initState ⟨0⟩ =
      .running := initState_of_static (s := ⟨#[.null], .running⟩) Std.HashMap.getElem?_insert_self
  have hstarted : (shallow (withCount (withCount {} .untouched) .running)).domain.History
      ([] ++ [.started ⟨0⟩]) := shallow_fresh.started hbegin
  refine ⟨withCount (withCount {} .untouched) .running, ?_, ?_⟩
  · refine (ensureInitialized_first hbegin).trans (afterwards_error hrun ?_)
    simp only [Running.onDomain, shallow] at hfinish ⊢
    rw [hfinish]
  · have hattempt : Attempt ⟨0⟩ false (shallow (withCount (withCount {} .untouched) .running))
        (shallow (withCount (withCount {} .untouched) .running)) :=
      ⟨1, by rw [hrun]; exact ⟨rfl, rfl⟩⟩
    have hended :
        (shallow (withCount (withCount (withCount {} .untouched) .running) .done)).domain.History
        ([] ++ [.started ⟨0⟩] ++ [] ++ [.ended ⟨0⟩ false]) :=
      .ended hstarted hattempt hstarted hactive hfinish
    exact hended

/-- A later use of the type succeeds, although its initializer has never returned. -/
theorem used_after_failure :
    ¬∀ (es : List InitEvent) (r r' : Running) (n fuel addr : Nat) (f : Frame)
    (i : Instruction) (t : TypeId), r.domain.History es → Uses fuel f r i t →
      step (callees n) fuel f addr i r = .ok (.next, f) r' → ¬Active es t →
        ∃ es', r'.domain.History (es ++ es') ∧ (es ++ es').count (.started t) = 1 ∧
          .ended t true ∈ es ++ es' := by
  intro hclaim
  obtain ⟨statics, -, hhistory⟩ := ensureInitialized_shallow
  let f : Frame := ⟨⟨1⟩, default, ⟨[], #[], []⟩, ⟨0⟩, 0, 0, 0, 0, 0, [], []⟩
  have hresolve : Registry.resolveField 1 ⟨0⟩ ⟨0⟩ f.context shallowDomain.registry =
      .ok ⟨⟨0⟩, "count", 0, true, ⟨0⟩, none⟩ shallowDomain.registry := by
    have hask : Registry.ask (fun r ↦ r.tokens.fields[(⟨⟨0⟩, ⟨0⟩⟩ : Reference)]?)
        shallowDomain.registry = .ok (some ⟨⟨0⟩, "count", 0, true, ⟨0⟩, none⟩)
          shallowDomain.registry :=
          congrArg (EStateM.Result.ok · _) Std.HashMap.getElem?_insert_self
    exact bind_of_ok hask
  have hfield : fieldOperand 1 f ⟨0⟩ (shallow (withCount statics .done)) =
      .ok ⟨⟨0⟩, "count", 0, true, ⟨0⟩, none⟩ (shallow (withCount statics .done)) := by
    have hoperand : fieldOperand 1 f ⟨0⟩ =
        Running.onDomain (inRegistry (Registry.resolveField 1 f.home ⟨0⟩ f.context)) := rfl
    simp only [hoperand, shallow, Running.onDomain, inRegistry]
    rw [hresolve]
  have hready : ensureInitialized (callees 1) 1 ⟨0⟩ (shallow (withCount statics .done)) =
      .ok () (shallow (withCount statics .done)) :=
    ensureInitialized_later ((bind_of_ok (staticsOf_withCount .done)).trans rfl)
  obtain ⟨r', hpush⟩ : ∃ r', push (.staticRef ⟨0⟩ 0) (shallow (withCount statics .done)) =
      .ok () r' := ⟨_, rfl⟩
  have hload : loadStaticAddr (callees 1) 1 ⟨⟨0⟩, "count", 0, true, ⟨0⟩, none⟩
      (shallow (withCount statics .done)) = .ok () r' :=
    (bind_of_ok hready).trans hpush
  have hstep : step (callees 1) 1 f 0 (.loadStaticAddr ⟨0⟩) (shallow (withCount statics .done)) =
      .ok (.next, f) r' :=
    (bind_of_ok ((bind_of_ok hfield).trans hload)).trans rfl
  have huses : Uses 1 f (shallow (withCount statics .done)) (.loadStaticAddr ⟨0⟩) ⟨0⟩ :=
    .loadStaticAddr hfield
  have hidle : ¬Active [.started ⟨0⟩, .ended ⟨0⟩ false] ⟨0⟩ := fun h ↦ h.2 false (by simp)
  obtain ⟨es', hes', -, hended⟩ := hclaim [.started ⟨0⟩, .ended ⟨0⟩ false]
    (shallow (withCount statics .done)) r' 1 1 0 f (.loadStaticAddr ⟨0⟩) ⟨0⟩ hhistory huses
    hstep hidle
  -- The initializer has ended once already.
  have honce := hes'.ended_once ⟨0⟩
  have hagain : .ended ⟨0⟩ true ∈ es' := by simpa using hended
  have hpos : 0 < es'.countP (ends ⟨0⟩) := countP_ends_pos.mpr ⟨true, hagain⟩
  rw [List.countP_append] at honce
  have hbefore : [started ⟨0⟩, ended ⟨0⟩ false].countP (ends ⟨0⟩) = 1 := rfl
  omega

end Engine

end ManagedMachine
