import ManagedMachine.Proofs.TwinFrames

/-!
# Methods on twins

A method that runs on twins opens a frame on its arguments, executes instruction after instruction
and gives everything up that the frame has allocated. While the frame runs, the place where the
blocks of the caller begin is a level of the guard: no block reaches over it, so what the frame
frees was its own. By induction on the bound everything that the engine calls leaves twins behind.
-/

set_option autoImplicit false
set_option relaxedAutoImplicit false

namespace ManagedMachine

open Engine

variable {g : Guard} {K : Set Nat} {r r' : Running}

/-- The guard of a frame whose caller's blocks begin at an address. -/
def Guard.within (g : Guard) (low base : Nat) : Guard := ⟨base, insert low g.levels⟩

/-- Twins while a frame runs, at whatever address its own blocks begin. -/
def Running.Inner (g : Guard) (low : Nat) (K : Set Nat) (r r' : Running) : Prop :=
  ∃ base, Running.Twin (g.within low base) K r r'

namespace Running.Twin

theorem inner {low base : Nat} (h : Running.Twin (g.within low base) K r r') :
    Running.Inner g low K r r' := ⟨base, h⟩

/-- Entering a method makes the lowest address a level. -/
theorem entered (h : Running.Twin g K r r') (id : MethodId) :
    Running.Twin (g.within r.stack.low g.base) K (r.entered id) (r'.entered id) where
  domain := h.domain
  id := h.id
  frames := congrArg (List.cons (⟨id, 0⟩ : Activation)) h.frames
  stack := by
    have hfloor := h.stack.guard.withFloor r.stack.managed.size
    change Stack.Twin _ _ K { r.stack with floor := r.stack.managed.size }
      { r'.stack with floor := r'.stack.managed.size }
    rwa [h.stack.managed]
  honest := h.honest

theorem sealed (h : Running.Twin g K r r') :
    Running.Twin ⟨r.stack.low, g.levels⟩ K r.sealed r'.sealed :=
  { h with stack := h.stack.sealLocals }

/-- Every level lies above the blocks of a frame that is sealed now. -/
theorem shields_sealed (h : Running.Twin g K r r') : Guard.Shields ⟨r.stack.low, g.levels⟩ :=
  fun _ hv ↦ h.stack.levels hv

theorem noting (h : Running.Twin g K r r') (addr : Nat) :
    Running.Twin g K (r.noting addr) (r'.noting addr) := by
  obtain ⟨d, n, st, frames⟩ := r
  obtain ⟨d', n', st', frames'⟩ := r'
  obtain rfl : frames' = frames := h.frames
  cases frames' <;> exact { h with frames := rfl }

theorem mark (h : Running.Twin g K r r') : r'.stack.mark = r.stack.mark := by
  simp only [Stack.mark, Stack.entries, h.stack.top, h.stack.low, h.stack.base_eq, h.stack.floor,
    h.stack.managed]

theorem bounds (h : Running.Twin g K r r') : r'.stack.bounds = r.stack.bounds := by
  simp only [Stack.bounds, h.stack.base_eq, h.stack.floor]

/-- A frame is left as it was entered. -/
theorem left {entry entry' : Running} (hentry : Running.Twin g K entry entry') {K' : Set Nat}
    (h : Running.Inner g entry.stack.low K' r r') :
    Running.Twin g K' (r.left entry) (r'.left entry) := by
  obtain ⟨base, h⟩ := h
  exact ⟨h.domain, h.id, congrArg List.tail h.frames, h.stack.reset (g := g) (Set.mem_insert _ _)
    (Set.subset_insert _ _) (fun _ hv ↦ hentry.stack.levels hv) hentry.stack.base, h.honest⟩

end Running.Twin

namespace Engine

variable {c : Callees} {f : Frame}

/-! ### Opening a frame -/

/-- Arguments become the property of the frame, each in its place. -/
theorem alike_ownArguments (h : Running.Twin g K r r') (m : Method) {argBase : Nat}
    (hargs : ∀ i < m.argCount, argBase + i ∈ K) :
    Alike (Running.Twin g) K (ownArguments m argBase) r r' := by
  refine .forM _ h ?_
  rintro ⟨t, i⟩ hmem K' t t' hK h
  have ha : argBase + m.flags.hasThis.toNat + i ∈ K' := by
    rw [Nat.add_assoc]
    refine hK (hargs _ ?_)
    have := List.snd_lt_of_mem_zipIdx hmem
    unfold Method.argCount
    omega
  refine Sees.andThen h (.descriptor h _) fun d _ _ _ h _ ↦ ?_
  split
  · refine Sees.andThen h (.of_read h (h.stack.slotAt ha)) fun s _ _ _ h _ ↦ ?_
    split
    · exact (h.pushEntry .null).bind fun _ _ _ _ _ _ h _ ↦ h.setSlot ⟨.of_none rfl, rfl⟩ _
    · exact .pure h trivial
  · exact .pure h trivial

theorem alike_pushLocals (h : Running.Twin g K r r') (fuel : Nat) (locals : List TypeId) :
    Alike (Running.Twin g) K (locals.forM fun t ↦ do push (← defaultSlot fuel t)) r r' :=
  .forM _ h fun t _ _ _ _ _ h ↦
    (gives_freshSlot (fun h ↦ gives_allocInline fuel h) h fuel t).bind fun _ _ _ _ _ _ h hs ↦
      h.push hs

/-- Locals are pushed, and so join the set. -/
theorem alike_placeLocals (h : Running.Twin g K r r') (fuel : Nat) (id : MethodId) (m : Method)
    (argBase : Nat) : Alike (Running.Twin g) K (placeLocals fuel id m argBase) r r' := by
  refine Sees.andThen h (.ask h h.stack.top) fun found _ _ _ h hfound ↦ ?_
  split
  · exact Sees.andThen h (.fullName h m) fun _ _ _ _ h _ ↦ .throw h _
  · next htop =>
    replace htop : found = argBase + m.argCount := not_not.mp htop
    have hargs (i : Nat) (hi : i < m.argCount) : argBase + i ∈ K := h.stack.mem_of_lt (by
      change _ < r.stack.top
      omega)
    refine (alike_ownArguments h m hargs).seq fun _ _ _ _ _ h _ ↦ ?_
    refine Sees.andThen h (.registry h (Registry.grows_localsOf id)) fun locals _ _ _ h _ ↦ ?_
    refine Sees.andThen h (.ask h h.stack.top) fun localBase _ _ _ h _ ↦ ?_
    exact (alike_pushLocals h fuel locals).seq fun _ _ _ _ _ h _ ↦ .pure h trivial

/-- The operands start above the locals, and those above the arguments. -/
theorem placeLocals_ok {fuel : Nat} {id : MethodId} {m : Method} {argBase : Nat} {p : Nat × Nat}
    {t : Running} (h : placeLocals fuel id m argBase r = .ok p t) :
    p.1 = argBase + m.argCount ∧ t.stack.top = p.1 + p.2 := by
  obtain ⟨w, rfl, -, -, hlocals, hrests⟩ := (spec_placeLocals (S := freeScope)
    (v := View.start r) fuel id (fun _ _ _ _ ↦ ⟨trivial, trivial⟩) rfl).ok h
  exact ⟨hlocals, hrests.top⟩

/-- The frame that is opened finds everything within the set, and may free what it allocates. -/
theorem gives_openFrame {low base : Nat} (h : Running.Twin (g.within low base) K r r')
    (fuel : Nat) (id : MethodId) (m : Method) (body : Body) (home : ModuleId) (argBase : Nat) :
    Gives (Running.Inner g low) K (openFrame fuel id m body home argBase) r r'
      fun K' f t ↦ f.Within K' ∧ (g.within low t.stack.base).Shields := by
  have hplaced := ((alike_placeLocals h fuel id m argBase).also (Q := fun p t ↦
    p.1 = argBase + m.argCount ∧ t.stack.top = p.1 + p.2) fun _ _ ↦ placeLocals_ok)
  refine (hplaced.weaken fun _ _ _ ↦ Running.Twin.inner).bind fun K' p t t' _ _ ht hp ↦ ?_
  obtain ⟨_, ht⟩ := ht
  obtain ⟨-, hlocals, htop⟩ := hp
  obtain ⟨localBase, localCount⟩ := p
  have hrest (u : Running) : (do
      modifyStack Stack.sealLocals
      return (⟨id, m, body, home, argBase, m.argCount, localBase, localCount, ← ask Stack.top, [],
        []⟩ : Frame) : RunM Frame) u =
      .ok ⟨id, m, body, home, argBase, m.argCount, localBase, localCount, u.stack.top, [], []⟩
        u.sealed := rfl
  have hmem {a : Nat} (ha : a < localBase + localCount) : a ∈ K' :=
    ht.stack.mem_of_lt (htop.symm ▸ ha)
  dsimp only at hlocals ⊢
  rw [Gives, hrest, hrest, ht.stack.top]
  refine .ok ⟨K', subset_rfl, ht.sealed.inner, ⟨fun {i} hi ↦ hmem ?_, fun hi ↦ hmem ?_⟩,
    ht.shields_sealed⟩
  · change argBase + i < _
    change i < m.argCount at hi
    omega
  · exact Nat.add_lt_add_left hi localBase

/-! ### Running a method -/

theorem gives_dispatch (h : Running.Twin g K r r') (hg : g.Shields) (fuel : Nat)
    (hf : f.Within K) (addr : Nat) (raised : Raised) :
    Gives (Running.Twin g) K (dispatch fuel f addr raised) r r' fun K' ctl _ ↦ ctl.Leads K' := by
  refine (gives_handleException h hg fuel hf addr raised).bind fun _ p _ _ _ _ h hf ↦ ?_
  obtain ⟨arrival, f⟩ := p
  cases arrival with
  | «at» addr => exact .pure h hf
  | raise raised => exact .throw h _

/-- An instruction and what becomes of its exception. -/
theorem gives_advance (hc : c.Twins) (hg : g.Shields) (h : Running.Twin g K r r') (fuel : Nat)
    (hf : f.Within K) (addr : Nat) (i : Instruction) :
    Gives (Running.Twin g) K (advance c fuel f addr i) r r' fun K' ctl _ ↦ ctl.Leads K' := by
  have hstep := gives_step hc hg h fuel hf addr i
  unfold Gives at hstep ⊢
  simp only [advance]
  generalize step c fuel f addr i r = x, step c fuel f addr i r' = x' at hstep ⊢
  cases hstep with
  | @ok p t t' hstep =>
    obtain ⟨K', hK, h, hp⟩ := hstep
    obtain ⟨outcome, f'⟩ := p
    cases outcome with
    | next => exact .ok ⟨K', hK, h, hp.within⟩
    | jump target => exact .ok ⟨K', hK, h, hp.within⟩
    | ret v => exact .ok ⟨K', hK, h, hp.result rfl⟩
    | raise raised => exact Gives.grow hK (gives_dispatch h hg fuel hp.within addr raised)
  | @error e t t' hstep =>
    obtain ⟨K', hK, h⟩ := hstep
    cases e with
    | exception raised => exact Gives.grow hK (gives_dispatch h hg fuel (hf.mono hK) addr raised)
    | _ => exact .error ⟨K', hK, h⟩

/-- By induction on the bound. -/
theorem gives_loop (hc : c.Twins) (hg : g.Shields) : (fuel : Nat) → {K : Set Nat} →
    {r r' : Running} → {f : Frame} → (addr : Nat) → Running.Twin g K r r' → f.Within K →
    Gives (Running.Twin g) K (loop c fuel f addr) r r'
      fun K' v _ ↦ ∀ carry ∈ v, carry.Leads K'
  | 0, _, _, _, _, _, h, _ => .throw h _
  | fuel + 1, K, r, r', f, addr, h, hf => by
    unfold loop
    split
    · exact Sees.andThen h (.fullName h _) fun _ _ _ _ h _ ↦ .throw h _
    · next i _ =>
      have hnoting : Alike (Running.Twin g) K (setAddress addr) r r' :=
        .ok ⟨K, subset_rfl, h.noting addr, trivial⟩
      refine hnoting.seq fun _ _ _ _ hK h _ ↦
        (gives_advance hc hg h fuel (hf.mono hK) addr i).bind fun _ ctl _ _ _ _ h hctl ↦ ?_
      cases ctl with
      | «at» addr f => exact gives_loop hc hg fuel addr h hctl
      | done v => exact .pure h hctl

theorem gives_runBody (hc : c.Twins) {low base : Nat}
    (h : Running.Twin (g.within low base) K r r') (fuel : Nat) (id : MethodId) (m : Method)
    (body : Body) (home : ModuleId) (argBase : Nat) :
    Gives (Running.Inner g low) K (runBody c fuel id m body home argBase) r r'
      fun K' v _ ↦ ∀ carry ∈ v, carry.Leads K' :=
  (gives_openFrame h fuel id m body home argBase).bind fun K' f t t' _ _ ht hf ↦ by
    obtain ⟨base, ht⟩ := ht
    obtain rfl : t.stack.base = base := ht.stack.base
    exact (gives_loop hc hf.2 fuel 0 ht hf.1).weaken fun _ _ _ ↦ Running.Twin.inner

/-- A method with its frame, from the arguments to the result. -/
theorem gives_runMethod (hc : c.Twins) (hg : g.Shields) (h : Running.Twin g K r r') (fuel : Nat)
    (id : MethodId) (argBase : Nat) : Gives (Running.Twin g) K (runMethod c fuel id argBase) r r'
      fun K' v _ ↦ ∀ carry ∈ v, carry.Leads K' := by
  by_cases hdepth : r.domain.config.maxCallDepth ≤ r.interpreter.frames.length
  · have hlimit {t : Running} (hdomain : t.domain = r.domain)
        (hframes : t.interpreter.frames = r.interpreter.frames) :
        runMethod c fuel id argBase t = .error (.callDepth r.domain.config.maxCallDepth) t := by
      rw [← hdomain, ← hframes] at hdepth
      change (ite (t.domain.config.maxCallDepth ≤ t.interpreter.frames.length) _ _ : RunM _) t = _
      rw [if_pos hdepth, hdomain]
      rfl
    rw [Gives, hlimit rfl rfl, hlimit h.domain h.frames]
    exact .error ⟨K, subset_rfl, h⟩
  · rw [Gives, runMethod_past hdepth, runMethod_past (by rwa [h.domain, h.frames]), h.domain,
      h.mark, h.bounds]
    cases (r.domain.registry.method id).body? with
    | none => exact .error ⟨K, subset_rfl, h⟩
    | some body =>
      cases (r.domain.registry.method id).home? with
      | none => exact .error ⟨K, subset_rfl, h⟩
      | some p =>
        have hbody := gives_runBody hc (h.entered id) fuel id (r.domain.registry.method id) body
          p.1.id argBase
        have hafter : ∀ K' t t', K ⊆ K' → Running.Inner g r.stack.low K' t t' →
            Alike (Running.Twin g) K' (do
              popActivation
              modifyStack fun s ↦ (s.leaveFrame r.stack.bounds).reset r.stack.mark
              popArguments argBase) t t' :=
          fun _ _ _ _ ht ↦ (h.left ht).popTo hg argBase
        exact gives_afterwards (fun _ _ _ hK hv carry hcarry ↦ (hv carry hcarry).mono hK) hbody
          hafter

/-- Whatever the engine calls leaves twins behind. -/
theorem twins_callees : (fuel : Nat) → (callees fuel).Twins
  | 0 => ⟨fun _ h _ _ ↦ .throw h _, (protects_callees 0).1.serve⟩
  | fuel + 1 => ⟨fun hg h id argBase ↦ gives_runMethod (twins_callees fuel) hg h fuel id argBase,
      (protects_callees (fuel + 1)).1.serve⟩

end Engine

end ManagedMachine
