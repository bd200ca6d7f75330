import ManagedMachine.Proofs.Moments

/-!
# Opening a frame

Before the first instruction of a method the arguments are put in order and the locals follow them.
That only adds to what is on the stack: `Grow` has the edits that take nothing away, and `Grown`
says what they leave as it is.

The locals of a frame are pushed in order, each with the default of its type (`spec_pushLocals`).
Arguments that are structs are given blocks of their own first, which is quiet, because the slots of
the arguments are there already (`spec_ownArguments`).
-/

set_option autoImplicit false
set_option relaxedAutoImplicit false

namespace ManagedMachine

open Engine

/-- The edits that take nothing off the stack. -/
inductive Grow (S : Scope) : View → View → Prop
  | build {v v' : View} (h : Build S v v') : Grow S v v'
  | push {v : View} {s : Slot} {st : Stack} (hs : v.Storable s) (href : s.isManagedRef = false)
      (h : Stack.push s v.stack = .ok () st) :
      Grow S v { v.withStack st with
        known := insert v.stack.top v.known
        own := none
        pending := []
        fresh := v.fresh ∧ s.isManagedRef = false }

instance (S : Scope) : Quieter S (Grow S) := ⟨fun h ↦ .build (.quiet h)⟩

instance (S : Scope) : Builder S (Grow S) := ⟨.build⟩

/-- Any number of edits that only add. -/
abbrev Grows (S : Scope) : View → View → Prop := Relation.ReflTransGen (Grow S)

variable {S : Scope} {v v' : View}

theorem Grow.edit (h : Grow S v v') : Edit S v v' := by
  cases h with
  | build h => exact .build h
  | push hs href h => exact .push hs h

theorem Grows.edits (h : Grows S v v') : Edits S v v' :=
  Relation.ReflTransGen.mono (fun _ _ ↦ Grow.edit) _ _ h

namespace View

/-- Nothing was taken off the stack. -/
structure Grown (v v' : View) : Prop where
  top : v.stack.top ≤ v'.stack.top
  low : v'.stack.low ≤ v.stack.low
  base : v'.stack.base = v.stack.base
  floor : v'.stack.floor = v.stack.floor
  size : v'.stack.slots.size = v.stack.slots.size
  entries : v.stack.entries ≤ v'.stack.entries
  frames : v'.run.interpreter.frames = v.run.interpreter.frames
  domain : v.domain.Extends v'.domain

theorem Grown.refl (v : View) : v.Grown v :=
  ⟨Nat.le_refl _, Nat.le_refl _, rfl, rfl, rfl, Nat.le_refl _, rfl, .refl _⟩

/-- What is left alone twice is left alone. -/
theorem Grown.trans {v v' v'' : View} (h : v.Grown v') (h' : v'.Grown v'') : v.Grown v'' :=
  ⟨h.top.trans h'.top, h'.low.trans h.low, h'.base.trans h.base, h'.floor.trans h.floor,
    h'.size.trans h.size, h.entries.trans h'.entries, h'.frames.trans h.frames,
    h.domain.trans h'.domain⟩

end View

/-- One edit of the kind. -/
theorem Grow.grown (h : Grow S v v') : v.Grown v' := by
  cases h with
  | build h =>
    have h := h.raised
    exact ⟨h.top.ge, h.low, h.base, h.floor, h.size, h.entries, h.frames, h.domain⟩
  | push hs href h =>
    obtain ⟨-, rfl⟩ := Stack.push_ok h
    exact ⟨Nat.le_succ _, Nat.le_refl _, rfl, rfl, by simp, Nat.le_refl _, rfl, .refl _⟩

/-- Any number of them. -/
theorem Grows.grown (h : Grows S v v') : v.Grown v' := by
  induction h with
  | refl => exact .refl _
  | tail _ h ih => exact ih.trans h.grown

/-- The machine when the locals of a frame are in place. -/
def Running.sealed (r : Running) : Running :=
  { r with interpreter := { r.interpreter with stack := r.stack.sealLocals } }

namespace Engine

/-- The arguments, locals and operands of a frame follow each other. -/
def Ordered (f : Frame) : Prop :=
  f.argBase + f.argCount ≤ f.localBase ∧ f.localBase + f.localCount ≤ f.evalBase

/-- The marks of a frame are in its core. -/
theorem Ordered.core {f f' : Frame} (h : Ordered f) (hcore : f'.core = f.core) : Ordered f' := by
  obtain ⟨harg, hcount, hlocal, hlocals, heval⟩ : f'.argBase = f.argBase ∧
      f'.argCount = f.argCount ∧
      f'.localBase = f.localBase ∧ f'.localCount = f.localCount ∧ f'.evalBase = f.evalBase := by
    cases f
    cases f'
    cases hcore
    exact ⟨rfl, rfl, rfl, rfl, rfl⟩
  unfold Ordered
  rwa [harg, hcount, hlocal, hlocals, heval]

/-- The arguments of a method are slots of its frame. -/
def HasArguments (S : Scope) (v : View) (m : Method) (argBase : Nat) : Prop :=
  ∀ a, argBase ≤ a → a < argBase + m.argCount → a ∈ S.frame ∧ a ∈ v.known

/-- Arguments become the property of the frame. -/
theorem spec_ownArguments {m : Method} {argBase : Nat} (hv : HasArguments S v m argBase) :
    Spec (Quiet S) (ownArguments m argBase) v fun _ _ ↦ True := by
  unfold ownArguments
  refine (Spec.forM (I := fun w ↦ HasArguments S w m argBase) _ ?_ hv).trivially
  rintro ⟨t, i⟩ hmem w - hw
  have hi : i < m.params.length := by
    have := List.snd_lt_of_mem_zipIdx hmem
    omega
  obtain ⟨hframe, hknown⟩ := hw (argBase + m.flags.hasThis.toNat + i) (by omega) (by
    unfold Method.argCount
    omega)
  have hkeep (w' : View) (h : w.Level w') : HasArguments S w' m argBase :=
    fun a ha ha' ↦ ⟨(hw a ha ha').1, h.known (hw a ha ha').2⟩
  dsimp only
  refine Spec.look (looks_descriptor t) fun desc d _ _ ↦ ?_
  split
  · refine Spec.read fun s _ ↦ ?_
    split
    · refine (Spec.pushEntry _).quietly fun entry w' hlevel hown ↦ ?_
      have hwritable : S.Writable w' (argBase + m.flags.hasThis.toNat + i) :=
        ⟨hlevel.known hknown, Or.inl hframe⟩
      refine (Spec.setSlot (s := .object entry) hwritable hown.1 rfl).imp fun _ w'' hR _ ↦ ?_
      exact fun a ha ha' ↦ ⟨(hw a ha ha').1, (Quiets.level hR).known (hlevel.known (hw a ha ha').2)⟩
    · exact Spec.pure hw
  · exact Spec.pure hw

/-- By recursion on the list of locals. -/
theorem spec_pushLocals (fuel : Nat) : (locals : List TypeId) → {v : View} → v.pending = [] →
    Spec (Grow S) (locals.forM fun t ↦ do push (← defaultSlot fuel t)) v
      fun _ v' ↦ v'.Rests (v.stack.top + locals.length)
  | [], _, hv => Spec.pure ⟨rfl, hv⟩
  | t :: locals, v, hv => by
    have hpush {s : Slot} {w : View} (hs : v.Made s w) (htop : w.stack.top = v.stack.top) :
        Spec (Grow S) (Running.onStack (Stack.push s)) w
          fun _ w' ↦ w'.Rests (v.stack.top + 1) := by
      refine Spec.stackOp (fun _ st h ↦ ?_) fun e st h ↦ ?_
      · refine ⟨_, .single (.push (hs.storable hv) hs.isManagedRef h), rfl, ?_⟩
        obtain ⟨-, rfl⟩ := Stack.push_ok h
        exact ⟨congrArg (· + 1) htop, rfl⟩
      · unfold Stack.push at h
        split at h <;> cases h
        exact ⟨w, .refl, rfl⟩
    have hlocal : Spec (Grow S) (do push (← defaultSlot fuel t)) v
        fun _ w ↦ w.Rests (v.stack.top + 1) :=
      (spec_defaultSlot fuel t v).building fun s w hraised hmade ↦ hpush hmade hraised.top
    change Spec (Grow S) (do
      (do push (← defaultSlot fuel t))
      locals.forM fun t ↦ do push (← defaultSlot fuel t)) v _
    refine hlocal.bind fun _ w _ hw ↦ ?_
    refine (spec_pushLocals fuel locals hw.pending).imp fun _ w' _ h ↦ ⟨?_, h.pending⟩
    rw [h.top, hw.top, List.length_cons]
    omega

/-- The locals of a method follow its arguments, and nothing follows the locals. -/
theorem spec_placeLocals (fuel : Nat) (id : MethodId) {m : Method} {argBase : Nat}
    (hv : v.stack.top = argBase + m.argCount → HasArguments S v m argBase)
    (hpending : v.pending = []) :
    Spec (Grow S) (placeLocals fuel id m argBase) v fun p w ↦
      v.stack.top = argBase + m.argCount ∧ p.1 = argBase + m.argCount ∧ w.Rests (p.1 + p.2) := by
  unfold placeLocals
  refine Spec.looking rfl ?_
  split
  · exact Spec.looking rfl (Spec.throw _)
  · next htop =>
    replace htop : v.stack.top = argBase + m.argCount := not_not.mp htop
    refine (spec_ownArguments (hv htop)).quietly fun _ w hlevel _ ↦ ?_
    refine Spec.look (looks_inRegistry (Registry.grows_localsOf id)) fun locals d _ _ ↦ ?_
    refine Spec.looking rfl ?_
    refine (spec_pushLocals (v := w.withDomain d) fuel locals
      (hlevel.pending.trans hpending)).bind fun _ w' _ h ↦ ?_
    exact Spec.pure ⟨htop, hlevel.top.trans htop, h⟩

/-- A frame is opened by edits that take nothing away, and sealed then. -/
theorem ends_opening (fuel : Nat) (id : MethodId) {m : Method} (body : Body) (home : ModuleId)
    {argBase : Nat} {r : Running} (hr : v.run = r)
    (hv : v.stack.top = argBase + m.argCount → HasArguments S v m argBase)
    (hpending : v.pending = []) :
    Ends (openFrame fuel id m body home argBase) r
      (fun f r' ↦ f.argBase = argBase ∧ Ordered f ∧
        ∃ w, Grows S v w ∧ w.stack.top = f.evalBase ∧ r' = w.run.sealed)
      fun r' ↦ ∃ w, Grows S v w ∧ r' = w.run := by
  subst hr
  have hplace := spec_placeLocals fuel id hv hpending
  unfold Ends openFrame
  cases h : placeLocals fuel id m argBase v.run with
  | error e r =>
    obtain ⟨w, rfl, hR⟩ := hplace.error h
    rw [bind_of_error h]
    exact ⟨w, hR, rfl⟩
  | ok p r =>
    obtain ⟨w, rfl, hR, htop, hlocals, hrests⟩ := hplace.ok h
    rw [bind_of_ok h]
    exact ⟨rfl, ⟨hlocals.ge, hrests.top.ge⟩, w, hR, rfl, rfl⟩

end Engine

end ManagedMachine
