import ManagedMachine.Proofs.Opening
import ManagedMachine.Proofs.WholeRuns

/-!
# Call protection

A call never touches what its caller has on the stack. While its body runs, the entries made before
the call stay in the table and the blocks set up before it stay allocated, because the frame starts
with `floor` at the end of the table and seals its locals with `base` below the blocks of the
caller. Afterwards both bounds are what they were, and whatever the call has allocated is given up.

`Kept` is what a call, and every single edit, leaves to the code around it. `Guards` is what holds
between the start of a call and every later moment of it.
-/

set_option autoImplicit false
set_option relaxedAutoImplicit false

namespace ManagedMachine

open Engine

/-! ### What a call keeps -/

/-- What code keeps of the machine that it runs on: entries below the floor and blocks from the base
up are still there. -/
structure Kept (r r' : Running) : Prop where
  base : r'.stack.base = r.stack.base
  floor : r'.stack.floor = r.stack.floor
  size : r'.stack.slots.size = r.stack.slots.size
  frames : r'.interpreter.frames = r.interpreter.frames
  domain : r.domain.Extends r'.domain
  low_le : ∀ n, r.stack.base ≤ n → r.stack.low ≤ n → r'.stack.low ≤ n
  le_entries : ∀ n, n ≤ r.stack.floor → n ≤ r.stack.entries → n ≤ r'.stack.entries

theorem Kept.refl (r : Running) : Kept r r :=
  ⟨rfl, rfl, rfl, rfl, .refl _, fun _ _ h ↦ h, fun _ _ h ↦ h⟩

/-- What two pieces of code leave alone one after the other is left alone by both. -/
theorem Kept.trans {r r' r'' : Running} (h : Kept r r') (h' : Kept r' r'') : Kept r r'' :=
  ⟨h'.base.trans h.base, h'.floor.trans h.floor, h'.size.trans h.size, h'.frames.trans h.frames,
    h.domain.trans h'.domain, fun n hbase hn ↦ h'.low_le n (h.base ▸ hbase) (h.low_le n hbase hn),
    fun n hfloor hn ↦ h'.le_entries n (h.floor ▸ hfloor) (h.le_entries n hfloor hn)⟩

/-- Code that may use every address and runs on the bare stack: what it can do is what any bytecode
can do. -/
def freeScope : Scope := ⟨0, Set.univ, fun _ ↦ True, fun _ _ v v' ↦ Kept v.run v'.run⟩

/-- Code that knows some addresses at the start of what it does. -/
def View.knowing (r : Running) (known : Set Nat) : View := ⟨r, known, ∅, none, [], True⟩

/-- Code that knows every address. -/
abbrev View.start (r : Running) : View := .knowing r Set.univ

variable {v v' : View}

theorem kept_of_raised (h : v.Raised v') : Kept v.run v'.run :=
  ⟨h.base, h.floor, h.size, h.frames, h.domain, fun _ _ hn ↦ h.low.trans hn,
    fun _ _ hn ↦ Nat.le_trans hn h.entries⟩

theorem kept_of_setSlot {a : Nat} {s : Slot} {st : Stack}
    (h : Stack.setSlot a s v.stack = .ok () st) : Kept v.run (v.withStack st).run :=
  have hlevel : v.Level { v.withStack st with own := v.own } := .of_setSlot h
  kept_of_raised hlevel.raised

/-- Edits keep what lies below if calls do. -/
theorem Edit.kept {S : Scope} (hS : ∀ id a v v', S.call id a v v' → Kept v.run v'.run)
    (h : Edit S v v') : Kept v.run v'.run := by
  cases h with
  | build h => exact kept_of_raised h.raised
  | drop => exact .refl _
  | storeRef ha hs href h => exact kept_of_setSlot h
  | push hs h =>
    obtain ⟨-, rfl⟩ := Stack.push_ok h
    exact ⟨rfl, rfl, Array.size_setIfInBounds, rfl, .refl _, fun _ _ hn ↦ hn, fun _ _ hn ↦ hn⟩
  | insert hbottom hs h =>
    obtain ⟨-, -, rfl⟩ := Stack.insert_ok h
    exact ⟨rfl, rfl, Stack.size_shifted _ _ _ _, rfl, .refl _, fun _ _ hn ↦ hn, fun _ _ hn ↦ hn⟩
  | pop hbottom =>
    have hpopped := Stack.popped v.stack
    exact ⟨hpopped.base, hpopped.floor, congrArg Array.size hpopped.slots, rfl, .refl _,
      fun _ ↦ hpopped.low_le, fun _ ↦ hpopped.floor_le⟩
  | retag htop hbottom hobject hs href h => exact kept_of_setSlot h
  | call hbottom h hdomain hknown htop hover =>
    have hkept := hS _ _ _ _ h
    exact hkept

/-- Code that only edits what it may leaves the rest of the stack to the caller. -/
theorem Edits.kept {S : Scope} (hS : ∀ id a v v', S.call id a v v' → Kept v.run v'.run)
    (h : Edits S v v') : Kept v.run v'.run := by
  induction h with
  | refl => exact .refl _
  | tail _ h ih => exact ih.trans (h.kept hS)

/-! ### What may be called -/

/-- A runner that keeps what lies below it, and takes the arguments if the method returns. -/
structure Callees.Protects (c : Callees) : Prop where
  serve : ∀ r, Domain.Grows (c.serve r)
  run : ∀ id a r, Ends (c.run id a) r
    (fun result r' ↦ Kept r r' ∧ r'.stack.top ≤ r.stack.top ∧ r'.stack.top = a ∧
      (View.start r').Returns result)
    fun r' ↦ Kept r r' ∧ r'.stack.top ≤ r.stack.top

theorem Bindings.writes_of_forall (b : Bindings) {P : Slot → Prop} (h : ∀ s, P s) : b.Writes P :=
  fun _ _ _ _ ↦ Program.asks_of_forall (fun r ↦ by
    cases r with
    | setThisFields slots => exact fun s _ ↦ h s
    | _ => trivial) _

variable {c : Callees}

/-- What a method gives back and leaves behind makes a call of it an edit. -/
theorem meet_of_ends {S : Scope} (hserve : ∀ r, Domain.Grows (c.serve r))
    (hhost : v.domain.bindings.Writes S.host)
    (hrun : ∀ id a w, Edits S v w → S.Ready w a → Ends (c.run id a) w.run
      (fun result r ↦ r.stack.top = a ∧ ∃ known, w.known ⊆ known ∧
        S.call id a w (.knowing r known) ∧
        w.domain.Extends r.domain ∧ (View.knowing r known).Returns result)
      fun r ↦ r.stack.top ≤ w.stack.top ∧ S.bottom ≤ r.stack.top ∧
        ∃ known, w.known ⊆ known ∧ S.call id a w (.knowing r known) ∧ w.domain.Extends r.domain) :
    c.Meet S v := by
  refine ⟨hserve, hhost, fun id a w hw ha ↦ ?_⟩
  have hedit {r : Running} {known : Set Nat} (hknown : w.known ⊆ known)
      (hcall : S.call id a w (.knowing r known)) (hdomain : w.domain.Extends r.domain)
      (htop : r.stack.top ≤ w.stack.top) (hover : S.bottom ≤ r.stack.top) :
      Edits S w ⟨r, known, ∅, none, [], False⟩ :=
    .single (.call ha.bottom hcall hdomain hknown htop hover)
  have hends := hrun id a w hw ha
  unfold Ends at hends
  cases h : c.run id a w.run with
  | ok result r =>
    rw [h] at hends
    obtain ⟨hrests, known, hknown, hcall, hdomain, hreturns⟩ := hends
    refine Spec.of_ok (w := ⟨r, known, ∅, none, [], False⟩) h
      (hedit hknown hcall hdomain (hrests ▸ ha.top) (hrests ▸ ha.bottom)) ⟨⟨hrests, rfl⟩, ?_⟩
    exact fun carry hcarry ↦ ⟨(hreturns carry hcarry).1.mono subset_rfl, (hreturns carry hcarry).2⟩
  | error e r =>
    rw [h] at hends
    obtain ⟨htop, hover, known, hknown, hcall, hdomain⟩ := hends
    exact Spec.of_error (w := ⟨r, known, ∅, none, [], False⟩) h
      (hedit hknown hcall hdomain htop hover)

theorem meet_of_protects (hc : c.Protects) (v : View) : c.Meet freeScope v := by
  refine meet_of_ends hc.serve (Bindings.writes_of_forall _ fun _ ↦ trivial) fun id a w _ _ ↦ ?_
  refine (hc.run id a w.run).imp (fun result r h ↦ ?_) fun r h ↦ ?_
  · exact ⟨h.2.2.1, Set.univ, Set.subset_univ _, h.1, h.1.domain, h.2.2.2⟩
  · exact ⟨h.2, Nat.zero_le _, Set.univ, Set.subset_univ _, h.1, h.1.domain⟩

/-! ### Inside a call -/

/-- What holds from the start of a call until its frame is left. -/
structure Within (entry r : Running) : Prop where
  low : r.stack.low ≤ entry.stack.low
  entries : entry.stack.entries ≤ r.stack.entries
  size : r.stack.slots.size = entry.stack.slots.size
  frames : r.interpreter.frames.tail = entry.interpreter.frames
  domain : entry.domain.Extends r.domain

/-- The invariant of a running body: its bounds lie beyond everything the caller has. -/
structure Inside (entry r : Running) : Prop extends Within entry r where
  base : r.stack.base ≤ entry.stack.low
  floor : entry.stack.entries ≤ r.stack.floor

variable {entry r r' : Running}

/-- A frame that keeps to its bounds stays inside the call that it belongs to. -/
theorem Inside.kept (h : Inside entry r) (hr : Kept r r') : Inside entry r' :=
  { low := hr.low_le _ h.base h.low
    entries := hr.le_entries _ h.floor h.entries
    size := hr.size.trans h.size
    frames := hr.frames ▸ h.frames
    domain := h.domain.trans hr.domain
    base := hr.base ▸ h.base
    floor := hr.floor ▸ h.floor }

theorem Inside.noting (h : Inside entry r) (addr : Nat) : Inside entry (r.noting addr) :=
  { low := (r.noting_stack addr).symm ▸ h.low
    entries := (r.noting_stack addr).symm ▸ h.entries
    size := (r.noting_stack addr).symm ▸ h.size
    frames := (r.noting_tail addr).trans h.frames
    domain := (r.noting_domain addr).symm ▸ h.domain
    base := (r.noting_stack addr).symm ▸ h.base
    floor := (r.noting_stack addr).symm ▸ h.floor }

/-- Sealing the locals moves the bounds to where the frame begins. -/
theorem Within.sealed (h : Within entry r) : Inside entry r.sealed :=
  { low := h.low
    entries := h.entries
    size := h.size
    frames := h.frames
    domain := h.domain
    base := h.low
    floor := h.entries }

/-- The machine after a call: nothing of it is left. -/
structure Left (entry r : Running) : Prop extends Kept entry r where
  top : r.stack.top ≤ entry.stack.top
  low : min entry.stack.low entry.stack.slots.size ≤ r.stack.low
  entries : r.stack.entries ≤ entry.stack.entries

/-- Leaving the frame puts the bounds back and gives up what was allocated since. -/
theorem Within.left (h : Within entry r) : Left entry (r.left entry) := by
  have hlow : (r.left entry).stack.low = min entry.stack.low entry.stack.slots.size := by
    change min (max entry.stack.low r.stack.low) r.stack.slots.size = _
    rw [Nat.max_eq_left h.low, h.size]
  have hentries : (r.left entry).stack.entries = entry.stack.entries := by
    change (r.stack.managed.shrink entry.stack.entries).size = _
    rw [Array.size_shrink]
    exact Nat.min_eq_left h.entries
  exact
    { base := rfl
      floor := rfl
      size := h.size
      frames := h.frames
      domain := h.domain
      low_le := fun n _ hn ↦ hlow ▸ Nat.le_trans (Nat.min_le_left _ _) hn
      le_entries := fun n _ hn ↦ hentries ▸ hn
      top := Nat.min_le_left _ _
      low := hlow.ge
      entries := hentries.le }

/-- What is left of the operands of the call is dropped once the bounds are back. -/
theorem Left.dropped (h : Left entry r) {st : Stack} (hst : Stack.Dropped r.stack st) {r' : Running}
    (hr' : r' = { r with interpreter := { r.interpreter with stack := st } }) : Left entry r' := by
  subst hr'
  exact
    { base := hst.base.trans h.base
      floor := hst.floor.trans h.floor
      size := (congrArg Array.size hst.slots).trans h.size
      frames := h.frames
      domain := h.domain
      low_le := fun n hbase hn ↦ hst.low_le n (h.base ▸ hbase) (h.low_le n hbase hn)
      le_entries := fun n hfloor hn ↦ hst.le_entries n (h.floor ▸ hfloor) (h.le_entries n hfloor hn)
      top := hst.top_le.trans h.top
      low := h.low.trans hst.le_low
      entries := hst.entries_le.trans h.entries }

/-- Opening a frame takes nothing away. -/
theorem Grows.within {S : Scope} {w : View} {id : MethodId} (h : Grows S v w)
    (hv : v.run = entry.entered id) : Within entry w.run := by
  have hgrown := Grows.grown h
  obtain ⟨r, known, cells, own, pending, fresh⟩ := v
  subst hv
  exact ⟨hgrown.low, hgrown.entries, hgrown.size, congrArg List.tail hgrown.frames, hgrown.domain⟩

/-- Every entry and every block that one machine has, another one still has. -/
structure Guards (entry r : Running) : Prop where
  entries : entry.stack.entries ≤ r.stack.entries
  low : r.stack.low ≤ entry.stack.low

theorem Guards.trans (h : Guards entry r) (h' : Guards r r') : Guards entry r' :=
  ⟨h.entries.trans h'.entries, h'.low.trans h.low⟩

theorem Within.guards (h : Within entry r) : Guards entry r := ⟨h.entries, h.low⟩

/-- An instruction leaves what the call of its frame found, and what an earlier machine had. -/
structure Moment.Guarded (entry : Running) (m : Moment) : Prop where
  start : Guards entry m.entry
  before : Guards m.entry m.before
  after : Guards m.entry m.after

/-- What is guarded within a call is guarded within the call around it. -/
theorem Moment.Guarded.trans {m : Moment} (h : Guards entry r) (hm : m.Guarded r) :
    m.Guarded entry := ⟨h.trans hm.start, hm.before, hm.after⟩

namespace Engine

variable {f : Frame} {fuel : Nat}

/-- What any instruction can do, whatever it finds on the stack. -/
theorem does_anywhere (hc : c.Protects) (h : Ordered f) (fuel addr : Nat) (i : Instruction)
    (r : Running) :
    Does freeScope c (fun c ↦ advance c fuel f addr i) (View.start r)
      fun ctl w ↦ Continues f w ctl := by
  refine does_advance (meet_of_protects hc _) fuel addr i ?_ ?_
  · exact ⟨Nat.zero_le _, h.1, h.2, fun _ _ _ ↦ ⟨trivial, trivial⟩⟩
  · exact ⟨Nat.zero_le _, fun _ _ _ ↦ trivial, rfl, trivial⟩

/-- The body starts inside its bounds. -/
theorem ends_openFrame (fuel : Nat) (entry : Running) (id : MethodId) (m : Method) (body : Body)
    (home : ModuleId) (argBase : Nat) :
    Ends (openFrame fuel id m body home argBase) (entry.entered id)
      (fun f r ↦ Ordered f ∧ Inside entry r) (Within entry) := by
  refine (ends_opening (S := freeScope) (v := View.start (entry.entered id)) fuel id body home rfl
    (fun _ _ _ _ ↦ ⟨trivial, trivial⟩) rfl).imp (fun f r h ↦ ?_) fun r h ↦ ?_
  · obtain ⟨-, hord, w, hR, -, rfl⟩ := h
    exact ⟨hord, (Grows.within hR rfl).sealed⟩
  · obtain ⟨w, hR, rfl⟩ := h
    exact Grows.within hR rfl

/-- A body keeps inside its bounds, and each of its instructions leaves what the caller has. -/
theorem ends_loop (hc : (callees fuel).Protects)
    (halong : ∀ id a r, Along (Moment.Guarded r) fuel id a r) {addr : Nat} (hord : Ordered f)
    (h : Inside entry r) :
    AlongLoop (Along (Moment.Guarded entry) fuel) (Moment.Guarded entry) (callees fuel) entry fuel f
      addr r ∧
    Ends (loop (callees fuel) fuel f addr) r
      (fun v r' ↦ Inside entry r' ∧ (View.start r').Returns v) (Inside entry) := by
  refine loop_induct (I := fun f r ↦ Ordered f ∧ Inside entry r) (T := fun _ _ _ ↦ True)
    (P := fun _ ↦ True) (fun _ _ h ↦ h.2) ?_ fuel ⟨hord, h⟩
    (alongLoop_true (fun _ _ _ ↦ trivial) fuel f addr r)
  intro fuel' f addr i r ⟨hord, h⟩ _ _
  have hdoes := does_anywhere hc hord fuel' addr i (r.noting addr)
  have hin {w : View} (hw : Edits freeScope (View.start (r.noting addr)) w) : Inside entry w.run :=
    (h.noting addr).kept (Edits.kept (fun _ _ _ _ h ↦ h) hw)
  refine ⟨?_, fun id a s hmakes ↦ ?_, ?_⟩
  · obtain ⟨w, hend, hw⟩ := hdoes.spec.ends
    have hafter := (hin hw).guards
    rw [hend] at hafter
    exact ⟨⟨Nat.le_refl _, Nat.le_refl _⟩, (h.noting addr).guards, hafter⟩
  · obtain ⟨w, rfl, hw, -⟩ := hdoes.only.of_makes hmakes
    exact (halong id a w.run).mono fun m hm ↦ hm.trans (hin hw).guards
  · unfold Ends
    cases hadv : advance (callees fuel) fuel' f addr i (r.noting addr) with
    | error e r' =>
      obtain ⟨w, rfl, hw⟩ := hdoes.spec.error hadv
      exact hin hw
    | ok ctl r' =>
      obtain ⟨w, rfl, hw, hcontinues⟩ := hdoes.spec.ok hadv
      cases ctl with
      | «at» next f' => exact ⟨hord.core hcontinues, hin hw⟩
      | done v =>
        refine ⟨hin hw, fun carry hcarry ↦ ?_⟩
        exact ⟨(hcontinues carry hcarry).1.mono (Set.subset_univ _), (hcontinues carry hcarry).2⟩

/-- What becomes of the arguments when a frame is left. -/
theorem ends_popArguments (argBase : Nat) (h : Left entry r) :
    Ends (popArguments argBase) r (fun _ r' ↦ Left entry r' ∧ r'.stack.top = argBase)
      fun r' ↦ Left entry r' ∧ (r'.stack.top ≤ argBase ∨ Stack.Stuck r'.stack) := by
  obtain ⟨d, n, st, frames⟩ := r
  have hdropped := Stack.popTo_dropped argBase st
  have hrun : popArguments argBase ⟨d, n, st, frames⟩ = match Stack.popTo argBase st with
    | .ok u st' => .ok u ⟨d, n, st', frames⟩
    | .error e st' => .error e ⟨d, n, st', frames⟩ := by
    change Running.onStack (Stack.popTo argBase) ⟨d, n, st, frames⟩ = _
    simp only [Running.onStack]
    cases Stack.popTo argBase st <;> rfl
  unfold Ends
  rw [hrun]
  cases hpop : Stack.popTo argBase st with
  | ok u st' =>
    rw [endState_ok hpop] at hdropped
    exact ⟨h.dropped hdropped rfl, Stack.popTo_ok hpop⟩
  | error e st' =>
    rw [endState_error hpop] at hdropped
    exact ⟨h.dropped hdropped rfl, Stack.popTo_error hpop⟩

/-- A call that gets to its body. -/
theorem ends_runMethod {id : MethodId} {body : Body} {home : ModuleId} (argBase : Nat)
    (hc : (callees fuel).Protects) (halong : ∀ id a r, Along (Moment.Guarded r) fuel id a r)
    (h : Enters r id body home) :
    Along (Moment.Guarded r) (fuel + 1) id argBase r ∧
    Ends (run (fuel + 1) id argBase) r
      (fun result r' ↦ Left r r' ∧ r'.stack.top = argBase ∧ (View.start r').Returns result)
      fun r' ↦ Left r r' ∧ (r'.stack.top ≤ argBase ∨ Stack.Stuck r'.stack) := by
  refine ⟨fun body home f r' _ hopen ↦ ?_, ?_⟩
  · have hopens := ends_openFrame fuel r id (r.domain.registry.method id) body home argBase
    rw [Ends, hopen] at hopens
    exact (ends_loop hc halong hopens.1 hopens.2).1
  · have hrun : run (fuel + 1) id argBase r = runMethod (callees fuel) fuel id argBase r := rfl
    have hbody :
        Ends (runBody (callees fuel) fuel id (r.domain.registry.method id) body home argBase)
        (r.entered id) (fun v r' ↦ Within r r' ∧ (View.start r').Returns v) (Within r) := by
      have hopens := ends_openFrame fuel r id (r.domain.registry.method id) body home argBase
      unfold Ends runBody
      cases hopen : openFrame fuel id (r.domain.registry.method id) body home argBase
        (r.entered id) with
      | error e r' =>
        rw [Ends, hopen] at hopens
        rw [bind_of_error hopen]
        exact hopens
      | ok f r' =>
        rw [Ends, hopen] at hopens
        rw [bind_of_ok hopen]
        exact (ends_loop hc halong hopens.1 hopens.2).2.imp (fun _ _ h ↦ ⟨h.1.toWithin, h.2⟩)
          fun _ h ↦ h.toWithin
    unfold Ends at hbody ⊢
    rw [hrun, runMethod_entered h]
    cases hrunBody : runBody (callees fuel) fuel id (r.domain.registry.method id) body home argBase
      (r.entered id) with
    | ok result r₁ =>
      rw [hrunBody] at hbody
      have hpop := ends_popArguments argBase hbody.1.left
      unfold Ends at hpop
      dsimp only
      cases hargs : popArguments argBase (r₁.left r) with
      | ok u r₂ =>
        rw [hargs] at hpop
        exact ⟨hpop.1, hpop.2, fun carry hcarry ↦
          ⟨(hbody.2 carry hcarry).1.mono (Set.subset_univ _), (hbody.2 carry hcarry).2⟩⟩
      | error e r₂ =>
        rw [hargs] at hpop
        exact hpop
    | error e r₁ =>
      rw [hrunBody] at hbody
      refine (ends_popArguments argBase hbody.left).endState
        (O := fun r' ↦ Left r r' ∧ (r'.stack.top ≤ argBase ∨ Stack.Stuck r'.stack)) ?_ fun _ h ↦ h
      exact fun _ _ h ↦ ⟨h.1, Or.inl h.2.le⟩

/-! ### Calls from host code -/

/-- Calls let the domain grow, so everything that the host starts does. -/
theorem extends_callees (n : Nat) : (callees n).Work Domain.Extends :=
  work_callees (fun _ hrun fuel t ↦ works_ensureInitialized hrun
    (Domain.grows_beginInitialization fuel t) (Domain.grows_finishInitialization fuel t)) n

/-- Every call keeps what lies below it, whatever its bytecode is. -/
theorem protects_callees : (fuel : Nat) → (callees fuel).Protects ∧
    ∀ id a r, Along (Moment.Guarded r) fuel id a r
  | 0 => ⟨⟨fun _ ↦ .throw _, fun _ _ r ↦ ⟨.refl r, Nat.le_refl _⟩⟩, fun _ _ _ ↦ trivial⟩
  | fuel + 1 => by
    obtain ⟨hc, halong⟩ := protects_callees fuel
    refine ⟨⟨keeps_answer (extends_callees fuel) fuel, fun id a r ↦ ?_⟩,
      fun id a r body home f r' henters hopen ↦ ?_⟩
    · by_cases h : ∃ body home, Enters r id body home
      · obtain ⟨body, home, h⟩ := h
        exact (ends_runMethod a hc halong h).2.imp
          (fun _ _ h ↦ ⟨h.1.toKept, h.1.top, h.2⟩) fun _ h ↦ ⟨h.1.toKept, h.1.top⟩
      · obtain ⟨e, -, he⟩ := runMethod_refused (callees fuel) fuel a h
        have hrun : (callees (fuel + 1)).run id a r = .error e r := he
        rw [Ends, hrun]
        exact ⟨.refl r, Nat.le_refl _⟩
    · exact (ends_runMethod a hc halong henters).1 body home f r' henters hopen

end Engine

/-- The bounds and the frames are those of an earlier machine, and no block or entry of it is
missing or new. -/
structure Restored (entry r : Running) : Prop where
  frames : r.interpreter.frames = entry.interpreter.frames
  base : r.stack.base = entry.stack.base
  floor : r.stack.floor = entry.stack.floor
  low : entry.stack.low ≤ r.stack.low
  entries : r.stack.entries ≤ entry.stack.entries

theorem Left.restored (h : Left entry r) (hlow : entry.stack.low ≤ entry.stack.capacity) :
    Restored entry r :=
  ⟨h.frames, h.base, h.floor, Nat.min_eq_left hlow ▸ h.low, h.entries⟩

namespace Engine

/-- A call protects its caller: while it runs, every entry and block of the caller is there, and
when it is over, the bounds are restored. The arguments are gone then, unless the call fails and a
slot among those that it leaves points at a block that cannot be given up. -/
theorem call_protection {id : MethodId} {body : Body} {home : ModuleId} (fuel argBase : Nat)
    (h : Enters r id body home) (hlow : r.stack.low ≤ r.stack.capacity) :
    Along (Moment.Guarded r) (fuel + 1) id argBase r ∧
    Ends (run (fuel + 1) id argBase) r (fun _ r' ↦ Restored r r' ∧ r'.stack.top = argBase)
      fun r' ↦ Restored r r' ∧ (argBase < r'.stack.top → Stack.Stuck r'.stack) := by
  obtain ⟨hc, halong⟩ := protects_callees fuel
  obtain ⟨hmoments, hends⟩ := ends_runMethod argBase hc halong h
  refine ⟨hmoments, hends.imp (fun _ _ h ↦ ⟨h.1.restored hlow, h.2.1⟩) fun r' h ↦ ?_⟩
  refine ⟨h.1.restored hlow, fun htop ↦ ?_⟩
  exact h.2.resolve_left (Nat.not_le_of_lt htop)

theorem call_protection_loadNull :
    Enters (.sample [#[.loadNull, .ret]]) ⟨0⟩ ⟨[], #[.loadNull, .ret], []⟩ ⟨0⟩ ∧
    Ends (run 3 ⟨0⟩ 0) (.sample [#[.loadNull, .ret]])
      (fun _ r' ↦ Restored (.sample [#[.loadNull, .ret]]) r' ∧ r'.stack.top = 0)
      fun r' ↦ Restored (.sample [#[.loadNull, .ret]]) r' ∧
        (0 < r'.stack.top → Stack.Stuck r'.stack) := by
  have henters : Enters (.sample [#[.loadNull, .ret]]) ⟨0⟩ ⟨[], #[.loadNull, .ret], []⟩ ⟨0⟩ :=
    ⟨by decide, rfl, _, _, rfl, rfl⟩
  exact ⟨henters, (call_protection 2 0 henters (Nat.le_refl _)).2⟩

/-- A method with two arguments, the second of which points at a block that is not there. -/
def danglingSample : Running :=
  let r := Running.sampleOn [#[.loadNull, .ret]] [.int32 1, .block 5]
  { r with domain := { r.domain with registry := { r.domain.registry with
      methods := #[{ r.domain.registry.method ⟨0⟩ with params := [⟨0⟩, ⟨0⟩] }] } } }

/-- A call that fails because it cannot give its arguments up leaves them on the stack. -/
theorem arguments_left_behind : ¬∀ (fuel argBase : Nat) (id : MethodId) (body : Body)
    (home : ModuleId) (r : Running), Enters r id body home → r.stack.low ≤ r.stack.capacity →
    Ends (run (fuel + 1) id argBase) r (fun _ r' ↦ r'.stack.top ≤ argBase)
      fun r' ↦ r'.stack.top ≤ argBase := by
  intro h
  have henters : Enters danglingSample ⟨0⟩ ⟨[], #[.loadNull, .ret], []⟩ ⟨0⟩ :=
    ⟨by cbv, rfl, ⟨⟨0⟩, .empty ""⟩, ⟨0⟩, rfl, rfl⟩
  have hends := h 4 0 ⟨0⟩ _ _ danglingSample henters (by cbv)
  have hleft : Ends (run 5 ⟨0⟩ 0) danglingSample (fun _ _ ↦ False) fun r ↦ r.stack.top = 1 := by cbv
  obtain ⟨hdropped, htop⟩ := ((hends.and hleft).imp (fun _ _ h ↦ h.2) fun _ h ↦ h).fails
  exact absurd (htop.symm.trans_le hdropped) (by decide)

end Engine

end ManagedMachine
