import ManagedMachine.Proofs.TransferSpecs

/-!
# Code that calls

A function of the engine that may call methods takes what it calls as an argument, and `Does` says
what it comes to: edits of the machine, with one edit for each call, and calls only of the kind that
the edits so far have led to. `CallsOnly` puts the second half in terms of the function alone. Code
makes a call only if it gives another result once the call does.

Host code runs request by request. `Steps` says that whatever becomes of a piece of it, an invariant
holds in between.
-/

set_option autoImplicit false
set_option relaxedAutoImplicit false

namespace ManagedMachine

open Engine

variable {α β : Type}

/-- `X` calls methods only where `T` says so: it gives the same with every runner that gives the
same there. -/
def CallsOnly (T : MethodId → Nat → Running → Prop) (c : Callees) (X : Callees → RunM α)
    (r : Running) : Prop :=
  ∀ run : Runner, (∀ id a s, T id a s → run id a s = c.run id a s) → X { c with run } r = X c r

/-- `X` makes a call: when the call fails, `X` fails with the same error. Only exceptions are caught
in between. -/
def Makes (c : Callees) (X : Callees → RunM α) (r : Running) (id : MethodId) (a : Nat)
    (s : Running) : Prop :=
  ∀ (e : Error) (run : Runner), (∀ raised, e ≠ .exception raised) → run id a s = .error e s →
    (∀ id' a' s', (id', a', s') ≠ (id, a, s) → run id' a' s' = c.run id' a' s') →
      ∃ r', X { c with run } r = .error e r'

open Classical in
/-- Calls outside `T` fail at once. -/
noncomputable def Callees.cut (c : Callees) (T : MethodId → Nat → Running → Prop) (e : Error) :
    Callees :=
  { c with run := fun id a s ↦ if T id a s then c.run id a s else .error e s }

theorem Callees.cut_of {c : Callees} {T : MethodId → Nat → Running → Prop} {e : Error}
    {id : MethodId} {a : Nat} {s : Running} (h : T id a s) :
    (c.cut T e).run id a s = c.run id a s := if_pos h

theorem Callees.cut_of_not {c : Callees} {T : MethodId → Nat → Running → Prop} {e : Error}
    {id : MethodId} {a : Nat} {s : Running} (h : ¬T id a s) :
    (c.cut T e).run id a s = .error e s := if_neg h

/-- Some error that no exception stands for tells a result from the failure of a call. -/
theorem exists_error_ne (x : EStateM.Result Error Running α) :
    ∃ e : Error, (∀ raised, e ≠ .exception raised) ∧ ∀ r, x ≠ .error e r := by
  by_cases h : ∃ r, x = .error .outOfFuel r
  · obtain ⟨r, rfl⟩ := h
    exact ⟨.stackOverflow, nofun, nofun⟩
  · exact ⟨.outOfFuel, nofun, fun r hr ↦ h ⟨r, hr⟩⟩

/-- The calls that are made are among those that the code depends on. -/
theorem CallsOnly.of_makes {T : MethodId → Nat → Running → Prop} {c : Callees}
    {X : Callees → RunM α} {r : Running} (h : CallsOnly T c X r) {id : MethodId} {a : Nat}
    {s : Running} (hmakes : Makes c X r id a s) : T id a s := by
  by_contra hT
  obtain ⟨e, he, hne⟩ := exists_error_ne (X c r)
  let other : MethodId → Nat → Running → Prop := fun id' a' s' ↦ (id', a', s') ≠ (id, a, s)
  have hsame := h (c.cut other e).run fun id' a' s' hT' ↦ Callees.cut_of fun heq ↦ hT (by
    cases heq
    exact hT')
  have hfails : (c.cut other e).run id a s = .error e s := Callees.cut_of_not fun hne ↦ hne rfl
  obtain ⟨r', hr'⟩ := hmakes e (c.cut other e).run he hfails fun id' a' s' hne ↦
    Callees.cut_of (T := other) hne
  exact hne r' (hsame.symm.trans hr')

/-- A call may be made: its arguments are operands, and nothing was begun. -/
structure Scope.Ready (S : Scope) (v : View) (a : Nat) : Prop where
  bottom : S.bottom ≤ a
  top : a ≤ v.stack.top
  pending : v.pending = []
  covers : S.Covers v

/-- What a call gives back stays good when the stack goes on. -/
def View.Returns (v : View) (result : Option Carry) : Prop :=
  ∀ c, result = some c → v.Carries c ∧ ∀ d, c ≠ .block d

/-- Programs whose requests all satisfy a condition, whatever the answers are. -/
def Program.Asks {Req : Type} {Ans : Req → Type} (P : Req → Prop) : Program Req Ans α → Prop
  | .done _ => True
  | .fail _ => True
  | .ask r next => P r ∧ ∀ answer, (next answer).Asks P

theorem Program.asks_of_forall {Req : Type} {Ans : Req → Type} {P : Req → Prop} (h : ∀ r, P r) :
    (p : Program Req Ans α) → p.Asks P
  | .done _ => trivial
  | .fail _ => trivial
  | .ask r next => ⟨h r, fun answer ↦ asks_of_forall h (next answer)⟩

/-- The slots of a request to overwrite the fields of a receiver satisfy a condition. -/
def FrameRequest.Writes (P : Slot → Prop) : FrameRequest → Prop
  | .setThisFields slots => ∀ s ∈ slots, P s
  | _ => True

/-- Redirections write only slots that satisfy a condition. -/
def Bindings.Writes (b : Bindings) (P : Slot → Prop) : Prop :=
  ∀ (key : String) (code : Redirection), b.redirection? key = some code →
    ∀ site, (code site).Asks (FrameRequest.Writes P)

/-- What code may rely on from a view on: requests of host code only let the domain grow, and a
call is an edit that takes the arguments. -/
structure Callees.Meet (c : Callees) (S : Scope) (v : View) : Prop where
  serve : ∀ r, Domain.Grows (c.serve r)
  host : v.domain.bindings.Writes S.host
  run : ∀ id a w, Edits S v w → S.Ready w a → Spec (Edit S) (c.run id a) w
    fun result v' ↦ v'.Rests a ∧ v'.Returns result

/-- No result stays good anywhere. -/
theorem View.returns_none (v : View) : v.Returns none := nofun

theorem Callees.Meet.after {c : Callees} {S : Scope} {v v' : View} (h : c.Meet S v)
    (hR : Edits S v v') : c.Meet S v' :=
  ⟨h.serve, hR.domain.bindings ▸ h.host, fun id a w hw ↦ h.run id a w (hR.trans hw)⟩

/-- `X` amounts to edits, and its calls lie among them. -/
structure Does (S : Scope) (c : Callees) (X : Callees → RunM α) (v : View)
    (post : α → View → Prop) : Prop where
  spec : Spec (Edit S) (X c) v post
  only : CallsOnly (fun _ a r ↦ ∃ w, w.run = r ∧ Edits S v w ∧ S.Ready w a) c X v.run

namespace Does

variable {S : Scope} {c : Callees} {v : View} {X : Callees → RunM α} {F : α → Callees → RunM β}
variable {P : α → View → Prop} {post : β → View → Prop}

theorem of_spec {x : RunM α} (h : Spec (Edit S) x v P) : Does S c (fun _ ↦ x) v P :=
  ⟨h, fun _ _ ↦ rfl⟩

/-- Code that hands no runner on makes no calls. -/
theorem of_same (h : Spec (Edit S) (X c) v P) (hX : ∀ run, X { c with run } = X c) :
    Does S c X v P :=
  ⟨h, fun run _ ↦ congrFun (hX run) v.run⟩

/-- What holds afterwards may be said in weaker terms. -/
theorem imp {P' : α → View → Prop} (h : Does S c X v P)
    (himp : ∀ a v', Edits S v v' → P a v' → P' a v') : Does S c X v P' :=
  ⟨h.spec.imp himp, h.only⟩

theorem trivially (h : Does S c X v P) : Does S c X v fun _ _ ↦ True :=
  h.imp fun _ _ _ _ ↦ trivial

theorem pure {a : α} (h : P a v) : Does S c (fun _ ↦ pure a) v P := of_spec (Spec.pure h)

/-- A calling function followed by another one. The second one starts where the edits of the first
have led to. -/
theorem bind (hX : Does S c X v P)
    (hF : ∀ a v', Edits S v v' → P a v' → Does S c (F a) v' post) :
    Does S c (fun c ↦ X c >>= fun a ↦ F a c) v post := by
  refine ⟨hX.spec.bind fun a v' hR h ↦ (hF a v' hR h).spec, fun run hrun ↦ ?_⟩
  have hsame : X { c with run } v.run = X c v.run := hX.only run hrun
  change EStateM.bind _ _ v.run = EStateM.bind _ _ v.run
  simp only [EStateM.bind, hsame]
  cases h : X c v.run with
  | error e r => rfl
  | ok a r =>
    obtain ⟨v', rfl, hR, hmid⟩ := hX.spec.ok h
    refine (hF a v' hR hmid).only run fun id b s ⟨w, hw, hR', hready⟩ ↦ ?_
    exact hrun id b s ⟨w, hw, hR.trans hR', hready⟩

/-- What only looks makes no calls, and no edits that the function would have to answer for. -/
theorem quietly {x : RunM α} (hx : Spec (Quiet S) x v P)
    (hF : ∀ a v', Edits S v v' → v.Level v' → P a v' → Does S c (F a) v' post) :
    Does S c (fun c ↦ x >>= fun a ↦ F a c) v post := by
  refine (of_spec (hx.mono fun _ _ ↦ Quieter.quiet)).bind fun a v' hR h ↦ ?_
  exact hF a v' hR (Quiets.level h.1) h.2

/-- What follows code that only looks finds the domain grown at most. -/
theorem look {x : RunM α} (hx : Looks x)
    (hF : ∀ a d, v.domain.Extends d → Edits S v (v.withDomain d) →
      x v.run = .ok a (v.withDomain d).run → Does S c (F a) (v.withDomain d) post) :
    Does S c (fun c ↦ x >>= fun a ↦ F a c) v post := by
  refine (of_spec (Spec.looks hx)).bind fun a v' hR ⟨d, hrun, hd, hv⟩ ↦ ?_
  subst hv
  exact hF a d hd hR hrun

/-- A look that succeeds without touching the machine. -/
theorem looking {x : RunM α} {a : α} (hx : x v.run = .ok a v.run) (hF : Does S c (F a) v post) :
    Does S c (fun c ↦ x >>= fun a ↦ F a c) v post :=
  (of_spec (Spec.of_ok hx .refl ⟨rfl, rfl⟩ : Spec (Edit S) x v fun b w ↦ b = a ∧ w = v)).bind
    fun _ _ _ h ↦ h.1 ▸ h.2 ▸ hF

theorem read {query : Stack → Except Error α}
    (hF : ∀ a, query v.stack = .ok a → Does S c (F a) v post) :
    Does S c (fun c ↦ Engine.read query >>= fun a ↦ F a c) v post := by
  cases h : query v.stack with
  | ok a => exact looking (Spec.read_ok h) (hF a h)
  | error e =>
    have hfalse : Spec (Edit S) (Engine.read query) v fun _ _ ↦ False :=
      .of_error (Spec.read_error h) .refl
    exact (of_spec hfalse).bind fun _ _ _ h ↦ h.elim

/-- Edits that leave the machine as it is only change what is known. -/
theorem after {w : View} (hR : Edits S v w) (hrun : w.run = v.run) (h : Does S c X w P) :
    Does S c X v P := by
  refine ⟨h.spec.after hR hrun, fun run hcall ↦ ?_⟩
  refine hrun ▸ h.only run fun id a s ⟨u, hu, hR', hready⟩ ↦ ?_
  exact hcall id a s ⟨u, hu, hR.trans hR', hready⟩

/-- Code that has read a slot may follow it. -/
theorem leads {a : Nat} {s : Slot} (ha : a ∈ v.known) (hs : v.slot? a = some s)
    (h : ∀ w, v.Level w → Edits S v w → w.Leads s → Does S c X w P) : Does S c X v P := by
  obtain ⟨w, hR, hrun, hleads⟩ := Spec.exists_leads (S := S) ha hs
  exact after (Quiets.edits hR) hrun (h w (Quiets.level hR) (Quiets.edits hR) hleads)

/-- Both branches, each under its condition. -/
theorem ite {p : Prop} [Decidable p] {Y : Callees → RunM α} (hX : p → Does S c X v P)
    (hY : ¬p → Does S c Y v P) : Does S c (fun c ↦ if p then X c else Y c) v P := by
  by_cases hp : p
  · simp only [if_pos hp]
    exact hX hp
  · simp only [if_neg hp]
    exact hY hp

/-- The call itself is the one edit for which the callee answers. -/
theorem run (hc : c.Meet S v) {a : Nat} (ha : S.Ready v a) (id : MethodId) :
    Does S c (fun c ↦ c.run id a) v fun result v' ↦ v'.Rests a ∧ v'.Returns result :=
  ⟨hc.run id a v .refl ha, fun _ hrun ↦ hrun id a v.run ⟨v, rfl, .refl, ha⟩⟩

/-- What is done afterwards is done whether there was an error or not. -/
theorem afterwards {y : RunM Unit} {post : α → View → Prop} (hX : Does S c X v P)
    (herror : ∀ v', Edits S v v' → Spec (Edit S) y v' fun _ _ ↦ True)
    (hok : ∀ a v', Edits S v v' → P a v' → Spec (Edit S) y v' fun _ v'' ↦ post a v'') :
    Does S c (fun c ↦ Engine.afterwards (X c) y) v post := by
  refine ⟨?_, fun run hrun ↦ ?_⟩
  · cases h : X c v.run with
    | ok a r =>
      obtain ⟨v', rfl, hR, hmid⟩ := hX.spec.ok h
      have hy := hok a v' hR hmid
      cases hafter : y v'.run with
      | ok u r =>
        obtain ⟨v'', rfl, hR', hpost⟩ := hy.ok hafter
        refine Spec.of_ok (a := a) ?_ (hR.trans hR') hpost
        simp only [Engine.afterwards, h, hafter]
      | error e r =>
        obtain ⟨v'', rfl, hR'⟩ := hy.error hafter
        refine Spec.of_error (e := e) ?_ (hR.trans hR')
        simp only [Engine.afterwards, h, hafter]
    | error e r =>
      obtain ⟨v', rfl, hR⟩ := hX.spec.error h
      obtain ⟨v'', hrun, hR'⟩ := (herror v' hR).ends
      refine Spec.of_error (e := e) (w := v'') ?_ (hR.trans hR')
      simp only [Engine.afterwards, h, hrun]
      unfold endState
      cases y v'.run <;> rfl
  · have hsame : X { c with run } v.run = X c v.run := hX.only run hrun
    simp only [Engine.afterwards, hsame]

end Does

/-! ### Host code -/

/-- Whatever becomes of `x`, it amounts to edits of the kind `R` and keeps the invariant. -/
def Steps (R : View → View → Prop) (I : View → β → Prop) (x : WithResult β α) : Prop :=
  ∀ v b, I v b → ∃ v', v'.run = (endState x (v.run, b)).1 ∧ Relation.ReflTransGen R v v' ∧
    I v' (endState x (v.run, b)).2

namespace Steps

variable {R : View → View → Prop} {I : View → β → Prop}

/-- By induction on the program: every answer leads on to the rest of it. -/
theorem program {Req : Type} {Ans : Req → Type} {P : Req → Prop}
    {handle : (r : Req) → WithResult β (Ans r)} (h : ∀ r, P r → Steps R I (handle r)) :
    (p : Program Req Ans α) → p.Asks P → Steps R I (p.run handle)
  | .done _, _ => fun v _ hI ↦ ⟨v, rfl, .refl, hI⟩
  | .fail _, _ => fun v _ hI ↦ ⟨v, rfl, .refl, hI⟩
  | .ask r next, hp => fun v b hI ↦ by
    obtain ⟨v', hrun, hR, hI'⟩ := h r hp.1 v b hI
    have hrest (answer : Except Error (Ans r)) (s : Running × β)
        (hs : endState (handle r) (v.run, b) = s)
        (hend : endState ((Program.ask r next).run handle) (v.run, b) =
          endState ((next answer).run handle) s) :
        ∃ v', v'.run = (endState ((Program.ask r next).run handle) (v.run, b)).1 ∧
          Relation.ReflTransGen R v v' ∧
          I v' (endState ((Program.ask r next).run handle) (v.run, b)).2 := by
      subst hs
      obtain ⟨v'', hrun', hR', hI''⟩ :=
        program h (next answer) (hp.2 answer) v' (endState (handle r) (v.run, b)).2 hI'
      rw [hrun] at hrun' hI''
      exact ⟨v'', by rw [hrun', hend], hR.trans hR', by rw [hend]; exact hI''⟩
    cases hr : handle r (v.run, b) with
    | ok answer s =>
      refine hrest (.ok answer) s (endState_ok hr) ?_
      simp only [endState, Program.run, hr]
    | error e s =>
      by_cases hfuel : e = .outOfFuel
      · have hend : endState ((Program.ask r next).run handle) (v.run, b) = s := by
          simp only [endState, Program.run, hr, hfuel]
        rw [endState_error hr] at hrun hI'
        exact ⟨v', by rw [hrun, hend], hR, by rw [hend]; exact hI'⟩
      · refine hrest (.error e) s (endState_error hr) ?_
        simp only [endState, Program.run, hr]

/-- Code that works on the machine alone keeps what its edits keep. -/
theorem keeping {x : RunM α} (hx : ∀ v b, I v b → Spec R x v fun _ _ ↦ True)
    (hI : ∀ v v' b, Relation.ReflTransGen R v v' → I v b → I v' b) :
    Steps R I (Engine.keeping x : WithResult β α) := by
  intro v b hv
  obtain ⟨v', hrun, hR⟩ := (hx v b hv).ends
  have hend : endState (Engine.keeping x : WithResult β α) (v.run, b) =
      (endState x v.run, b) := by
    simp only [endState, Engine.keeping]
    cases x v.run <;> rfl
  exact ⟨v', by rw [hrun, hend], hR, by rw [hend]; exact hI v v' b hR hv⟩

/-- A piece of host code is a piece of the engine with the result that it leaves behind. -/
theorem leaving {x : WithResult β Unit} (hx : Steps R I x) {v : View} {b : β} (hv : I v b) :
    Spec R (Engine.leaving b x) v fun b v' ↦ I v' b := by
  obtain ⟨v', hrun, hR, hI⟩ := hx v b hv
  cases h : x (v.run, b) with
  | ok u s =>
    rw [endState_ok h] at hrun hI
    refine Spec.of_ok (a := s.2) (w := v') ?_ hR hI
    simp only [Engine.leaving, h, hrun]
  | error e s =>
    rw [endState_error h] at hrun
    refine Spec.of_error (e := e) (w := v') ?_ hR
    simp only [Engine.leaving, h, hrun]

end Steps

end ManagedMachine
