import ManagedMachine.Proofs.CatchSelection
import ManagedMachine.Proofs.Traces

/-!
# The exception that is raised again

A frame notes each exception that one of its catch clauses receives, the newest first, and only a
leave takes notes away. So the note of a handler that an exception has left stays, and the handler
may be entered again while it is there. An exception is raised again from the newest note of a
clause whose handler is around the instruction.

While control stays in a handler (`Executes`), the notes that are newer than that of its entry are
of clauses whose handlers do not have this one inside (`Executes.caught`), and where the handler is
the innermost one none of them is around the instruction. Older notes do not matter, whichever there
are.

One way back into a handler is left out of this (`Place.Departs`). A leave takes the note of the
handler away at once, and only then runs the finally clauses on its way. If one of these fails, and
the handler catches the exception inside, the leave is given up and control is in the handler as
before, but without the note (`rethrow_after_abandoned_leave`).
-/

set_option autoImplicit false
set_option relaxedAutoImplicit false

namespace ManagedMachine

open Engine

/-! ### Handlers -/

namespace Clause

/-- The handler of `c` lies inside that of `other`. -/
def HandlerWithin (c other : Clause) : Prop :=
  other.handlerStart ≤ c.handlerStart ∧ c.handlerEnd ≤ other.handlerEnd

/-- The handlers of two clauses are nested or have no address in common. -/
def HandlersNested (c d : Clause) : Prop :=
  c.HandlerWithin d ∨ d.HandlerWithin c ∨ c.handlerEnd < d.handlerStart ∨
  d.handlerEnd < c.handlerStart

instance (c other : Clause) : Decidable (c.HandlerWithin other) :=
  inferInstanceAs (Decidable (_ ∧ _))

instance (c d : Clause) : Decidable (c.HandlersNested d) :=
  inferInstanceAs (Decidable (_ ∨ _))

end Clause

namespace Body

/-- The handlers of any two clauses are nested or have no address in common. -/
def NestedHandlers (b : Body) : Prop := ∀ c ∈ b.clauses, ∀ d ∈ b.clauses, c.HandlersNested d

/-- The handler of `h` is the innermost one around the address. -/
structure Innermost (b : Body) (addr : Nat) (h : Clause) : Prop where
  mem : h ∈ b.clauses
  handles : h.handles addr = true
  inner : ∀ c ∈ b.clauses, c.handles addr = true → c.HandlerWithin h → h.HandlerWithin c

/-- The handlers around the address have the innermost one inside. -/
theorem Innermost.within {b : Body} {addr : Nat} {h c : Clause} (hinner : b.Innermost addr h)
    (hnested : b.NestedHandlers) (hc : c ∈ b.clauses) (hhandles : c.handles addr = true) :
    h.HandlerWithin c := by
  have haround := hinner.handles
  simp only [Clause.handles, Bool.and_eq_true, decide_eq_true_eq] at haround hhandles
  rcases hnested c hc h hinner.mem with hwithin | hwithin | hapart | hapart
  · exact hinner.inner c hc (by simpa [Clause.handles] using hhandles) hwithin
  · exact hwithin
  · omega
  · omega

end Body

/-! ### Entering handlers -/

/-- From `p` control gets to the handler of a catch clause at `q`, with the exception that the
clause receives: one that the instruction raises, or one that has waited for the clauses on its
way. -/
inductive Place.Catches (c : Callees) (p q : Place) : Nat → Raised → Prop
  | atOnce {f : Frame} {raised : Raised} {k : Nat} {r r₁ : Running}
    (hraises : Raises c q.fuel p f raised r)
    (hcatch : selectCatch f.body.clauses p.addr (fun _ ↦ catchFit q.fuel f raised.value) r =
      .ok (some k) r₁)
    (hnone : unwindClauses f.body.clauses p.addr (some (f.clause k)) = []) :
    Place.Catches c p q k (raised.tracedIn r)
  | afterClauses {i k : Nat} {raised : Raised} {others : List Unwind}
    (hi : p.instruction? = some .endFinally)
    (hunwinds : p.frame.unwinds = ⟨i, [], .catch k raised⟩ :: others) : Place.Catches c p q k raised

/-- Control does not get out of the handler of `h`: by a leave whose target lies outside, or with an
exception for a clause whose handler has that of `h` inside. -/
structure Place.StaysIn (c : Callees) (p q : Place) (h : Clause) : Prop where
  leave : ∀ target, p.instruction? = some (.leave target) → h.handles target.toNat = true
  catches : ∀ k x, p.Catches c q k x → ¬h.HandlerWithin (p.frame.clause k)

/-- The clause at the position has the handler of `h`. -/
def Frame.Handler (f : Frame) (k : Nat) (h : Clause) : Prop :=
  (f.clause k).HandlerWithin h ∧ h.HandlerWithin (f.clause k)

/-- The handler of `h` was entered with the exception, and control has stayed in it. -/
inductive Executes (c : Callees) (start : Place) (h : Clause) : Place → Raised → Prop
  | entered {p q : Place} {k : Nat} {x : Raised} (hpath : Relation.ReflTransGen (Follows c) start p)
    (hstep : Follows c p q) (hcatches : p.Catches c q k x) (hk : p.frame.Handler k h) :
    Executes c start h q x
  | stays {p q : Place} {x : Raised} (hp : Executes c start h p x) (hstep : Follows c p q)
    (hstays : p.StaysIn c q h) : Executes c start h q x

/-- The handler of `h` was last entered with the exception. -/
inductive LastEntered (c : Callees) (start : Place) (h : Clause) : Place → Raised → Prop
  | now {p q : Place} {k : Nat} {x : Raised} (hpath : Relation.ReflTransGen (Follows c) start p)
    (hstep : Follows c p q) (hcatches : p.Catches c q k x) (hk : p.frame.Handler k h) :
    LastEntered c start h q x
  | before {p q : Place} {x : Raised} (hp : LastEntered c start h p x) (hstep : Follows c p q)
    (hnot : ∀ k y, p.Catches c q k y → ¬p.frame.Handler k h) : LastEntered c start h q x

variable {c : Callees} {start p q : Place} {h : Clause} {x y : Raised} {k : Nat}

/-! ### The notes of a frame -/

/-- A frame notes an exception exactly when control is sent into the handler of a catch clause. -/
theorem Sends.caught {f f' : Frame} {clauses : List Nat} {resume : Resume} {addr : Nat}
    (h : Sends f clauses resume addr f') : f'.caught = f.caught ∨
      ∃ k x, clauses = [] ∧ resume = .catch k x ∧ f'.caught = (k, x) :: f.caught := by
  cases h with
  | clause => exact .inl rfl
  | target => exact .inl rfl
  | handler k raised => exact .inr ⟨k, raised, rfl, rfl, rfl⟩

/-- The frame that an exception starts from has the notes of the place. -/
theorem Origin.caught {f : Frame} (h : Origin p x f) : f.caught = p.frame.caught := by
  cases h <;> rfl

/-- A step keeps the notes of the frame, up to one for the clause that it enters, and those that a
leave takes away. -/
theorem Follows.caught (hstep : Follows c p q) : q.frame.caught = p.frame.caught ∨
    (∃ k x, p.Catches c q k x ∧ q.frame.caught = (k, x) :: p.frame.caught) ∨
    ∃ target, p.instruction? = some (.leave target) ∧
      q.frame.caught = p.frame.keptOnLeave p.addr target.toNat := by
  cases hstep.moves with
  | onward i hi hframe => exact .inl (congrArg Frame.caught hframe)
  | leave target hi hsends =>
    rcases hsends.caught with hcaught | ⟨k, x, -, hresume, -⟩
    · exact .inr (.inr ⟨target, hi, hcaught⟩)
    · cases hresume
  | endFinally k rest resume others hi hunwinds hsends =>
    rcases hsends.caught with hcaught | ⟨k', x, rfl, rfl, hcaught⟩
    · exact .inl hcaught
    · exact .inr (.inl ⟨k', x, .afterClauses hi hunwinds, hcaught⟩)
  | raised f raised catcher r r₁ hraises horigin hcatch hsends =>
    rcases hsends.caught with hcaught | ⟨k, x, hnone, hresume, hcaught⟩
    · exact .inl (hcaught.trans horigin.caught)
    · cases catcher with
      | none => cases hresume
      | some k' =>
        cases hresume
        exact .inr
          (.inl ⟨k, _, .atOnce hraises hcatch hnone, hcaught.trans (by rw [horigin.caught])⟩)

theorem Sends.caught_of_catch {f f' : Frame} {addr : Nat} (h : Sends f [] (.catch k x) addr f') :
    f'.caught = (k, x) :: f.caught := by
  cases h
  rfl

/-- An exception that waits for the last clause on its way does not go on as another one. -/
theorem not_raises_of_waiting {n i : Nat} {f : Frame} {others : List Unwind} {r : Running}
    (hi : p.instruction? = some .endFinally)
    (hunwinds : p.frame.unwinds = ⟨i, [], .catch k x⟩ :: others) : ¬Raises c n p f y r := by
  intro hraises
  cases hraises with
  | step hi' hstep =>
    cases hi.symm.trans hi'
    refine (unexceptional_endFinally p.frame).bind (fun result ↦ ?_) _ _ y hstep
    rcases result with ⟨arrival, f'⟩
    cases arrival <;> exact .pure _
  | heldBack _ hend =>
    obtain ⟨i', rest, resume, others', hunwinds', ⟨rfl, hfinish⟩ | ⟨hrest, -⟩⟩ := endFinally_ok hend
    · cases hunwinds.symm.trans hunwinds'
      obtain ⟨hresume, -⟩ := finish_raise hfinish
      cases hresume
    · cases hunwinds.symm.trans hunwinds'
      exact hrest rfl

/-- An exception that a clause receives is noted. -/
theorem Place.Catches.caught (hcatches : p.Catches c q k x) (hstep : Follows c p q) :
    q.frame.caught = (k, x) :: p.frame.caught := by
  cases hcatches with
  | @atOnce f raised _ r r₁ hraises hcatch hnone =>
    obtain ⟨catcher, s, hcatch', hsends⟩ := hraises.sends hstep
    obtain rfl : some k = catcher := by
      cases hcatch.symm.trans hcatch'
      rfl
    rw [Option.map_some, hnone] at hsends
    exact hsends.caught_of_catch.trans (by rw [hraises.origin.caught])
  | afterClauses hi hunwinds =>
    cases hstep.moves with
    | onward i hi' hframe haddr hstraight => exact absurd (.inr (.inl hi)) hstraight
    | leave target hi' => cases hi.symm.trans hi'
    | endFinally i rest resume others hi' hunwinds' hsends =>
      cases hunwinds.symm.trans hunwinds'
      exact hsends.caught_of_catch
    | raised f raised catcher r r₁ hraises =>
      exact absurd hraises (not_raises_of_waiting hi hunwinds)

/-- The clauses that a frame has notes of, or is to enter with an exception, are clauses of its
body. -/
structure Frame.Posted (f : Frame) : Prop where
  caught : ∀ e ∈ f.caught, f.clause e.1 ∈ f.body.clauses
  waiting : ∀ u ∈ f.unwinds, ∀ k x, u.resume = .catch k x → f.clause k ∈ f.body.clauses

theorem clause_mem_of_selectCatch {f : Frame} {addr : Nat} {r r' : Running}
    {fits : Nat → Clause → RunM (Option CatchFit)}
    (hcatch : selectCatch f.body.clauses addr fits r = .ok (some k) r') :
    f.clause k ∈ f.body.clauses := by
  obtain ⟨found, candidate, hfound, rfl, hwins⟩ := wins_of_selectCatch hcatch
  obtain ⟨clause, hclause, -⟩ := clause_of_matching hfound hwins.mem
  rw [mem_numbered] at hclause
  rw [Frame.clause, List.getD_eq_getElem?_getD, hclause]
  exact List.mem_of_getElem? hclause

/-- Control that is sent on keeps all notes and pending clauses to clauses of the body. -/
theorem Sends.posted {f f' : Frame} {clauses : List Nat} {resume : Resume} {addr : Nat}
    (hsends : Sends f clauses resume addr f') (hf : f.Posted)
    (hresume : ∀ k x, resume = .catch k x → f.clause k ∈ f.body.clauses) : f'.Posted := by
  cases hsends with
  | clause k rest resume =>
    refine ⟨hf.caught, fun u hu ↦ ?_⟩
    rcases List.mem_cons.mp hu with rfl | hu
    · exact hresume
    · exact hf.waiting u hu
  | target => exact hf
  | handler k x =>
    refine ⟨fun e he ↦ ?_, hf.waiting⟩
    rcases List.mem_cons.mp he with rfl | he
    · exact hresume k x rfl
    · exact hf.caught e he

/-- Taking notes and pending clauses away does no harm. -/
theorem Frame.Posted.fewer {f : Frame} {caught : List (Nat × Raised)} {unwinds : List Unwind}
    (hf : f.Posted) (hcaught : caught ⊆ f.caught) (hunwinds : unwinds ⊆ f.unwinds) :
    ({ f with caught, unwinds } : Frame).Posted :=
  ⟨fun e he ↦ hf.caught e (hcaught he), fun u hu ↦ hf.waiting u (hunwinds hu)⟩

/-- From place to place, the notes and the pending clauses of the frame are about clauses of its
body. -/
theorem Follows.posted (hstep : Follows c p q) (hp : p.frame.Posted) : q.frame.Posted := by
  cases hstep.moves with
  | onward i hi hframe => exact hframe ▸ hp
  | leave target hi hsends =>
    exact hsends.posted (hp.fewer List.filter_sublist.subset (List.Subset.refl _)) nofun
  | endFinally k rest resume others hi hunwinds hsends =>
    have hothers : others ⊆ p.frame.unwinds := hunwinds ▸ List.subset_cons_self _ _
    refine hsends.posted (hp.fewer (List.Subset.refl _) hothers) fun k' x hresume ↦ ?_
    exact hp.waiting _ (hunwinds ▸ List.mem_cons_self) k' x hresume
  | raised f raised catcher r r₁ hraises horigin hcatch hsends =>
    have hf : f.Posted := by
      cases horigin with
      | own => exact hp
      | heldBack k others hi hunwinds =>
        exact hp.fewer (List.Subset.refl _) (hunwinds ▸ List.subset_cons_self _ _)
    have hkept := (f.abandon_suffix p.addr catcher f.unwinds).subset
    refine hsends.posted (hf.fewer (List.Subset.refl _) hkept) fun k x hresume ↦ ?_
    cases catcher with
    | none => cases hresume
    | some k' =>
      cases hresume
      exact clause_mem_of_selectCatch hcatch

/-! ### In a handler -/

/-- A place where a handler was last entered with an exception is one that the frame comes to. -/
theorem LastEntered.path (hp : LastEntered c start h p x) :
    Relation.ReflTransGen (Follows c) start p := by
  induction hp with
  | now hpath hstep => exact hpath.tail hstep
  | before _ hstep _ ih => exact ih.tail hstep

/-- The entry that a handler is executed since is the last one. -/
theorem Executes.lastEntered (hp : Executes c start h p x) : LastEntered c start h p x := by
  induction hp with
  | entered hpath hstep hcatches hk => exact .now hpath hstep hcatches hk
  | stays _ hstep hstays ih =>
    exact .before ih hstep fun k y hcatches hk ↦ hstays.catches k y hcatches hk.2

/-- There is one last entry, as there is one execution. -/
theorem LastEntered.unique (hp : LastEntered c start h p x) (hp' : LastEntered c start h p y) :
    x = y := by
  have hsame {p p' q : Place} (hpath : Relation.ReflTransGen (Follows c) start p)
      (hpath' : Relation.ReflTransGen (Follows c) start p') (hstep : Follows c p q)
      (hstep' : Follows c p' q) : p = p' :=
    eq_of_paths hpath hpath' (hstep.1.trans hstep'.1.symm)
  induction hp with
  | now hpath hstep hcatches hk =>
    cases hp' with
    | now hpath' hstep' hcatches' =>
      obtain rfl := hsame hpath hpath' hstep hstep'
      cases (hcatches.caught hstep).symm.trans (hcatches'.caught hstep)
      rfl
    | before hp' hstep' hnot =>
      obtain rfl := hsame hpath hp'.path hstep hstep'
      exact absurd hk (hnot _ _ hcatches)
  | before hp hstep hnot ih =>
    cases hp' with
    | now hpath' hstep' hcatches' hk =>
      obtain rfl := hsame hp.path hpath' hstep hstep'
      exact absurd hk (hnot _ _ hcatches')
    | before hp' hstep' =>
      obtain rfl := hsame hp.path hp'.path hstep hstep'
      exact ih hp'

/-- In a handler the frame has the note of its entry, and in front of it only notes of clauses whose
handlers do not have this one inside. -/
theorem Executes.caught (hp : Executes c start h p x) : ∃ newer k older,
    p.frame.caught = newer ++ (k, x) :: older ∧ p.frame.Handler k h ∧
      ∀ e ∈ newer, ¬h.HandlerWithin (p.frame.clause e.1) := by
  have hclause {p q : Place} (hstep : Follows c p q) (k : Nat) :
      q.frame.clause k = p.frame.clause k := by
    rw [Frame.clause, Frame.clause, hstep.body]
  induction hp with
  | @entered p q k x hpath hstep hcatches hk =>
    refine ⟨[], k, p.frame.caught, hcatches.caught hstep, ?_, fun e he ↦ absurd he List.not_mem_nil⟩
    rwa [Frame.Handler, hclause hstep]
  | @stays p q x _ hstep hstays ih =>
    obtain ⟨newer, k, older, hcaught, hk, hnewer⟩ := ih
    have hk' : q.frame.Handler k h := by rwa [Frame.Handler, hclause hstep]
    rcases hstep.caught with hsame | ⟨k', y, hcatches, hnoted⟩ | ⟨target, hi, hkept⟩
    · refine ⟨newer, k, older, hsame.trans hcaught, hk', fun e he ↦ ?_⟩
      rw [hclause hstep]
      exact hnewer e he
    · refine ⟨(k', y) :: newer, k, older, by rw [hnoted, hcaught, List.cons_append], hk',
        fun e he ↦ ?_⟩
      rw [hclause hstep]
      rcases List.mem_cons.mp he with rfl | he
      · exact hstays.catches k' y hcatches
      · exact hnewer e he
    · -- The leave stays in the handler, so it keeps the note of the entry.
      have htarget : (p.frame.clause k).handles target.toNat = true := by
        have hin := hstays.leave target hi
        have hsame : (p.frame.clause k).handlerStart = h.handlerStart ∧
            (p.frame.clause k).handlerEnd = h.handlerEnd :=
          ⟨Nat.le_antisymm hk.2.1 hk.1.1, Nat.le_antisymm hk.1.2 hk.2.2⟩
        rwa [Clause.handles, hsame.1, hsame.2]
      rw [Frame.keptOnLeave, hcaught, List.filter_append,
        List.filter_cons_of_pos (by simp [htarget])]
        at hkept
      refine ⟨_, k, _, hkept, hk', fun e he ↦ ?_⟩
      rw [hclause hstep]
      exact hnewer e (List.mem_of_mem_filter he)

/-- Where the innermost handler is executed, the exception of its entry is the one to raise
again. -/
theorem Executes.rethrown? (hp : Executes c start h p x) (hposted : p.frame.Posted)
    (hnested : p.frame.body.NestedHandlers) (hinner : p.frame.body.Innermost p.addr h) :
    p.frame.rethrown? p.addr = some x := by
  obtain ⟨newer, k, older, hcaught, hk, hnewer⟩ := hp.caught
  have hnone : newer.find? (fun e ↦ (p.frame.clause e.1).handles p.addr) = none := by
    refine List.find?_eq_none.mpr fun e he haround ↦ hnewer e he ?_
    refine hinner.within hnested (hposted.caught e ?_) haround
    rw [hcaught]
    exact List.mem_append_left _ he
  have haround : (p.frame.clause k).handles p.addr = true := by
    have hin := hinner.handles
    have hout := hk.2
    simp only [Clause.handles, Bool.and_eq_true, decide_eq_true_eq] at hin ⊢
    exact ⟨hout.1.trans hin.1, hin.2.trans hout.2⟩
  rw [Frame.rethrown?, hcaught]
  change (List.find? (fun e ↦ (p.frame.clause e.1).handles p.addr) _).map Prod.snd = some x
  rw [List.find?_append, hnone]
  simp [haround]

/-! ### Entering handlers through exceptions alone -/

/-- Control is on its way out of the handler of `h`: in a clause inside, after which a leave goes on
to a target outside. -/
def Place.Departs (p : Place) (h : Clause) : Prop :=
  ∃ u ∈ p.frame.unwinds, ∃ d target, p.frame.body.clauses[u.current]? = some d ∧
    u.resume = .leave target ∧ h.handles target = false ∧ d.handles p.addr = true ∧
    d.HandlerWithin h ∧ ¬h.HandlerWithin d

/-- Control gets into the handler of `h` from `p` to `q` with an exception that a clause with this
handler receives, or it was in the handler and stays in it, or it is on its way out. Where an
exception gives up the leave on the way out, control gets back into the handler by none of these. -/
inductive Place.ByException (c : Callees) (p q : Place) (h : Clause) : Prop
  | enters {k : Nat} {x : Raised} (hcatches : p.Catches c q k x) (hk : p.frame.Handler k h)
  | inside (hp : h.handles p.addr = true) (hleft : ¬p.Departs h) (hstays : p.StaysIn c q h)
  | departs (hq : q.Departs h)

/-- The execution of a frame enters the handlers of catch clauses through exceptions alone. -/
structure EntersByException (c : Callees) (start : Place) : Prop where
  outside : ∀ h ∈ start.frame.body.clauses, h.isCatch = true → h.handles start.addr = false
  step : ∀ p q, Relation.ReflTransGen (Follows c) start p → Follows c p q →
    ∀ h ∈ start.frame.body.clauses, h.isCatch = true → h.handles q.addr = true → p.ByException c q h

theorem body_of_path (hpath : Relation.ReflTransGen (Follows c) start p) :
    p.frame.body = start.frame.body := by
  induction hpath with
  | refl => rfl
  | tail _ hstep ih => exact hstep.body.trans ih

theorem posted_of_path (hpath : Relation.ReflTransGen (Follows c) start p)
    (hstart : start.frame.Posted) : p.frame.Posted := by
  induction hpath with
  | refl => exact hstart
  | tail _ hstep ih => exact hstep.posted ih

/-- Control is not on its way out of a handler where this is the innermost one. -/
theorem Body.Innermost.not_departs (hinner : p.frame.body.Innermost p.addr h) : ¬p.Departs h := by
  rintro ⟨u, -, d, target, hd, -, -, hhandles, hwithin, hstrict⟩
  exact hstrict (hinner.inner d (List.mem_of_getElem? hd) hhandles hwithin)

/-- A handler that is entered through exceptions alone is executed wherever control is inside and
not on its way out. -/
theorem EntersByException.executes (hentry : EntersByException c start)
    (hpath : Relation.ReflTransGen (Follows c) start p) (hh : h ∈ start.frame.body.clauses)
    (hcatch : h.isCatch = true) (hhandles : h.handles p.addr = true) (hin : ¬p.Departs h) :
    ∃ x, Executes c start h p x := by
  induction hpath with
  | refl => exact absurd hhandles (by simp [hentry.outside h hh hcatch])
  | tail hpath hstep ih =>
    cases hentry.step _ _ hpath hstep h hh hcatch hhandles with
    | enters hcatches hk => exact ⟨_, .entered hpath hstep hcatches hk⟩
    | inside hp hleft hstays =>
      obtain ⟨x, hx⟩ := ih hp hleft
      exact ⟨x, hx.stays hstep hstays⟩
    | departs hq => exact absurd hq hin

/-- Where handlers are nested or apart and are entered through exceptions alone, an exception that
is raised again in the handler of a catch clause, outside of the handlers inside, is the one that
this handler was last entered with: the same object with the same trace, whatever notes of earlier
exceptions the frame still has. The frame hands it on as it is. -/
theorem rethrow_raises_the_active {fuel argBase n : Nat} {id : MethodId} {body : Body}
    {home : ModuleId} {r r' : Running} {f : Frame} (henters : Enters r id body home)
    (hopen : openFrame fuel id (r.domain.registry.method id) body home argBase (r.entered id) =
      .ok f r')
    (hnested : body.NestedHandlers) (hentry : EntersByException (callees fuel) ⟨fuel, f, 0, r'⟩)
    (hpath : Relation.ReflTransGen (Follows (callees fuel)) ⟨fuel, f, 0, r'⟩ p)
    (hi : p.instruction? = some .rethrow) (hcatch : h.isCatch = true)
    (hinner : body.Innermost p.addr h) :
    ∃ x, LastEntered (callees fuel) ⟨fuel, f, 0, r'⟩ h p x ∧
      (∀ y, LastEntered (callees fuel) ⟨fuel, f, 0, r'⟩ h p y → y = x) ∧ x.trace ≠ [] ∧
      step (callees fuel) n p.frame p.addr .rethrow p.noted = .error (.exception x) p.noted ∧
      p.HandsOn (callees fuel) x := by
  obtain ⟨rfl, hcaught, hunwinds⟩ := fresh_of_opening hopen
  have hbody := body_of_path hpath
  have hposted : p.frame.Posted :=
    posted_of_path hpath ⟨by simp [hcaught], by simp [hunwinds]⟩
  have hinner' : p.frame.body.Innermost p.addr h := hbody ▸ hinner
  obtain ⟨x, hx⟩ := hentry.executes hpath hinner.mem hcatch hinner.handles hinner'.not_departs
  have hrethrown : p.frame.rethrown? p.addr = some x :=
    hx.rethrown? hposted (hbody ▸ hnested) hinner'
  have hstep (n : Nat) : step (callees fuel) n p.frame p.addr .rethrow p.noted =
      .error (.exception x) p.noted := by
    change (rethrow p.frame p.addr : RunM (Outcome × Frame)) p.noted = _
    rw [rethrow, hrethrown]
    rfl
  have hvisits : Visits fuel id argBase r p := ⟨_, home, f, r', henters, hopen, hpath⟩
  have htrace : x.trace ≠ [] := by
    obtain ⟨e, he, rfl⟩ := Option.map_eq_some_iff.mp hrethrown
    exact hvisits.traced _ (mem_held.mpr (.inl ⟨e.1, List.mem_of_find?_eq_some he⟩))
  refine ⟨x, hx.lastEntered, fun y hy ↦ hy.unique hx.lastEntered, htrace, hstep n, ?_⟩
  cases hfuel : p.fuel with
  | zero => exact Place.handsOn_of_exhausted hfuel
  | succ n =>
    have hraises : Raises (callees fuel) n p p.frame x p.noted := .step hi (hstep n)
    rw [← tracedIn_of_trace (r := p.noted) htrace]
    exact hraises.handsOn hfuel

/-- A handler that throws what it has received, and raises it again the next time. -/
def reenteredBody : Body :=
  ⟨[], #[.loadArg 0, .throw, .loadArg 1, .throw, .loadArg 2, .branchTrue 7, .throw, .rethrow, .pop,
      .constInt32 1, .storeArg 2, .leave 2],
    [⟨.catch, 0, 3, 4, 7, none⟩, ⟨.catch, 4, 6, 8, 11, none⟩]⟩

/-- A machine with two objects and a number on its stack, and the method. -/
def Running.reentered : Running where
  domain := { (default : Domain) with
    registry := { Registry.empty with
      methods := #[{ (default : Method) with
        params := [⟨0⟩, ⟨0⟩, ⟨0⟩]
        origin := .interpreted ⟨⟨0⟩, .empty ""⟩ ⟨0⟩ (some reenteredBody) }] } }
  interpreter := { Interpreter.fresh 0 16 with
    stack := endState (do
      Stack.pushObject (.string "first")
      Stack.pushObject (.string "second")
      Stack.push (.int32 0)) (.empty 16) }

theorem enters_reentered : Enters .reentered ⟨0⟩ reenteredBody ⟨0⟩ :=
  ⟨by decide, rfl, ⟨⟨0⟩, .empty ""⟩, ⟨0⟩, rfl, rfl⟩

theorem nestedHandlers_reenteredBody : reenteredBody.NestedHandlers := by
  unfold Body.NestedHandlers
  decide

theorem innermost_reenteredBody : reenteredBody.Innermost 7 ⟨.catch, 0, 3, 4, 7, none⟩ := by
  refine ⟨List.mem_cons_self, rfl, ?_⟩
  decide

/-- Is the handler of `h` entered with a new note, or does control stay in it without one, and
without pending clauses? -/
def Place.byException (p q : Place) (h : Clause) : Bool :=
  if p.frame.caught.length < q.frame.caught.length then
    q.frame.caught.head?.any fun e ↦
      (p.frame.clause e.1).HandlerWithin h && h.HandlerWithin (p.frame.clause e.1)
  else
    h.handles p.addr && p.frame.unwinds.isEmpty && match p.instruction? with
      | some (.leave target) => h.handles target.toNat
      | _ => true

/-- A new note is that of an exception that a clause has received. -/
theorem Follows.catches_of_noted (hstep : Follows c p q)
    (hless : p.frame.caught.length < q.frame.caught.length) :
    ∃ k x, p.Catches c q k x ∧ q.frame.caught = (k, x) :: p.frame.caught := by
  rcases hstep.caught with hsame | hnoted | ⟨target, -, hkept⟩
  · exact absurd hless (by rw [hsame]; exact Nat.lt_irrefl _)
  · exact hnoted
  · rw [hkept] at hless
    exact absurd hless (Nat.not_lt.mpr (List.length_filter_le _ _))

/-- The check of a single step, as it can be run. -/
theorem byException_of_check (hstep : Follows c p q) (hcheck : p.byException q h = true) :
    p.ByException c q h := by
  unfold Place.byException at hcheck
  split at hcheck
  · next hless =>
    obtain ⟨k, x, hcatches, hnoted⟩ := hstep.catches_of_noted hless
    rw [hnoted, List.head?_cons, Option.any_some, Bool.and_eq_true, decide_eq_true_eq,
      decide_eq_true_eq] at hcheck
    exact .enters hcatches hcheck
  · next hless =>
    rw [Bool.and_eq_true, Bool.and_eq_true] at hcheck
    obtain ⟨⟨hin, hunwinds⟩, hleave⟩ := hcheck
    refine .inside hin ?_ ⟨fun target hi ↦ by simpa [hi] using hleave, fun k x hcatches ↦ ?_⟩
    · rintro ⟨u, hu, -⟩
      rw [List.isEmpty_iff.mp hunwinds] at hu
      exact List.not_mem_nil hu
    · rw [hcatches.caught hstep, List.length_cons] at hless
      exact absurd (Nat.lt_succ_self _) hless

/-- The handler is entered a second time while the note of the first one is there. -/
theorem rethrow_raises_the_active_reentered :
    ∃ f r' p x, openFrame 20 ⟨0⟩ (Running.reentered.domain.registry.method ⟨0⟩) reenteredBody ⟨0⟩ 0
        (Running.reentered.entered ⟨0⟩) = .ok f r' ∧
      EntersByException (callees 20) ⟨20, f, 0, r'⟩ ∧
      Relation.ReflTransGen (Follows (callees 20)) ⟨20, f, 0, r'⟩ p ∧ p.addr = 7 ∧
      p.frame.caught.map (fun e ↦ (e.1, e.2.value)) =
        [(0, .string "second"), (0, .string "first")] ∧
      LastEntered (callees 20) ⟨20, f, 0, r'⟩ ⟨.catch, 0, 3, 4, 7, none⟩ p x ∧
      x = ⟨.string "second", [⟨"::", 3, none⟩]⟩ ∧
      step (callees 20) 6 p.frame p.addr .rethrow p.noted = .error (.exception x) p.noted := by
  have hstart : (Place.opening? 20 ⟨0⟩ reenteredBody ⟨0⟩ 0 .reentered).map (fun s ↦
      ((s.trail (callees 20) 20).all fun p ↦ (p.next? (callees 20)).all fun q ↦
        reenteredBody.clauses.all fun h ↦ !h.handles q.addr || p.byException q h,
      (s.walk (callees 20) 13).map fun p ↦ (p.addr, p.fuel, p.instruction?,
        p.frame.caught.map fun e ↦ (e.1, e.2.value), (p.failure? (callees 20)).map Prod.fst))) =
      some (true, some (7, 7, some .rethrow, [(0, .string "second"), (0, .string "first")],
        some ⟨.string "second", [⟨"::", 3, none⟩]⟩)) := by cbv
  obtain ⟨start, hopening, hfacts⟩ := Option.map_eq_some_iff.mp hstart
  rw [Prod.mk.injEq] at hfacts
  obtain ⟨hchecks, hwalk⟩ := hfacts
  obtain ⟨f, r', hopen, rfl⟩ := Place.exists_of_opening hopening
  obtain ⟨p, hp, hplace⟩ := Option.map_eq_some_iff.mp hwalk
  simp only [Prod.mk.injEq] at hplace
  obtain ⟨haddr, hfuel, hi, hnotes, hfailure⟩ := hplace
  obtain ⟨hbody, -, -⟩ := fresh_of_opening hopen
  have hentry : EntersByException (callees 20) ⟨20, f, 0, r'⟩ := by
    refine ⟨?_, fun p q hpath hstep h hh _ hhandles ↦ byException_of_check hstep ?_⟩
    · change ∀ h ∈ f.body.clauses, h.isCatch = true → h.handles 0 = false
      rw [hbody]
      decide
    · have hcheck := List.all_eq_true.mp hchecks p (Place.mem_trail (Nat.le_refl 20) hpath)
      rw [Place.next?_of_follows hstep, Option.all_some] at hcheck
      have hclause := List.all_eq_true.mp hcheck h (hbody ▸ hh)
      simpa [hhandles] using hclause
  have hpath := Place.path_of_walk hp
  obtain ⟨x, hlast, -, -, hstep, -⟩ := rethrow_raises_the_active (n := 6) enters_reentered hopen
    nestedHandlers_reenteredBody hentry hpath hi rfl (by rw [haddr]; exact innermost_reenteredBody)
  refine ⟨f, r', p, x, hopen, hentry, hpath, haddr, hnotes, hlast, ?_, hstep⟩
  -- What the instruction raises has been computed.
  obtain ⟨⟨raised, t⟩, hfailure, rfl⟩ := Option.map_eq_some_iff.mp hfailure
  obtain ⟨m, i, hfuel', hi', hfails⟩ := Place.fails_of_failure? hfailure
  obtain rfl : m = 6 := by omega
  obtain rfl : i = .rethrow := Option.some.inj (hi'.symm.trans hi)
  cases hstep.symm.trans hfails
  rfl

/-! ### A leave that is given up -/

/-- Control gets into the handlers of catch clauses through exceptions alone, and out of them by a
leave or through an exception. -/
structure HandlersByException (c : Callees) (start : Place) : Prop where
  outside : ∀ h ∈ start.frame.body.clauses, h.isCatch = true → h.handles start.addr = false
  enters : ∀ p q, Relation.ReflTransGen (Follows c) start p → Follows c p q →
    ∀ h ∈ start.frame.body.clauses, h.isCatch = true → h.handles p.addr = false →
      h.handles q.addr = true → ∃ k x, p.Catches c q k x ∧ p.frame.Handler k h
  exits : ∀ p q, Relation.ReflTransGen (Follows c) start p → Follows c p q →
    ∀ h ∈ start.frame.body.clauses, h.isCatch = true → h.handles p.addr = true →
      h.handles q.addr = false → (∃ target, p.instruction? = some (.leave target)) ∨
        ∃ f x r, Raises c q.fuel p f x r

/-- Is a clause with the handler of `h` noted from `p` to `q`? -/
def Place.notes (p q : Place) (h : Clause) : Bool :=
  decide (p.frame.caught.length < q.frame.caught.length) && q.frame.caught.head?.any fun e ↦
    (p.frame.clause e.1).HandlerWithin h && h.HandlerWithin (p.frame.clause e.1)

theorem catches_of_notes (hstep : Follows c p q) (hnotes : p.notes q h = true) :
    ∃ k x, p.Catches c q k x ∧ p.frame.Handler k h := by
  rw [Place.notes, Bool.and_eq_true, decide_eq_true_eq] at hnotes
  obtain ⟨hless, hhandler⟩ := hnotes
  obtain ⟨k, x, hcatches, hnoted⟩ := hstep.catches_of_noted hless
  rw [hnoted, List.head?_cons, Option.any_some, Bool.and_eq_true, decide_eq_true_eq,
    decide_eq_true_eq] at hhandler
  exact ⟨k, x, hcatches, hhandler⟩

theorem notes_of_catches (hstep : Follows c p q) (hcatches : p.Catches c q k x)
    (hk : p.frame.Handler k h) : p.notes q h = true := by
  rw [Place.notes, hcatches.caught hstep]
  simpa [Frame.Handler] using hk

/-- The last entry stays the last one while no clause with the handler is noted. -/
theorem LastEntered.walk {count : Nat} (hq : LastEntered c start h q x)
    (hnone : ∀ p' ∈ q.trail c count, ∀ q', p'.next? c = some q' → p'.notes q' h = false)
    (hwalk : q.walk c count = some p) : LastEntered c start h p x := by
  induction count generalizing q with
  | zero =>
    cases hwalk
    exact hq
  | succ count ih =>
    obtain ⟨q', hnext, hwalk⟩ := Option.bind_eq_some_iff.mp hwalk
    have hstep := Place.follows_of_next? hnext
    have hquiet := hnone q List.mem_cons_self q' hnext
    refine ih (hq.before hstep fun k y hcatches hk ↦ ?_) (fun p' hp' ↦ hnone p' ?_) hwalk
    · rw [notes_of_catches hstep hcatches hk] at hquiet
      cases hquiet
    · rw [Place.trail, hnext]
      simpa using .inr hp'

/-- A handler that is left through a clause that throws; a clause inside the handler catches this,
and the handler goes on and raises its exception again. -/
def abandonedBody : Body :=
  ⟨[], #[.loadArg 0, .throw, .leave 7, .loadArg 1, .throw, .leave 6, .rethrow, .ret],
    [⟨.finally, 2, 2, 3, 4, none⟩, ⟨.catch, 2, 4, 5, 5, none⟩, ⟨.catch, 0, 1, 2, 6, none⟩]⟩

/-- A machine with two objects on its stack, and the method. -/
def Running.abandoned : Running where
  domain := { (default : Domain) with
    registry := { Registry.empty with
      methods := #[{ (default : Method) with
        params := [⟨0⟩, ⟨0⟩]
        origin := .interpreted ⟨⟨0⟩, .empty ""⟩ ⟨0⟩ (some abandonedBody) }] } }
  interpreter := { Interpreter.fresh 0 16 with
    stack := endState (do
      Stack.pushObject (.string "first")
      Stack.pushObject (.string "second")) (.empty 16) }

theorem nestedHandlers_abandonedBody : abandonedBody.NestedHandlers := by
  unfold Body.NestedHandlers
  decide

theorem innermost_abandonedBody : abandonedBody.Innermost 6 ⟨.catch, 0, 1, 2, 6, none⟩ := by
  refine ⟨by decide, rfl, ?_⟩
  decide

/-- What a step of a frame does with the handlers of catch clauses: it enters them with a note, and
leaves them by a leave. -/
def Place.handlersChecked (p q : Place) : Bool :=
  p.frame.body.clauses.all fun h ↦ !h.isCatch || if h.handles p.addr then
    h.handles q.addr || (match p.instruction? with
      | some (.leave _) => true
      | _ => false)
  else !h.handles q.addr || p.notes q h

/-- The checks along the whole trail of a frame that ends. Places follow each other in one way only,
so the trail holds all of them. -/
theorem handlersByException_of_trail {count : Nat} (hcount : start.fuel ≤ count)
    (houtside : ∀ h ∈ start.frame.body.clauses, h.isCatch = true → h.handles start.addr = false)
    (hcheck : ((start.trail c count).all fun p ↦
      (p.next? c).all fun q ↦ p.handlersChecked q) = true) : HandlersByException c start := by
  have hstepped {p q : Place} (hpath : Relation.ReflTransGen (Follows c) start p)
      (hstep : Follows c p q) {h : Clause} (hh : h ∈ start.frame.body.clauses)
      (hcatch : h.isCatch = true) := by
    have hplace := List.all_eq_true.mp hcheck p (Place.mem_trail hcount hpath)
    rw [Place.next?_of_follows hstep, Option.all_some] at hplace
    have hclause := List.all_eq_true.mp hplace h (body_of_path hpath ▸ hh)
    rwa [hcatch, Bool.not_true, Bool.false_or] at hclause
  refine ⟨houtside, fun p q hpath hstep h hh hcatch hp hq ↦ ?_,
    fun p q hpath hstep h hh hcatch hp hq ↦ .inl ?_⟩
  · have hchecked := hstepped hpath hstep hh hcatch
    rw [if_neg (by simp [hp]), hq, Bool.not_true, Bool.false_or] at hchecked
    exact catches_of_notes hstep hchecked
  · have hchecked := hstepped hpath hstep hh hcatch
    rw [if_pos hp, hq, Bool.false_or] at hchecked
    split at hchecked
    · next target hi => exact ⟨target, hi⟩
    · cases hchecked

/-- The leave has taken the note of the handler away before it got out, so there is nothing to raise
again in the handler, although control has stayed in it. -/
theorem rethrow_after_abandoned_leave :
    abandonedBody.NestedHandlers ∧ abandonedBody.Innermost 6 ⟨.catch, 0, 1, 2, 6, none⟩ ∧
    ∃ f r' p x, openFrame 20 ⟨0⟩ (Running.abandoned.domain.registry.method ⟨0⟩) abandonedBody ⟨0⟩ 0
        (Running.abandoned.entered ⟨0⟩) = .ok f r' ∧
      HandlersByException (callees 20) ⟨20, f, 0, r'⟩ ∧
      Relation.ReflTransGen (Follows (callees 20)) ⟨20, f, 0, r'⟩ p ∧ p.addr = 6 ∧
      p.instruction? = some .rethrow ∧
      LastEntered (callees 20) ⟨20, f, 0, r'⟩ ⟨.catch, 0, 1, 2, 6, none⟩ p x ∧
      ∀ n, step (callees 20) n p.frame p.addr .rethrow p.noted =
        .error (.malformed .strayRethrow) p.noted := by
  refine ⟨nestedHandlers_abandonedBody, innermost_abandonedBody, ?_⟩
  have hstart : (Place.opening? 20 ⟨0⟩ abandonedBody ⟨0⟩ 0 .abandoned).map (fun s ↦
      ((s.trail (callees 20) 20).all fun p ↦ (p.next? (callees 20)).all fun q ↦ p.handlersChecked q,
      ((s.walk (callees 20) 1).bind fun p ↦ (p.next? (callees 20)).map fun q ↦
        (p.notes q ⟨.catch, 0, 1, 2, 6, none⟩,
          (q.trail (callees 20) 4).all fun p ↦ (p.next? (callees 20)).all fun q ↦
            !p.notes q ⟨.catch, 0, 1, 2, 6, none⟩,
          (q.walk (callees 20) 4).map fun p ↦ (p.addr, p.instruction?, p.frame.caught))))) =
      some (true, some (true, true, some (6, some .rethrow, []))) := by cbv
  obtain ⟨start, hopening, hfacts⟩ := Option.map_eq_some_iff.mp hstart
  rw [Prod.mk.injEq] at hfacts
  obtain ⟨hchecks, hfacts⟩ := hfacts
  obtain ⟨f, r', hopen, rfl⟩ := Place.exists_of_opening hopening
  obtain ⟨hbody, -, -⟩ := fresh_of_opening hopen
  obtain ⟨p, hp, hfacts⟩ := Option.bind_eq_some_iff.mp hfacts
  obtain ⟨q, hq, hfacts⟩ := Option.map_eq_some_iff.mp hfacts
  simp only [Prod.mk.injEq] at hfacts
  obtain ⟨hnotes, hnone, hfacts⟩ := hfacts
  obtain ⟨s, hs, hfacts⟩ := Option.map_eq_some_iff.mp hfacts
  simp only [Prod.mk.injEq] at hfacts
  obtain ⟨haddr, hi, hcaught⟩ := hfacts
  have hentry : HandlersByException (callees 20) ⟨20, f, 0, r'⟩ := by
    refine handlersByException_of_trail (Nat.le_refl 20) ?_ hchecks
    change ∀ h ∈ f.body.clauses, h.isCatch = true → h.handles 0 = false
    rw [hbody]
    decide
  -- The handler is entered from `p` to `q`, and no clause with this handler is noted up to `s`.
  have hpath := Place.path_of_walk hp
  have hstep := Place.follows_of_next? hq
  obtain ⟨k, x, hcatches, hk⟩ := catches_of_notes hstep hnotes
  have hlast : LastEntered (callees 20) ⟨20, f, 0, r'⟩ ⟨.catch, 0, 1, 2, 6, none⟩ s x := by
    refine (LastEntered.now hpath hstep hcatches hk).walk (fun p' hp' q' hq' ↦ ?_) hs
    have hplace := List.all_eq_true.mp hnone p' hp'
    rwa [hq', Option.all_some, Bool.not_eq_true'] at hplace
  refine ⟨f, r', s, x, hopen, hentry, (hpath.tail hstep).trans (Place.path_of_walk hs), haddr, hi,
    hlast, fun n ↦ ?_⟩
  change (rethrow s.frame s.addr : RunM (Outcome × Frame)) s.noted = _
  rw [rethrow, Frame.rethrown?, hcaught]
  rfl

end ManagedMachine
