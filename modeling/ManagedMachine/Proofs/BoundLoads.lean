import ManagedMachine.Proofs.FrameIsolation
import ManagedMachine.Proofs.TwinErrands

/-!
# Loads through field bindings

The value of a bound field is pushed by host code. It may ask for pushes as often as it likes and do
what it wants when one of them fails, and only the first one is carried out. What lies below stays
as it is, and no more than one operand comes on top of it. There is one if the field is not void and
the code gives up when its first push fails; the engine itself only checks that a push was asked
for.

Requests of host code are told apart into those that push and those that do not
(`samePush_serveAccess`). A request to push is passed on only once (`pushOnce_ok`), so a program of
requests, of any length and with any reaction to errors, is within one push of where it began
(`withinPushes_serveAccess`, `loadHost_below`).
-/

set_option autoImplicit false
set_option relaxedAutoImplicit false

namespace ManagedMachine

open Engine

/-! ### The first of some requests -/

namespace Program

variable {Req : Type} {Ans : Req → Type} {α σ : Type} {on : Req → Bool}
  {handle : (r : Req) → EStateM Error σ (Ans r)} {before after : σ → Prop} {s t : σ} {a : α}

/-- The program fails if the first of these requests does. -/
def GivesUp (on : Req → Bool) : Program Req Ans α → Prop
  | done _ | fail _ => True
  | ask r next =>
    if on r then ∀ e, ∃ e', next (.error e) = fail e'
    else ∀ answer, (next answer).GivesUp on

/-- The first of these requests in a run succeeds. -/
def FirstSucceeds (on : Req → Bool) (handle : (r : Req) → EStateM Error σ (Ans r)) :
    Program Req Ans α → σ → Prop
  | done _, _ | fail _, _ => False
  | ask r next, s =>
    match handle r s with
    | .ok answer s => on r = true ∨ (next (.ok answer)).FirstSucceeds on handle s
    | .error e s => on r = false ∧ (next (.error e)).FirstSucceeds on handle s

/-- The rest of a run that goes on after a request. -/
theorem run_ask_error {r : Req} {next : Except Error (Ans r) → Program Req Ans α} {e : Error}
    {s' : σ} (hr : handle r s = .error e s') (h : (ask r next).run handle s = .ok a t) :
    (next (.error e)).run handle s' = .ok a t := by
  by_cases hfuel : e = .outOfFuel
  · simp only [run, hr, hfuel, reduceCtorEq] at h
  · simpa only [run, hr] using h

/-- Without any of the requests, what held before still holds. -/
theorem GivesUp.run_ok (hother : ∀ r, on r = false → ∀ s, before s → before (endState (handle r) s))
    {p : Program Req Ans α} (hp : p.GivesUp on) (hs : before s) (h : p.run handle s = .ok a t) :
    before t ∨ p.FirstSucceeds on handle s := by
  induction p generalizing s with
  | done b =>
    cases h
    exact .inl hs
  | fail e => cases h
  | ask r next ih =>
    rw [GivesUp] at hp
    rw [FirstSucceeds]
    cases hr : handle r s with
    | ok answer s' =>
      simp only [run, hr] at h
      cases hon : on r with
      | true => exact .inr (.inl rfl)
      | false =>
        rw [hon] at hp
        exact (ih _ (hp _) (endState_ok hr ▸ hother r hon s hs) h).imp_right .inr
    | error e s' =>
      have hrest := run_ask_error hr h
      cases hon : on r with
      | true =>
        rw [hon] at hp
        obtain ⟨e', hfail⟩ := hp e
        rw [hfail] at hrest
        cases hrest
      | false =>
        rw [hon] at hp
        exact (ih _ (hp _) (endState_error hr ▸ hother r hon s hs) hrest).imp_right fun h ↦ ⟨rfl, h⟩

/-- The answer to the first of the requests leads from what holds before to what holds after. -/
theorem FirstSucceeds.run_ok
    (hother : ∀ r, on r = false → ∀ s, before s → before (endState (handle r) s))
    (hfirst : ∀ r, on r = true → ∀ s answer t, before s → handle r s = .ok answer t → after t)
    (hafter : ∀ r s, after s → after (endState (handle r) s)) {p : Program Req Ans α}
    (hp : p.FirstSucceeds on handle s) (hs : before s) (h : p.run handle s = .ok a t) :
    after t := by
  have : IsPreorder σ fun s t ↦ after s → after t :=
    { refl := fun _ ↦ id
      trans := fun _ _ _ h h' ↦ h' ∘ h }
  induction p generalizing s with
  | done b => exact hp.elim
  | fail e => exact hp.elim
  | ask r next ih =>
    rw [FirstSucceeds] at hp
    cases hr : handle r s with
    | ok answer s' =>
      simp only [run, hr] at h
      rw [hr] at hp
      cases hon : on r with
      | true =>
        have hs' := hfirst r hon s answer s' hs hr
        have hrest := Keeps.program (S := fun s t ↦ after s → after t) hafter (next (.ok answer))
        exact hrest.ok h hs'
      | false =>
        have hnext := hp.resolve_left fun hon' ↦ Bool.false_ne_true (hon.symm.trans hon')
        exact ih _ hnext (endState_ok hr ▸ hother r hon s hs) h
    | error e s' =>
      rw [hr] at hp
      exact ih _ hp.2 (endState_error hr ▸ hother r hp.1 s hs) (run_ask_error hr h)

end Program

/-- Whether the request puts something on the stack. -/
def AccessRequest.isPush : AccessRequest → Bool
  | pushInt32 _ | pushInt64 _ | pushDouble _ | push _ => true
  | _ => false

/-! ### One operand at most -/

/-- The operands end where they did, or one higher. -/
def Stack.UpToOne (s s' : Stack) : Prop := s'.top = s.top ∨ s'.top = s.top + 1

/-- The operands that there were are there, with one more at most on top of them. -/
def Running.UpToOne (r r' : Running) : Prop := r.stack.UpToOne r'.stack

namespace Engine

variable {c : Callees} {fuel n : Nat} {r r' : Running} {α β : Type}

/-- A push puts one operand on top, or fails for want of room and leaves the stack alone. -/
theorem upToOne_push (s : Slot) : Keeps Stack.UpToOne (Stack.push s) := by
  intro st
  by_cases hfull : st.low ≤ st.top
  · simp only [endState, Stack.push, if_pos hfull]
    exact .inl rfl
  · simp only [endState, Stack.push, if_neg hfull]
    exact .inr rfl

theorem upToOne_pushObject (v : Value) : Keeps Stack.UpToOne (Stack.pushObject v) := by
  unfold Stack.pushObject
  split
  · exact upToOne_push .null
  · intro st
    have hentry : Stack.pushEntry v st = .ok st.managed.size
      { st with managed := st.managed.push v } := rfl
    rw [endState_bind hentry]
    exact upToOne_push (.object st.managed.size) _

theorem upToOne_onStack {x : StackM α} (hx : Keeps Stack.UpToOne x) :
    Keeps Running.UpToOne (Running.onStack x) := fun r ↦ by
  rw [Running.UpToOne, Running.endState_onStack]
  exact hx r.stack

theorem upToOne_of_sameTop {x : RunM α} (hx : Keeps Running.SameTop x) : Keeps Running.UpToOne x :=
  hx.mono fun _ _ ↦ .inl

/-- A piece of code that leaves the top alone may come before a push. -/
theorem upToOne_bind {x : RunM α} {f : α → RunM β} (hx : Keeps Running.SameTop x)
    (hf : ∀ a, Keeps Running.UpToOne (f a)) : Keeps Running.UpToOne (x >>= f) := by
  intro r
  cases hr : x r with
  | ok a s =>
    have htop : s.stack.top = r.stack.top := hx.ok hr
    have hend : s.UpToOne (endState (f a) s) := hf a s
    rw [endState_bind hr]
    rwa [Running.UpToOne, Stack.UpToOne, htop] at hend
  | error e s =>
    rw [endState_error (bind_of_error hr)]
    exact .inl (hx.error hr)

/-- A value that is pushed takes one operand, wherever its fields are put. -/
theorem upToOne_pushValue (fuel : Nat) (v : Value) (t : TypeId) :
    Keeps Running.UpToOne (pushValue fuel v t) := by
  have hpush (s : Slot) := upToOne_onStack (upToOne_push s)
  have hobject (v : Value) := upToOne_onStack (upToOne_pushObject v)
  unfold pushValue
  refine upToOne_bind (looks_descriptor t) fun d ↦ ?_
  split
  · exact upToOne_of_sameTop (.pure ())
  · exact upToOne_bind (looks_ofExcept _) hpush
  · refine upToOne_bind (looks_isInline fuel t) fun inline ↦ ?_
    split
    · refine upToOne_bind ?_ fun d ↦ hpush _
      exact (sameTop_allocInline fuel t).bind fun d ↦ (sameTop_writeBoxed fuel d v).seqRight
        (.pure d)
    · split
      · exact upToOne_bind (looks_sharedOrCopied fuel v) hobject
      · exact hobject v

/-! ### The requests of a delegate -/

variable {a : FieldAccess} {req : AccessRequest} {b : Bool} {push : RunM Unit}

theorem endState_keeping (x : RunM α) (r : Running) (b : β) :
    endState (keeping x : WithResult β α) (r, b) = (endState x r, b) := by
  simp only [endState, keeping]
  cases x r <;> rfl

/-- Neither the operands nor what is known of pushes change. -/
def SamePush (p p' : Running × Bool) : Prop := p.1.SameTop p'.1 ∧ p'.2 = p.2

/-- No more operands come on top than pushes were carried out. -/
def WithinPushes (p p' : Running × Bool) : Prop :=
  p.1.stack.top ≤ p'.1.stack.top ∧ p'.1.stack.top + p.2.toNat ≤ p.1.stack.top + p'.2.toNat

instance : IsPreorder (Running × Bool) WithinPushes where
  refl _ := ⟨Nat.le_refl _, Nat.le_refl _⟩
  trans p q s h h' := by
    unfold WithinPushes at *
    omega

theorem SamePush.withinPushes {p p' : Running × Bool} (h : SamePush p p') : WithinPushes p p' := by
  obtain ⟨htop, hflag⟩ := h
  exact ⟨htop.ge, by rw [show p'.1.stack.top = p.1.stack.top from htop, hflag]⟩

theorem samePush_keeping {x : RunM α} (hx : Keeps Running.SameTop x) :
    Keeps SamePush (keeping x : WithResult Bool α) := by
  rintro ⟨r, b⟩
  rw [endState_keeping]
  exact ⟨hx r, rfl⟩

theorem sameTop_onDomain (x : DomainM α) : Keeps Running.SameTop (Running.onDomain x) := by
  rintro ⟨d, i⟩
  rw [endState_onDomain]
  rfl

/-- A request that is not to push neither pushes nor notes that something was pushed. -/
theorem samePush_serveAccess (hpush : req.isPush = false) :
    Keeps SamePush (serveAccess c fuel a req) := by
  cases req with
  | domain q => exact samePush_keeping (sameTop_onDomain _)
  | receiver => exact samePush_keeping (looks_accessThis a)
  | valueSlot => exact samePush_keeping (looks_valueSlot a)
  | value => exact samePush_keeping (looks_accessValue a fuel)
  | _ => cases hpush

/-- The first push is carried out. -/
theorem pushOnce_first (ha : a.valueAddr = none) :
    a.pushOnce push (r, false) = (keeping push : WithResult Bool Unit) (r, true) := by
  simp only [FieldAccess.pushOnce, ha]
  rfl

/-- All others are refused. -/
theorem pushOnce_again : ∃ e, a.pushOnce push (r, true) = .error e (r, true) := by
  simp only [FieldAccess.pushOnce, Bool.or_true, if_true]
  exact ⟨_, rfl⟩

theorem endState_pushOnce_again : endState (a.pushOnce push) (r, true) = (r, true) := by
  obtain ⟨e, he⟩ : ∃ e, a.pushOnce push (r, true) = .error e (r, true) := pushOnce_again
  exact endState_error he

/-- A push that is answered with success has taken place, and is noted. -/
theorem pushOnce_ok (ha : a.valueAddr = none) {p : Running × Bool}
    (h : a.pushOnce push (r, false) = .ok () p) : p.2 = true ∧ push r = .ok () p.1 := by
  rw [pushOnce_first ha] at h
  simp only [keeping] at h
  cases hpush : push r with
  | error e s => simp only [hpush, reduceCtorEq] at h
  | ok _ s =>
    simp only [hpush] at h
    cases h
    exact ⟨rfl, rfl⟩

/-- What is noted and how many operands there are go together, also when the push fails on the way.
-/
theorem withinPushes_pushOnce (ha : a.valueAddr = none) (hpush : Keeps Running.UpToOne push) :
    Keeps WithinPushes (a.pushOnce push) := by
  rintro ⟨r, b⟩
  cases b with
  | true =>
    rw [endState_pushOnce_again]
    exact refl_of WithinPushes _
  | false =>
    have hend : endState (a.pushOnce push) (r, false) = (endState push r, true) := by
      rw [← endState_keeping]
      simp only [endState, pushOnce_first ha]
    have htop : r.UpToOne (endState push r) := hpush r
    rw [hend]
    unfold Running.UpToOne Stack.UpToOne at htop
    simp only [WithinPushes, Bool.toNat_false, Bool.toNat_true]
    omega

/-- All requests keep to this, those to push and all others. -/
theorem withinPushes_serveAccess (ha : a.valueAddr = none) (req : AccessRequest) :
    Keeps WithinPushes (serveAccess c fuel a req) := by
  cases hpush : req.isPush with
  | false => exact (samePush_serveAccess hpush).mono fun _ _ ↦ SamePush.withinPushes
  | true =>
    have hslot (s : Slot) := withinPushes_pushOnce ha (upToOne_onStack (upToOne_push s))
    cases req with
    | pushInt32 x | pushInt64 x | pushDouble x => exact hslot _
    | push v => exact withinPushes_pushOnce ha (upToOne_pushValue fuel v a.field.type)
    | _ => cases hpush

/-- After the first push nothing comes on top any more. -/
theorem serveAccess_pushed (req : AccessRequest) :
    SamePush (r, true) (endState (serveAccess c fuel a req) (r, true)) := by
  cases hpush : req.isPush with
  | false => exact samePush_serveAccess hpush (r, true)
  | true =>
    have hagain {push : RunM Unit} :
        SamePush (r, true) (endState (a.pushOnce push) (r, true)) := by
      rw [endState_pushOnce_again]
      exact ⟨rfl, rfl⟩
    cases req with
    | pushInt32 _ | pushInt64 _ | pushDouble _ | push _ => exact hagain
    | _ => cases hpush

/-- A first push that succeeds puts one operand on top. -/
theorem serveAccess_first (ha : a.valueAddr = none) (hpush : req.isPush = true)
    (hvoid : (r.domain.registry.type a.field.type).isVoid = false) {y : req.Answer}
    {p : Running × Bool} (h : serveAccess c fuel a req (r, false) = .ok y p) :
    p.2 = true ∧ p.1.stack.top = r.stack.top + 1 := by
  have hslot {s : Slot} (h : a.pushOnce (Running.onStack (Stack.push s)) (r, false) = .ok () p) :=
    (pushOnce_ok ha h).imp_right fun h ↦ (taller_push h).top
  cases req with
  | pushInt32 _ | pushInt64 _ | pushDouble _ => exact hslot h
  | push v => exact (pushOnce_ok ha h).imp_right fun h ↦ (taller_pushValue hvoid h).top
  | _ => cases hpush

/-! ### Loads -/

/-- The first push of a delegate is the operand of the load, if it succeeds. -/
theorem run_top {p : AccessProgram Unit} (ha : a.valueAddr = none)
    (hfield : r.domain.registry.Has a.field.type)
    (hvoid : (r.domain.registry.type a.field.type).isVoid = false)
    (hp : p.GivesUp AccessRequest.isPush ∨
      p.FirstSucceeds AccessRequest.isPush (serveAccess (callees n) fuel a) (r, false))
    (h : p.run (serveAccess (callees n) fuel a) (r, false) = .ok () (r', true)) :
    r'.stack.top = r.stack.top + 1 := by
  let before (p : Running × Bool) : Prop :=
    r.domain.Extends p.1.domain ∧ p.1.stack.top = r.stack.top ∧ p.2 = false
  let after (p : Running × Bool) : Prop := p.1.stack.top = r.stack.top + 1 ∧ p.2 = true
  have hstart : before (r, false) := ⟨.refl _, rfl, rfl⟩
  have hother : ∀ req : AccessRequest, req.isPush = false → ∀ q, before q →
      before (endState (serveAccess (callees n) fuel a req) q) := by
    rintro req hpush q ⟨hgrown, htop, hflag⟩
    obtain ⟨hsame, hkept⟩ : SamePush q (endState (serveAccess (callees n) fuel a req) q) :=
      samePush_serveAccess hpush q
    exact ⟨hgrown.trans (works_serveAccess (extends_callees n) fuel a req q).domain,
      hsame.trans htop, hkept.trans hflag⟩
  have hfirst : ∀ req : AccessRequest, req.isPush = true → ∀ q y q', before q →
      serveAccess (callees n) fuel a req q = .ok y q' → after q' := by
    rintro req hpush ⟨s, b⟩ y q' ⟨hgrown, htop, rfl⟩ hserve
    have hvoid' : (s.domain.registry.type a.field.type).isVoid = false :=
      hgrown.registry.type_eq hfield ▸ hvoid
    obtain ⟨hflag, hone⟩ := serveAccess_first ha hpush hvoid' hserve
    exact ⟨hone.trans (congrArg (· + 1) htop), hflag⟩
  have hafter : ∀ req q, after q → after (endState (serveAccess (callees n) fuel a req) q) := by
    rintro req ⟨s, b⟩ ⟨htop, rfl⟩
    obtain ⟨hsame, hflag⟩ :
        SamePush (s, true) (endState (serveAccess (callees n) fuel a req) (s, true)) :=
      serveAccess_pushed req
    exact ⟨hsame.trans htop, hflag⟩
  -- The engine has seen to it that a push was asked for.
  have hsucceeds :
      p.FirstSucceeds AccessRequest.isPush (serveAccess (callees n) fuel a) (r, false) :=
    hp.elim (fun hp ↦ (hp.run_ok hother hstart h).resolve_left fun ⟨_, _, hfalse⟩ ↦
    nomatch hfalse) id
  exact (hsucceeds.run_ok hother hfirst hafter hstart h).1

/-- A load through a binding succeeds if its delegate does and has asked for a push. -/
theorem loadHost_bound {field : Field} {receiver : Option Value} {delegates : FieldDelegates}
    (hbound : r.domain.bindings.delegates? (r.domain.registry.fieldKey field) = some delegates) :
    loadHost c fuel field receiver r = .ok () r' ↔
      (delegates.copy field).run (serveAccess c fuel ⟨field, receiver, none⟩) (r, false) =
        .ok () (r', true) := by
  have hkey : fieldKey field r = .ok (r.domain.registry.fieldKey field) r := rfl
  have hbindings : ((Domain.ask (·.bindings) : DomainM Bindings) : RunM Bindings) r =
      .ok r.domain.bindings r := rfl
  unfold loadHost
  rw [bind_of_ok hkey, bind_of_ok hbindings, hbound]
  dsimp only
  constructor
  · intro h
    obtain ⟨pushed, s, hrun, h⟩ := exists_of_bind h
    simp only [runDelegate, leaving] at hrun
    split at hrun
    · next hdelegate =>
      cases hrun
      cases pushed with
      | true =>
        cases h
        exact hdelegate
      | false => cases h
    · cases hrun
  · intro h
    have hrun : runDelegate c fuel ⟨field, receiver, none⟩ delegates.copy r = .ok true r' := by
      simp only [runDelegate, leaving, h]
    rw [bind_of_ok hrun]
    rfl

/-- Slots below the operands of a load are out of its reach. -/
theorem loadHost_below {field : Field} {receiver : Option Value} (hblocky : r.Blocky)
    (h : loadHost (callees n) fuel field receiver r = .ok () r') :
    ∀ i < r.stack.top, r'.stack.slots[i]? = r.stack.slots[i]? := by
  intro i hi
  have hspec := spec_loadHost (S := isolationScope r.stack.top) (v := .knowing r ∅)
    (protects_callees n).1.serve fuel field receiver rfl
  obtain ⟨v, rfl, hedits, -⟩ := hspec.ok h
  have hcovers : (isolationScope r.stack.top).Covers (.knowing r ∅) :=
    fun x hx hx' ↦ absurd hx (Nat.not_le_of_lt hx')
  obtain ⟨-, hconfined⟩ := Edits.confined (a := r.stack.top) hedits (.of_empty hblocky rfl)
    ⟨fun h ↦ h.elim, fun h ↦ h.elim, fun h ↦ h.elim, nofun⟩ hcovers le_rfl le_rfl
  exact hconfined.slots fun hknown ↦ (hconfined.known hknown).elim id fun hle ↦
    absurd hi (Nat.not_lt_of_le hle)

/-- A load through a binding leaves what lies below as it is and puts one operand on top at most. It
does put one there if the first push succeeds, for a field that is not void. -/
theorem loadHost_pushes {field : Field} {receiver : Option Value} {delegates : FieldDelegates}
    (hblocky : r.Blocky)
    (hbound : r.domain.bindings.delegates? (r.domain.registry.fieldKey field) = some delegates)
    (h : loadHost (callees n) fuel field receiver r = .ok () r') :
    (∀ i < r.stack.top, r'.stack.slots[i]? = r.stack.slots[i]?) ∧
      (r'.stack.top = r.stack.top ∨ r'.stack.top = r.stack.top + 1) ∧
      (r.domain.registry.Has field.type → (r.domain.registry.type field.type).isVoid = false →
        ((delegates.copy field).GivesUp AccessRequest.isPush ∨
          (delegates.copy field).FirstSucceeds AccessRequest.isPush
            (serveAccess (callees n) fuel ⟨field, receiver, none⟩) (r, false)) →
        r'.stack.top = r.stack.top + 1) := by
  have hrun := (loadHost_bound hbound).mp h
  have hwithin := (Keeps.program (withinPushes_serveAccess rfl) _).ok hrun
  refine ⟨loadHost_below hblocky h, ?_, fun hfield hvoid hp ↦ run_top rfl hfield hvoid hp hrun⟩
  simp only [WithinPushes, Bool.toNat_false, Bool.toNat_true] at hwithin
  omega

end Engine

/-! ### A field of a primitive type -/

def Field.held : Field := ⟨⟨1⟩, "Value", 0, true, ⟨0⟩, some ⟨"Value", "", true, none, none⟩⟩

/-- A machine on which a static field of a primitive type is bound. -/
def Running.withBound (type : Primitive) (copy : FieldDelegate) : Running where
  domain := { (default : Domain) with
    registry := { Registry.empty with
      types := #[⟨type.fullName, .native (CoreLibrary.primitiveType type), [], none⟩,
        ⟨"N.H", .native (.plain .class_ "N" "H"), [], none⟩] }
    bindings := { Bindings.empty with
      building := { BindingSet.empty with
        fields := BindingSet.empty.fields.insert "N.H::Value" ⟨copy, fun _ ↦ .done ()⟩ } } }
  interpreter := .fresh 0 8

/-- Pushes a number. -/
def pushFive : FieldDelegate := fun _ ↦ Access.push (.int32 5)

theorem bound_withBound (type : Primitive) (copy : FieldDelegate) :
    (Running.withBound type copy).domain.bindings.delegates?
        ((Running.withBound type copy).domain.registry.fieldKey .held) =
      some ⟨copy, fun _ ↦ .done ()⟩ :=
  Std.HashMap.getElem?_insert_self

namespace Engine

variable {c : Callees} {fuel : Nat} {r r' : Running}

theorem run_push {a : FieldAccess} {v : Value} (ha : a.valueAddr = none)
    (h : pushValue fuel v a.field.type r = .ok () r') :
    (Access.push v).run (serveAccess c fuel a) (r, false) = .ok () (r', true) := by
  have hpush : a.pushOnce (pushValue fuel v a.field.type) (r, false) = .ok () (r', true) := by
    rw [pushOnce_first ha]
    simp only [keeping, h]
  simp only [Access.push, Program.request, Program.run, serveAccess, hpush]
  rfl

theorem loadHost_pushFive {type : Primitive}
    (h : pushValue fuel (.int32 5) ⟨0⟩ (.withBound type pushFive) = .ok () r') :
    loadHost c fuel .held none (.withBound type pushFive) = .ok () r' :=
  (loadHost_bound (bound_withBound type pushFive)).mpr (run_push rfl h)

theorem loadHost_pushes_five : ∃ r',
    loadHost (callees 1) 1 .held none (.withBound .int32 pushFive) = .ok () r' ∧
      (pushFive .held).GivesUp AccessRequest.isPush ∧
      r'.stack.top = (Running.withBound .int32 pushFive).stack.top + 1 := by
  have hgives : (pushFive .held).GivesUp AccessRequest.isPush := fun e ↦ ⟨e, rfl⟩
  obtain ⟨r', hload⟩ : ∃ r', loadHost (callees 1) 1 .held none (.withBound .int32 pushFive) =
      .ok () r' := ⟨_, loadHost_pushFive rfl⟩
  obtain ⟨-, -, htop⟩ :=
    loadHost_pushes (blocky_fresh _ 0 8) (bound_withBound .int32 pushFive) hload
  exact ⟨r', hload, hgives, htop Nat.two_pos (by decide) (.inl hgives)⟩

/-- For a field of type void, a load may succeed without an operand. -/
theorem loadHost_void_pushes_nothing : ¬∀ (n fuel : Nat) (field : Field) (receiver : Option Value)
    (delegates : FieldDelegates) (r r' : Running), r.Blocky →
    r.domain.bindings.delegates? (r.domain.registry.fieldKey field) = some delegates →
    loadHost (callees n) fuel field receiver r = .ok () r' →
      r'.stack.top = r.stack.top + 1 ∧ ∀ i < r.stack.top, r'.stack.slots[i]? =
        r.stack.slots[i]? := by
  intro h
  have hload : loadHost (callees 1) 1 .held none (.withBound .void pushFive) =
      .ok () (.withBound .void pushFive) := loadHost_pushFive rfl
  obtain ⟨htop, -⟩ :=
    h 1 1 .held none _ _ _ (blocky_fresh _ 0 8) (bound_withBound .void pushFive) hload
  exact absurd htop (by decide)

end Engine

end ManagedMachine
