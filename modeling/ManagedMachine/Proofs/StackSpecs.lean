import ManagedMachine.Proofs.Specs

/-!
The operations of the stack as edits: writes and new entries are quiet, and operands come and go one
at a time. `View.Took` says what popping does to the height of the stack and to what the code has
begun, and `View.Rests` what is there when nothing is left half done.
-/

set_option autoImplicit false
set_option relaxedAutoImplicit false

namespace ManagedMachine

open Engine

namespace View

/-- So many operands are gone. -/
structure Took (v v' : View) (n : Nat) : Prop where
  top : v'.stack.top = v.stack.top - n
  fresh : v'.fresh = v.fresh
  pending : v'.pending = v.pending

/-- The operands end at an address, and nothing that was begun is left over. -/
structure Rests (v : View) (a : Nat) : Prop where
  top : v.stack.top = a
  pending : v.pending = []

/-- The operands end at an address or after it, and nothing that was begun is left over. -/
structure Above (v : View) (a : Nat) : Prop where
  top : a ≤ v.stack.top
  pending : v.pending = []

theorem Rests.above {v : View} {a b : Nat} (h : v.Rests a) (hb : b ≤ a) : v.Above b :=
  ⟨h.top ▸ hb, h.pending⟩

/-- The code knows where the slot leads. -/
def Leads (v : View) (s : Slot) : Prop := ∀ a, s.target? = some a → a ∈ v.known

theorem Leads.mono {v v' : View} {s : Slot} (h : v.Leads s) (hk : v.known ⊆ v'.known) :
    v'.Leads s := fun a ha ↦ hk (h a ha)

/-- Numbers and null may be put anywhere. -/
theorem storable_of_numeric (v : View) {s : Slot} (h : s = .null ∨ s.isNumeric = true) :
    v.Storable s := by
  rcases h with rfl | h
  · trivial
  · cases s <;> simp_all [Slot.isNumeric, View.Storable]

end View

theorem Slot.isSimple_of_numeric {s : Slot} (h : s = .null ∨ s.isNumeric = true) :
    s.isSimple = true := by
  rcases h with rfl | h
  · rfl
  · cases s <;> simp_all [Slot.isNumeric, Slot.isSimple]

theorem Scope.Writable.mono {S : Scope} {v v' : View} {a : Nat} (h : S.Writable v a)
    (hk : v.known ⊆ v'.known) (hc : v.cells ⊆ v'.cells) (hs : v'.slot? a = v.slot? a) :
    S.Writable v' a :=
  ⟨hk h.1, h.2.imp id (Or.imp (fun ha ↦ hc ha) fun hslot ↦ hs ▸ hslot)⟩

namespace Spec

variable {α β : Type} {R : View → View → Prop} {S : Scope} {v : View}

/-- An operation of the stack amounts to the edits that account for each of its outcomes. -/
theorem stackOp {x : StackM α} {post : α → View → Prop}
    (hok : ∀ a st, x v.stack = .ok a st → ∃ v', Relation.ReflTransGen R v v' ∧
      v'.run = (v.withStack st).run ∧ post a v')
    (herror : ∀ e st, x v.stack = .error e st → ∃ v', Relation.ReflTransGen R v v' ∧
      v'.run = (v.withStack st).run) : Spec R (Running.onStack x) v post := by
  cases h : x v.stack with
  | ok a st =>
    obtain ⟨v', hR, hrun, hpost⟩ := hok a st h
    refine of_ok ?_ hR hpost
    change x v.run.interpreter.stack = _ at h
    simp only [Running.onStack, h, hrun]
    rfl
  | error e st =>
    obtain ⟨v', hR, hrun⟩ := herror e st h
    refine of_error (e := e) ?_ hR
    change x v.run.interpreter.stack = _ at h
    simp only [Running.onStack, h, hrun]
    rfl

/-! ### Entries and slots -/

theorem pushEntry (x : Value) : Spec (Quiet S) (Running.onStack (Stack.pushEntry x)) v
    fun i v' ↦ v'.own = some i ∧ v'.slot? = v.slot? := by
  refine stackOp (fun i st h ↦ ?_) fun e st h ↦ by cases h
  cases h
  exact ⟨_, .single (.entry x), rfl, rfl, rfl⟩

/-- Overwriting an entry touches no slot. -/
theorem setEntry (i : Nat) (x : Value) :
    Spec (Quiet S) (Running.onStack (Stack.setEntry i x)) v fun _ _ ↦ True := by
  refine stackOp (fun _ st h ↦ ⟨_, .single (.setEntry h), rfl, trivial⟩) fun e st h ↦ ?_
  unfold Stack.setEntry at h
  split at h
  · cases h
  · cases h
    exact ⟨v, .refl, rfl⟩

theorem setSlot_error {a : Nat} {s : Slot} {e : Error} {st st' : Stack}
    (h : Stack.setSlot a s st = .error e st') : st' = st := by
  unfold Stack.setSlot at h
  split at h <;> cases h
  rfl

theorem setSlot {a : Nat} {s : Slot} (ha : S.Writable v a) (hs : v.Storable s)
    (hsimple : s.isSimple = true) :
    Spec (Quiet S) (Running.onStack (Stack.setSlot a s)) v fun _ _ ↦ True := by
  refine stackOp (fun _ st h ↦ ⟨_, .single (.write ha hs hsimple h), rfl, trivial⟩) fun e st h ↦ ?_
  obtain rfl := setSlot_error h
  exact ⟨v, .refl, rfl⟩

theorem hostSlot {a : Nat} {s : Slot} (ha : a ∈ v.known) (hc : a ∈ v.cells) (hs : S.host s) :
    Spec (Quiet S) (Running.onStack (Stack.setSlot a s)) v fun _ _ ↦ True := by
  refine stackOp (fun _ st h ↦ ⟨_, .single (.host ha hc hs h), rfl, trivial⟩) fun e st h ↦ ?_
  obtain rfl := setSlot_error h
  exact ⟨v, .refl, rfl⟩

theorem shareSlot {a b : Nat} {s : Slot} (ha : a ∈ v.known) (hac : a ∈ v.cells) (hb : b ∈ v.known)
    (hbc : b ∈ v.cells) (hs : v.slot? a = some s) (hobject : ∀ i, s ≠ .object i)
    (hblock : ∀ d, s ≠ .block d) (hfresh : v.fresh) :
    Spec (Quiet S) (Running.onStack (Stack.setSlot b s)) v fun _ _ ↦ True := by
  refine stackOp (fun _ st h ↦
    ⟨_, .single (.share ha hac hb hbc hs hobject hblock hfresh h), rfl, trivial⟩) fun e st h ↦ ?_
  obtain rfl := setSlot_error h
  exact ⟨v, .refl, rfl⟩

/-- A reference goes to a location together with an entry of its own. -/
theorem storeRef {a : Nat} {s : Slot} (ha : S.Writable v a) (hs : v.Storable s)
    (href : s.isManagedRef = true) : Spec (Edit S) (Running.onStack (Stack.setSlot a s)) v
      fun _ v' ↦ v'.stack.top = v.stack.top ∧ v'.pending = v.pending := by
  refine stackOp (fun _ st h ↦ ⟨_, .single (.storeRef ha hs href h), rfl, ?_⟩) fun e st h ↦ ?_
  · obtain ⟨-, rfl⟩ := Stack.setSlot_ok h
    exact ⟨rfl, rfl⟩
  · obtain rfl := setSlot_error h
    exact ⟨v, .refl, rfl⟩

/-! ### Operands -/

/-- A slot that the code may store is one operand more. -/
theorem push {s : Slot} (hs : v.Storable s) : Spec (Edit S) (Running.onStack (Stack.push s)) v
    fun _ v' ↦ v'.Rests (v.stack.top + 1) ∧ (s.isManagedRef = false → v.fresh → v'.fresh) := by
  refine stackOp (fun _ st h ↦ ⟨_, .single (.push hs h), rfl, ?_⟩) fun e st h ↦ ?_
  · obtain ⟨-, rfl⟩ := Stack.push_ok h
    exact ⟨⟨rfl, rfl⟩, fun href hfresh ↦ ⟨hfresh, href⟩⟩
  · unfold Stack.push at h
    split at h <;> cases h
    exact ⟨v, .refl, rfl⟩

theorem insert {a : Nat} {s : Slot} (hbottom : S.bottom ≤ a) (hs : v.Storable s) :
    Spec (Edit S) (Running.onStack (Stack.insert a s)) v fun _ v' ↦ v'.Rests (v.stack.top + 1) := by
  refine stackOp (fun _ st h ↦ ⟨_, .single (.insert hbottom hs h), rfl, ?_⟩) fun e st h ↦ ?_
  · exact ⟨Stack.insert_top h, rfl⟩
  · obtain rfl := Stack.insert_error h
    exact ⟨v, .refl, rfl⟩

/-- An operand less, if there is one above the bottom of the frame. -/
theorem pop (hbottom : S.bottom ≤ v.stack.top - 1) :
    Spec (Edit S) (Running.onStack Stack.pop) v fun _ v' ↦ v.Took v' 1 := by
  refine stackOp (fun _ st h ↦ ?_) fun e st h ↦ ?_
  · have hend := endState_ok h
    exact ⟨_, .single (.pop hbottom), by rw [hend], (Stack.popped _).top, rfl, rfl⟩
  · exact ⟨_, .single (.pop hbottom), by rw [endState_error h]⟩

/-! ### Sequences of operations -/

theorem onStack_bind (x : StackM α) (f : α → StackM β) :
    Running.onStack (x >>= f) = Running.onStack x >>= fun a ↦ Running.onStack (f a) := by
  funext ⟨d, id, st, frames⟩
  change Running.onStack (EStateM.bind x f) _ = EStateM.bind (Running.onStack x) _ _
  simp only [EStateM.bind, Running.onStack]
  cases x st <;> rfl

/-- A new entry, and a reference to it on top. -/
theorem pushObject (x : Value) : Spec (Edit S) (Running.onStack (Stack.pushObject x)) v
    fun _ v' ↦ v'.Rests (v.stack.top + 1) ∧ (v.fresh → v'.fresh) := by
  unfold Stack.pushObject
  split
  · exact (push (s := .null) trivial).imp fun _ _ _ h ↦ ⟨h.1, h.2 rfl⟩
  · rw [onStack_bind]
    refine (pushEntry x).quietly fun i v' hlevel hown ↦ ?_
    refine (push (s := .object i) hown.1).imp fun _ v'' _ h ↦ ?_
    exact ⟨⟨by rw [h.1.top, hlevel.top], h.1.pending⟩, fun hfresh ↦ h.2 rfl (hlevel.fresh ▸ hfresh)⟩

/-- So many operands less, as long as all of them are above the bottom. -/
theorem popMany : (n : Nat) → {v : View} → S.bottom ≤ v.stack.top - n →
    Spec (Edit S) (Running.onStack (Stack.popMany n)) v fun _ v' ↦ v.Took v' n
  | 0, _, _ => Spec.pure ⟨rfl, rfl, rfl⟩
  | n + 1, v, hbottom => by
    unfold Stack.popMany
    rw [onStack_bind]
    refine (pop (by omega)).bind fun _ v' _ h ↦ ?_
    have htop := h.top
    refine (popMany n (by omega)).imp fun _ v'' _ h' ↦ ?_
    exact ⟨by rw [h'.top]; omega, h'.fresh.trans h.fresh, h'.pending.trans h.pending⟩

/-- Down to an address of the frame. -/
theorem popTo {a : Nat} (hbottom : S.bottom ≤ a) :
    Spec (Edit S) (Running.onStack (Stack.popTo a)) v
      fun _ v' ↦ v'.stack.top = a ∧ v'.fresh = v.fresh ∧ v'.pending = v.pending := by
  by_cases ha : v.stack.top < a
  · refine stackOp (fun _ st h ↦ ?_) fun e st h ↦ ?_
    · rw [Stack.popTo, if_pos ha] at h
      cases h
    · rw [Stack.popTo, if_pos ha] at h
      cases h
      exact ⟨v, .refl, rfl⟩
  · have hpop : Running.onStack (Stack.popTo a) v.run =
        Running.onStack (Stack.popMany (v.stack.top - a)) v.run := by
      have hstack : Stack.popTo a v.run.interpreter.stack =
          Stack.popMany (v.stack.top - a) v.run.interpreter.stack := if_neg ha
      simp only [Running.onStack, hstack]
    have hmany := popMany (S := S) (v.stack.top - a) (v := v) (by omega)
    unfold Spec at hmany ⊢
    rw [hpop]
    refine Spec.imp (x := Running.onStack (Stack.popMany (v.stack.top - a))) hmany fun _ v' _ h ↦ ?_
    exact ⟨by rw [h.top]; omega, h.fresh, h.pending⟩

/-- A value goes into the entry of the location, or into a new one. -/
theorem storeObject {a : Nat} (ha : S.Writable v a) (current : Slot) (x : Value) :
    Spec (Quiet S) (Running.onStack (storeObject a current x)) v fun _ _ ↦ True := by
  have hnew : Spec (Quiet S) (Running.onStack (if x.isNull then Stack.setSlot a .null else do
      let i ← Stack.pushEntry x
      Stack.setSlot a (.object i))) v fun _ _ ↦ True := by
    split
    · exact setSlot ha trivial rfl
    · rw [onStack_bind]
      refine (pushEntry x).quietly fun i v' hlevel h ↦ ?_
      exact setSlot (ha.mono hlevel.known hlevel.cells (congrFun h.2 a)) h.1 rfl
  unfold Engine.storeObject
  cases current with
  | object i => exact setEntry i x
  | _ => exact hnew

end Spec

end ManagedMachine
