import ManagedMachine.Engine.Transfer
import ManagedMachine.Proofs.Keeping

/-!
# Runs that succeed

`Succeeds x s Q` says that `x` succeeds in the state `s` and that `Q` holds of its result and of the
state in which it ends. The rules here take a run apart along the monad: what only looks at the
machine leaves the state alone, and an operation of the stack or of the domain ends in a state that
differs in that part only.
-/

set_option autoImplicit false
set_option relaxedAutoImplicit false

namespace ManagedMachine

open Engine

/-- The computation succeeds in this state, and what is asked of its result and of the state in
which it ends is the case. -/
def Succeeds {ε σ α : Type} (x : EStateM ε σ α) (s : σ) (Q : α → σ → Prop) : Prop :=
  ∃ a t, x s = .ok a t ∧ Q a t

namespace Running

/-- The machine with another stack. -/
def withStack (r : Running) (s : Stack) : Running :=
  { r with interpreter := { r.interpreter with stack := s } }

/-- The machine with another domain. -/
def withDomain (r : Running) (d : Domain) : Running := { r with domain := d }

@[simp] theorem withStack_stack (r : Running) (s : Stack) : (r.withStack s).stack = s := rfl

@[simp] theorem withStack_domain (r : Running) (s : Stack) :
    (r.withStack s).domain = r.domain := rfl

@[simp] theorem withDomain_stack (r : Running) (d : Domain) :
    (r.withDomain d).stack = r.stack := rfl

@[simp] theorem withDomain_domain (r : Running) (d : Domain) : (r.withDomain d).domain = d := rfl

/-- Operations of the stack leave the domain alone. -/
theorem onStack_ok {α : Type} {x : StackM α} {r : Running} {a : α} {s : Stack}
    (h : x r.stack = .ok a s) : onStack x r = .ok a (r.withStack s) := by
  change x r.interpreter.stack = _ at h
  unfold onStack
  simp only [h]
  rfl

theorem onStack_error {α : Type} {x : StackM α} {r : Running} {e : Error} {s : Stack}
    (h : x r.stack = .error e s) : onStack x r = .error e (r.withStack s) := by
  change x r.interpreter.stack = _ at h
  unfold onStack
  simp only [h]
  rfl

/-- The same of the state in which they end, however they do. -/
theorem endState_onStack {α : Type} (x : StackM α) (r : Running) :
    endState (onStack x) r = r.withStack (endState x r.stack) := by
  cases h : x r.stack with
  | ok a s => rw [endState_ok (onStack_ok h), endState_ok h]
  | error e s => rw [endState_error (onStack_error h), endState_error h]

/-- Work on the domain leaves the stack alone. -/
theorem onDomain_ok {α : Type} {x : DomainM α} {r : Running} {a : α} {d : Domain}
    (h : x r.domain = .ok a d) : onDomain x r = .ok a (r.withDomain d) := by
  unfold onDomain
  simp only [h]
  rfl

theorem onDomain_error {α : Type} {x : DomainM α} {r : Running} {e : Error} {d : Domain}
    (h : x r.domain = .error e d) : onDomain x r = .error e (r.withDomain d) := by
  unfold onDomain
  simp only [h]
  rfl

end Running

theorem Engine.descriptor_ok (t : TypeId) (r : Running) :
    descriptor t r = .ok (r.domain.registry.type t) r := rfl

namespace Succeeds

section Monad

variable {ε σ α β γ : Type} {x : EStateM ε σ α} {f : α → EStateM ε σ β} {s t : σ} {a : α}
  {Q Q' : α → σ → Prop} {P : β → σ → Prop}

theorem of_ok (h : x s = .ok a t) (hQ : Q a t) : Succeeds x s Q := ⟨a, t, h, hQ⟩

theorem pure (h : Q a s) : Succeeds (Pure.pure a : EStateM ε σ α) s Q := ⟨a, s, rfl, h⟩

theorem congr {y : EStateM ε σ α} (hxy : x s = y t) (h : Succeeds y t Q) : Succeeds x s Q :=
  let ⟨a, u, hy, hQ⟩ := h
  ⟨a, u, hxy.trans hy, hQ⟩

theorem imp (h : Succeeds x s Q) (hQ : ∀ a t, Q a t → Q' a t) : Succeeds x s Q' :=
  let ⟨a, t, hx, ha⟩ := h
  ⟨a, t, hx, hQ a t ha⟩

/-- One after the other, with what is known in between. -/
theorem bind (h : Succeeds x s Q) (hf : ∀ a t, Q a t → Succeeds (f a) t P) :
    Succeeds (x >>= f) s P := by
  obtain ⟨a, t, hx, ha⟩ := h
  obtain ⟨b, u, hb, hP⟩ := hf a t ha
  exact ⟨b, u, (bind_of_ok hx).trans hb, hP⟩

theorem bind_ok (h : x s = .ok a t) (hf : Succeeds (f a) t P) : Succeeds (x >>= f) s P :=
  bind (of_ok (Q := fun b u ↦ b = a ∧ u = t) h ⟨rfl, rfl⟩) fun _ _ ⟨hb, hu⟩ ↦ hb ▸ hu ▸ hf

theorem forM_cons {g : γ → EStateM ε σ PUnit} {c : γ} {cs : List γ} {P : PUnit → σ → Prop}
    (h : Succeeds (g c) s fun _ t ↦ Succeeds (cs.forM g) t P) : Succeeds ((c :: cs).forM g) s P :=
  h.bind fun _ _ ht ↦ ht

end Monad

section Engine

variable {α β : Type} {r : Running} {Q : α → Running → Prop} {P : β → Running → Prop} {a : α}

theorem read {query : Stack → Except Error α} {f : α → RunM β} (h : query r.stack = .ok a)
    (hf : Succeeds (f a) r P) : Succeeds (Engine.read query >>= f) r P :=
  bind_ok (by rw [Engine.read, h]) hf

theorem of_stack {x : StackM α} {s : Stack} (h : x r.stack = .ok a s) (hQ : Q a (r.withStack s)) :
    Succeeds (Running.onStack x) r Q := of_ok (Running.onStack_ok h) hQ

/-- What is known of the domain, for the machine. -/
theorem domain {x : DomainM α} {D : α → Domain → Prop} (h : Succeeds x r.domain D)
    (hQ : ∀ a d, D a d → Q a (r.withDomain d)) : Succeeds (Running.onDomain x) r Q := by
  obtain ⟨a, d, hx, hD⟩ := h
  exact of_ok (Running.onDomain_ok hx) (hQ a d hD)

end Engine

end Succeeds

namespace Stack

variable {s : Stack} {a i : Nat} {x : Slot} {v : Value}

theorem slotAt_of_some (h : s.slots[a]? = some x) : s.slotAt a = .ok x := by
  rw [slotAt, h]

theorem entry_of_some (h : s.managed[i]? = some v) : s.entry i = .ok v := by
  rw [entry, h]

/-- A header that is there is read. -/
theorem header_of_some {t : TypeId} {n : Nat} (h : s.slots[a]? = some (.header t n)) :
    s.header a = .ok (t, n) := by
  rw [header, slotAt_of_some h]
  rfl

theorem setSlot_of_lt (h : a < s.slots.size) :
    setSlot a x s = .ok () { s with slots := s.slots.setIfInBounds a x } := by
  rw [setSlot, if_pos h]

theorem setEntry_of_lt (h : i < s.managed.size) :
    setEntry i v s = .ok () { s with managed := s.managed.setIfInBounds i v } := by
  rw [setEntry, if_pos h]

/-- The stack with one more operand. -/
def pushed (x : Slot) (s : Stack) : Stack :=
  { s with slots := s.slots.setIfInBounds s.top x, top := s.top + 1 }

theorem push_of_lt (h : s.top < s.low) : push x s = .ok () (s.pushed x) :=
  if_neg (Nat.not_le.mpr h)

theorem topSlot_pushed (h : s.top < s.slots.size) : (s.pushed x).topSlot = .ok x := by
  have htop : (s.pushed x).topAddr = .ok s.top := if_neg (Nat.succ_ne_zero _)
  rw [topSlot, htop]
  exact slotAt_of_some (Array.getElem?_setIfInBounds_self_of_lt h)

end Stack

end ManagedMachine
