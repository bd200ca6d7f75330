import ManagedMachine.Engine.Run
import ManagedMachine.Proofs.DomainGrowth
import ManagedMachine.Proofs.StackOperations
import Mathlib.Data.Set.Insert
import Mathlib.Logic.Relation

/-!
# What running code can do to a stack

Everything between two instructions of a frame comes down to a few elementary edits of the machine.
`Quiet` has those that leave both ends of the stack where they are: work on the domain, writes to
slots, and new entries. `Build` adds the allocation of blocks and `Edit` the operands and calls. An
invariant that each of them preserves holds wherever the engine gets to.

The edits work on a `View`: the machine together with a record of what the code has come to know.
Code learns an address from a slot that it may read already, and it writes only to addresses that it
knows; a slot that is written owns the entry that was made for it last, or none. The record has no
counterpart in the machine. It is what the invariants speak about.

The lemmas of the first part say what all edits of a kind leave alone (`Quiet.level`,
`Build.raised`, `Edit.domain`). They are what an invariant usually needs to know of an edit, so a
proof about invariants rarely looks at the single kinds of edits.
-/

set_option autoImplicit false
set_option relaxedAutoImplicit false

namespace ManagedMachine

namespace Slot

/-- References that keep a managed entry alive. -/
def isManagedRef : Slot → Bool
  | fieldRef .. | elementRef .. => true
  | _ => false

/-- Whether the slot stands for a block. -/
def isHeader : Slot → Bool
  | header .. => true
  | _ => false

/-- Slots that stand for a number, an object or an address that needs no entry. -/
def isSimple : Slot → Bool
  | fieldRef .. | elementRef .. | block _ | header .. => false
  | _ => true

/-- The slot that a slot leads to. -/
def target? : Slot → Option Nat
  | stackRef a | block a => some a
  | _ => none

end Slot

/-! ### Views -/

/-- A machine with what the code that runs on it knows and has begun. -/
structure View where
  run : Running
  /-- The addresses that the code may use. -/
  known : Set Nat
  /-- Addresses among them that are fields of blocks. -/
  cells : Set Nat
  /-- The latest entry, as long as no slot owns it. -/
  own : Option Nat
  /-- The blocks that no slot points at yet, the innermost first. -/
  pending : List Nat
  /-- No reference to a field or an element was stored, no operand moved, and no method was
  called. -/
  fresh : Prop

namespace View

def stack (v : View) : Stack := v.run.stack

def domain (v : View) : Domain := v.run.domain

def slot? (v : View) (a : Nat) : Option Slot := v.stack.slots[a]?

def withDomain (v : View) (d : Domain) : View := { v with run := { v.run with domain := d } }

def withStack (v : View) (s : Stack) : View :=
  { v with run := { v.run with interpreter := { v.run.interpreter with stack := s } } }

/-- The code finds out an address. -/
def learn (v : View) (a : Nat) : View := { v with known := insert a v.known }

@[simp] theorem withDomain_stack (v : View) (d : Domain) : (v.withDomain d).stack = v.stack := rfl

@[simp] theorem withDomain_domain (v : View) (d : Domain) : (v.withDomain d).domain = d := rfl

@[simp] theorem withStack_stack (v : View) (s : Stack) : (v.withStack s).stack = s := rfl

@[simp] theorem withStack_domain (v : View) (s : Stack) : (v.withStack s).domain = v.domain := rfl

@[simp] theorem withStack_run (v : View) (s : Stack) : (v.withStack s).run.stack = s := rfl

@[simp] theorem withStack_run_domain (v : View) (s : Stack) :
    (v.withStack s).run.domain = v.domain := rfl

@[simp] theorem stack_mk (r : Running) (known cells : Set Nat) (own : Option Nat)
    (pending : List Nat) (fresh : Prop) :
    (View.mk r known cells own pending fresh).stack = r.stack := rfl

@[simp] theorem domain_mk (r : Running) (known cells : Set Nat) (own : Option Nat)
    (pending : List Nat) (fresh : Prop) :
    (View.mk r known cells own pending fresh).domain = r.domain := rfl

@[simp] theorem withStack_self (v : View) : v.withStack v.stack = v := rfl

@[simp] theorem withDomain_self (v : View) : v.withDomain v.domain = v := rfl

/-- Some block of the type is known to have that many fields. -/
def Sizes (v : View) (t : TypeId) (k : Nat) : Prop :=
  (∃ d, v.slot? d = some (.header t k)) ∨ v.domain.fieldCount? t = some k

/-- The code may put the slot somewhere: it leads to what is known, or owns what was made last. -/
def Storable (v : View) : Slot → Prop
  | .object i | .fieldRef i _ | .elementRef i _ => v.own = some i
  | .stackRef a => a ∈ v.known
  | .block d => v.pending = [d]
  | .header .. => False
  | _ => True

end View

/-- Where code runs: the address below which it takes no operands, the arguments and locals of its
frame, the slots that host code may write to the fields of a receiver, and what a call does. -/
structure Scope where
  bottom : Nat
  frame : Set Nat
  host : Slot → Prop
  call : MethodId → Nat → View → View → Prop

/-- No header is overwritten: the slot is one of the frame or of a block, or it is no header. -/
def Scope.Writable (S : Scope) (v : View) (a : Nat) : Prop :=
  a ∈ v.known ∧ (a ∈ S.frame ∨ a ∈ v.cells ∨ ∃ s, v.slot? a = some s ∧ s.isHeader = false)

/-! ### Edits -/

/-- The edits that leave both ends of the stack in place. -/
inductive Quiet (S : Scope) : View → View → Prop
  | domain {v : View} {d : Domain} (hd : v.domain.Extends d) : Quiet S v (v.withDomain d)
  | follow {v : View} {a b : Nat} {s : Slot} (ha : a ∈ v.known) (hs : v.slot? a = some s)
      (hb : s.target? = some b) : Quiet S v (v.learn b)
  | cell {v : View} {d n k i : Nat} {t : TypeId} (hd : d ∈ v.known)
      (hs : v.slot? d = some (.header t n)) (hk : v.Sizes t k) (hi : i < k) :
      Quiet S v { v.learn (d - 1 - i) with cells := insert (d - 1 - i) v.cells }
  | entry {v : View} (x : Value) :
      Quiet S v { v.withStack { v.stack with managed := v.stack.managed.push x } with
        own := some v.stack.managed.size }
  | setEntry {v : View} {i : Nat} {x : Value} {st : Stack}
      (h : Stack.setEntry i x v.stack = .ok () st) : Quiet S v (v.withStack st)
  | write {v : View} {a : Nat} {s : Slot} {st : Stack} (ha : S.Writable v a) (hs : v.Storable s)
      (hsimple : s.isSimple = true) (h : Stack.setSlot a s v.stack = .ok () st) :
      Quiet S v { v.withStack st with own := none }
  | host {v : View} {a : Nat} {s : Slot} {st : Stack} (ha : a ∈ v.known) (hc : a ∈ v.cells)
      (hs : S.host s) (h : Stack.setSlot a s v.stack = .ok () st) : Quiet S v (v.withStack st)
  /-- The field of a block copied as it is. -/
  | share {v : View} {a b : Nat} {s : Slot} {st : Stack} (ha : a ∈ v.known) (hac : a ∈ v.cells)
      (hb : b ∈ v.known) (hbc : b ∈ v.cells) (hs : v.slot? a = some s)
      (hobject : ∀ i, s ≠ .object i) (hblock : ∀ d, s ≠ .block d) (hfresh : v.fresh)
      (h : Stack.setSlot b s v.stack = .ok () st) : Quiet S v (v.withStack st)

/-- The edits that leave the operands in place. -/
inductive Build (S : Scope) : View → View → Prop
  | quiet {v v' : View} (h : Quiet S v v') : Build S v v'
  | alloc {v : View} {t : TypeId} {n d : Nat} {st : Stack} (hn : v.domain.fieldCount? t = some n)
      (h : Stack.allocBlock t n v.stack = .ok d st) :
      Build S v { v.withStack st with
        known := v.known ∪ {a | st.low ≤ a ∧ a < v.stack.low}
        cells := {a ∈ v.cells | v.stack.low ≤ a} ∪ {a | st.low ≤ a ∧ a < d}
        pending := d :: v.pending }
  /-- A new block becomes a field of the one around it. -/
  | nest {v : View} {a e d : Nat} {rest : List Nat} {st : Stack} (hp : v.pending = e :: d :: rest)
      (hlow : v.stack.low ≤ a) (hea : e < a) (had : a < d) (ha : a ∈ v.known) (hc : a ∈ v.cells)
      (h : Stack.setSlot a (.block e) v.stack = .ok () st) :
      Build S v { v.withStack st with pending := d :: rest }

/-- Everything an instruction may do. -/
inductive Edit (S : Scope) : View → View → Prop
  | build {v v' : View} (h : Build S v v') : Edit S v v'
  /-- What was begun is left as it is. -/
  | drop {v : View} : Edit S v { v with own := none, pending := [] }
  | storeRef {v : View} {a : Nat} {s : Slot} {st : Stack} (ha : S.Writable v a) (hs : v.Storable s)
      (href : s.isManagedRef = true) (h : Stack.setSlot a s v.stack = .ok () st) :
      Edit S v { v.withStack st with own := none, fresh := False }
  | push {v : View} {s : Slot} {st : Stack} (hs : v.Storable s)
      (h : Stack.push s v.stack = .ok () st) :
      Edit S v { v.withStack st with
        known := insert v.stack.top v.known
        own := none
        pending := []
        fresh := v.fresh ∧ s.isManagedRef = false }
  | insert {v : View} {a : Nat} {s : Slot} {st : Stack} (hbottom : S.bottom ≤ a) (hs : v.Storable s)
      (h : Stack.insert a s v.stack = .ok () st) :
      Edit S v { v.withStack st with
        known := insert v.stack.top v.known
        own := none
        pending := []
        fresh := False }
  | pop {v : View} (hbottom : S.bottom ≤ v.stack.top - 1) :
      Edit S v (v.withStack (endState Stack.pop v.stack))
  /-- The object on top becomes a reference into it. -/
  | retag {v : View} {i : Nat} {s : Slot} {st : Stack} (htop : 0 < v.stack.top)
      (hbottom : S.bottom ≤ v.stack.top - 1) (hobject : v.slot? (v.stack.top - 1) =
        some (.object i))
      (hs : s.entry? = some i) (href : s.isManagedRef = true)
      (h : Stack.setSlot (v.stack.top - 1) s v.stack = .ok () st) :
      Edit S v { v.withStack st with fresh := False }
  | call {v v' : View} {id : MethodId} {a : Nat} (hbottom : S.bottom ≤ a)
      (h : S.call id a v v') (hdomain : v.domain.Extends v'.domain) (hknown : v.known ⊆ v'.known)
      (htop : v'.stack.top ≤ v.stack.top) (hover : S.bottom ≤ v'.stack.top) :
      Edit S v { v' with cells := ∅, own := none, pending := [], fresh := False }

/-- Any number of quiet edits. -/
abbrev Quiets (S : Scope) : View → View → Prop := Relation.ReflTransGen (Quiet S)

/-- Any number of edits that build blocks. -/
abbrev Builds (S : Scope) : View → View → Prop := Relation.ReflTransGen (Build S)

/-- Any number of edits. -/
abbrev Edits (S : Scope) : View → View → Prop := Relation.ReflTransGen (Edit S)

variable {S : Scope} {v v' : View}

theorem Quiets.builds (h : Quiets S v v') : Builds S v v' :=
  Relation.ReflTransGen.mono (fun _ _ ↦ Build.quiet) _ _ h

theorem Builds.edits (h : Builds S v v') : Edits S v v' :=
  Relation.ReflTransGen.mono (fun _ _ ↦ Edit.build) _ _ h

theorem Quiets.edits (h : Quiets S v v') : Edits S v v' := h.builds.edits

/-! ### What edits leave as it is -/

namespace View

/-- Both ends of the stack and what the code has begun are where they were. -/
structure Level (v v' : View) : Prop where
  top : v'.stack.top = v.stack.top
  low : v'.stack.low = v.stack.low
  base : v'.stack.base = v.stack.base
  floor : v'.stack.floor = v.stack.floor
  size : v'.stack.slots.size = v.stack.slots.size
  entries : v.stack.entries ≤ v'.stack.entries
  frames : v'.run.interpreter.frames = v.run.interpreter.frames
  pending : v'.pending = v.pending
  fresh : v'.fresh = v.fresh
  known : v.known ⊆ v'.known
  cells : v.cells ⊆ v'.cells
  domain : v.domain.Extends v'.domain

theorem Level.refl (v : View) : v.Level v :=
  ⟨rfl, rfl, rfl, rfl, rfl, Nat.le_refl _, rfl, rfl, rfl, subset_rfl, subset_rfl, .refl _⟩

theorem Level.trans {v v' v'' : View} (h : v.Level v') (h' : v'.Level v'') : v.Level v'' :=
  ⟨h'.top.trans h.top, h'.low.trans h.low, h'.base.trans h.base, h'.floor.trans h.floor,
    h'.size.trans h.size, h.entries.trans h'.entries, h'.frames.trans h.frames,
    h'.pending.trans h.pending, h'.fresh.trans h.fresh, h.known.trans h'.known,
    h.cells.trans h'.cells, h.domain.trans h'.domain⟩

/-- Only blocks were allocated. -/
structure Raised (v v' : View) : Prop where
  top : v'.stack.top = v.stack.top
  low : v'.stack.low ≤ v.stack.low
  base : v'.stack.base = v.stack.base
  floor : v'.stack.floor = v.stack.floor
  size : v'.stack.slots.size = v.stack.slots.size
  entries : v.stack.entries ≤ v'.stack.entries
  frames : v'.run.interpreter.frames = v.run.interpreter.frames
  fresh : v'.fresh = v.fresh
  known : v.known ⊆ v'.known
  cells : ∀ a ∈ v.cells, v.stack.low ≤ a → a ∈ v'.cells
  domain : v.domain.Extends v'.domain

theorem Raised.refl (v : View) : v.Raised v :=
  ⟨rfl, Nat.le_refl _, rfl, rfl, rfl, Nat.le_refl _, rfl, rfl, subset_rfl, fun _ h _ ↦ h, .refl _⟩

theorem Raised.trans {v v' v'' : View} (h : v.Raised v') (h' : v'.Raised v'') : v.Raised v'' :=
  ⟨h'.top.trans h.top, h'.low.trans h.low, h'.base.trans h.base, h'.floor.trans h.floor,
    h'.size.trans h.size, h.entries.trans h'.entries, h'.frames.trans h.frames,
    h'.fresh.trans h.fresh, h.known.trans h'.known,
    fun a ha hlow ↦ h'.cells a (h.cells a ha hlow) (h.low.trans hlow), h.domain.trans h'.domain⟩

theorem Level.raised {v v' : View} (h : v.Level v') : v.Raised v' :=
  ⟨h.top, h.low.le, h.base, h.floor, h.size, h.entries, h.frames, h.fresh, h.known,
    fun _ ha _ ↦ h.cells ha, h.domain⟩

/-- A step that changes no more than slots and entries of the stack. -/
theorem Level.of_stack {v : View} {st : Stack} {own : Option Nat} (htop : st.top = v.stack.top)
    (hlow : st.low = v.stack.low) (hbase : st.base = v.stack.base)
    (hfloor : st.floor = v.stack.floor) (hsize : st.slots.size = v.stack.slots.size)
    (hentries : v.stack.entries ≤ st.entries) : v.Level { v.withStack st with own } :=
  ⟨htop, hlow, hbase, hfloor, hsize, hentries, rfl, rfl, rfl, subset_rfl, subset_rfl, .refl _⟩

theorem Level.of_setSlot {v : View} {a : Nat} {s : Slot} {st : Stack} {own : Option Nat}
    (h : Stack.setSlot a s v.stack = .ok () st) : v.Level { v.withStack st with own } := by
  obtain ⟨-, rfl⟩ := Stack.setSlot_ok h
  exact .of_stack rfl rfl rfl rfl (by simp) (Nat.le_refl _)

end View

/-- Quiet edits keep both ends of the stack. -/
theorem Quiet.level (h : Quiet S v v') : v.Level v' := by
  cases h with
  | domain hd =>
    exact ⟨rfl, rfl, rfl, rfl, rfl, Nat.le_refl _, rfl, rfl, rfl, subset_rfl, subset_rfl, hd⟩
  | follow ha hs hb =>
    exact ⟨rfl, rfl, rfl, rfl, rfl, Nat.le_refl _, rfl, rfl, rfl, Set.subset_insert _ _, subset_rfl,
      .refl _⟩
  | cell hd hs hk hi =>
    exact ⟨rfl, rfl, rfl, rfl, rfl, Nat.le_refl _, rfl, rfl, rfl, Set.subset_insert _ _,
      Set.subset_insert _ _, .refl _⟩
  | entry x => exact .of_stack rfl rfl rfl rfl rfl (by simp [Stack.entries])
  | setEntry h =>
    obtain ⟨-, rfl⟩ := Stack.setEntry_ok h
    exact .of_stack rfl rfl rfl rfl rfl (by simp [Stack.entries])
  | write ha hs hsimple h => exact .of_setSlot h
  | host ha hc hs h => exact .of_setSlot h
  | share ha hac hb hbc hs hobject hblock hfresh h => exact .of_setSlot h

theorem Quiets.level (h : Quiets S v v') : v.Level v' := by
  induction h with
  | refl => exact .refl _
  | tail _ h ih => exact ih.trans h.level

/-- Building lowers the address at which blocks begin, and nothing else. -/
theorem Build.raised (h : Build S v v') : v.Raised v' := by
  cases h with
  | quiet h => exact h.level.raised
  | alloc hn h =>
    obtain ⟨-, rfl, rfl⟩ := Stack.allocBlock_ok h
    exact ⟨rfl, by simp; omega, rfl, rfl, by simp, Nat.le_refl _, rfl, rfl, Set.subset_union_left,
      fun a ha hlow ↦ Or.inl ⟨ha, hlow⟩, .refl _⟩
  | nest hp hlow hea had ha hc h =>
    have hlevel : v.Level { v.withStack _ with own := v.own } := .of_setSlot h
    exact ⟨hlevel.top, hlevel.low.le, hlevel.base, hlevel.floor, hlevel.size, hlevel.entries,
      hlevel.frames, hlevel.fresh, hlevel.known, fun a ha _ ↦ hlevel.cells ha, hlevel.domain⟩

theorem Builds.raised (h : Builds S v v') : v.Raised v' := by
  induction h with
  | refl => exact .refl _
  | tail _ h ih => exact ih.trans h.raised

/-- What code knows it does not forget. -/
theorem Edit.known (h : Edit S v v') : v.known ⊆ v'.known := by
  cases h with
  | build h => exact h.raised.known
  | push hs h => exact Set.subset_insert _ _
  | insert hbottom hs h => exact Set.subset_insert _ _
  | call hbottom h hdomain hknown htop hover => exact hknown
  | _ => exact subset_rfl

theorem Edits.known (h : Edits S v v') : v.known ⊆ v'.known := by
  induction h with
  | refl => exact subset_rfl
  | tail _ h ih => exact ih.trans h.known

/-- All edits keep the domain or extend it. -/
theorem Edit.domain (h : Edit S v v') : v.domain.Extends v'.domain := by
  cases h with
  | build h => exact h.raised.domain
  | call hbottom h hdomain hknown htop hover => exact hdomain
  | _ => exact .refl _

theorem Edits.domain (h : Edits S v v') : v.domain.Extends v'.domain := by
  induction h with
  | refl => exact .refl _
  | tail _ h ih => exact ih.trans h.domain

/-! ### Operands -/

/-- The code knows where its operands lie. -/
def Scope.Covers (S : Scope) (v : View) : Prop := ∀ a, S.bottom ≤ a → a < v.stack.top → a ∈ v.known

/-- An edit keeps to what the scope covers. -/
theorem Edit.covers (h : Edit S v v') (hv : S.Covers v) : S.Covers v' := by
  cases h with
  | build h =>
    intro a hbottom ha
    rw [h.raised.top] at ha
    exact h.raised.known (hv a hbottom ha)
  | drop => exact hv
  | storeRef ha hs href h =>
    obtain ⟨-, rfl⟩ := Stack.setSlot_ok h
    exact hv
  | push hs h =>
    obtain ⟨-, rfl⟩ := Stack.push_ok h
    intro a hbottom ha
    replace ha : a < v.stack.top + 1 := ha
    rcases Nat.lt_succ_iff_lt_or_eq.mp ha with ha | rfl
    · exact Or.inr (hv a hbottom ha)
    · exact Or.inl rfl
  | insert hbottom hs h =>
    have htop := Stack.insert_top h
    intro a hbottom ha
    simp only [View.stack_mk, View.withStack_run, htop] at ha
    rcases Nat.lt_succ_iff_lt_or_eq.mp ha with ha | rfl
    · exact Or.inr (hv a hbottom ha)
    · exact Or.inl rfl
  | pop hbottom =>
    intro a hbottom ha
    rw [View.withStack_stack, (Stack.popped _).top] at ha
    exact hv a hbottom (by omega)
  | retag htop hbottom hobject hs href h =>
    obtain ⟨-, rfl⟩ := Stack.setSlot_ok h
    exact hv
  | call hbottom h hdomain hknown htop hover =>
    intro a hbottom ha
    exact hknown (hv a hbottom (Nat.lt_of_lt_of_le ha htop))

theorem Edits.covers (h : Edits S v v') (hv : S.Covers v) : S.Covers v' := by
  induction h with
  | refl => exact hv
  | tail _ h ih => exact h.covers ih

/-- The operands of the frames below stay. -/
theorem Edit.bottom_le (h : Edit S v v') (hv : S.bottom ≤ v.stack.top) :
    S.bottom ≤ v'.stack.top := by
  cases h with
  | build h => rwa [h.raised.top]
  | drop => exact hv
  | storeRef ha hs href h =>
    obtain ⟨-, rfl⟩ := Stack.setSlot_ok h
    exact hv
  | push hs h =>
    obtain ⟨-, rfl⟩ := Stack.push_ok h
    exact Nat.le_trans hv (Nat.le_succ _)
  | insert hbottom hs h =>
    simp only [View.stack_mk, View.withStack_run, Stack.insert_top h]
    exact Nat.le_succ_of_le hv
  | pop hbottom =>
    rw [View.withStack_stack, (Stack.popped _).top]
    exact hbottom
  | retag htop hbottom hobject hs href h =>
    obtain ⟨-, rfl⟩ := Stack.setSlot_ok h
    exact hv
  | call hbottom h hdomain hknown htop hover => exact hover

theorem Edits.bottom_le (h : Edits S v v') (hv : S.bottom ≤ v.stack.top) :
    S.bottom ≤ v'.stack.top := by
  induction h with
  | refl => exact hv
  | tail _ h ih => exact h.bottom_le ih

end ManagedMachine
