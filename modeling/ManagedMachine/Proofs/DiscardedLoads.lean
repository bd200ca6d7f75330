import ManagedMachine.Proofs.BlockOwnership
import ManagedMachine.Proofs.Locations

/-!
# Loads that are discarded

A copy of an argument, a local or the top operand that is popped at once gives its operand slot, its
entry and its blocks back. The entries of a struct are another matter. Making the struct numbers
them in the order of the fields, with the fields of a nested struct where its field stands, and
freeing it goes through the slots from the lowest address up, which meets the fields of nested
structs before all others. An entry is given up only while it is the last one, so all of them go
exactly if no field that owns an entry comes after a field whose struct owns some
(`Content.isTidy`).

The loads are those of a stack that is inside the bounds of its frame (`Running.Seated`), which it
is at every instruction of every run (`Engine.seated_along`).
-/

set_option autoImplicit false
set_option relaxedAutoImplicit false

namespace ManagedMachine

open Engine

/-! ### The order of entries -/

namespace Content

end Content

namespace Storage

/-- The entries that the fields themselves own. -/
def own : Storage → List Nat
  | nil => []
  | plain rest => rest.own
  | entry i rest => i :: rest.own
  | block _ _ rest => rest.own

/-- The entries in the structs that the fields point at, a struct before those in its fields. -/
def nested : Storage → List Nat
  | nil => []
  | plain rest => rest.nested
  | entry _ rest => rest.nested
  | block _ inner rest => (inner.own ++ inner.nested) ++ rest.nested

variable {st : Storage} {c : Content}

end Storage

/-! ### Giving entries up -/

namespace Stack

/-- At most entries from `n` on are gone. -/
structure Trims (n : Nat) (s s' : Stack) : Prop where
  same : s' = { s with managed := s'.managed }
  le : n ≤ s'.managed.size
  entry : ∀ i < n, s'.managed[i]? = s.managed[i]?

variable {n i : Nat} {s s' s'' : Stack} {l : List Nat}

theorem Trims.refl (h : n ≤ s.managed.size) : s.Trims n s := ⟨rfl, h, fun _ _ ↦ rfl⟩

/-- What is given up in two goes. -/
theorem Trims.trans (h : s.Trims n s') (h' : s'.Trims n s'') : s.Trims n s'' where
  same := by rw [h'.same, h.same]
  le := h'.le
  entry i hi := (h'.entry i hi).trans (h.entry i hi)

/-- The entry that the slot at an address owns. -/
def entryAt (s : Stack) (a : Nat) : Option Nat := Slot.entry? (s.slots.getD a .null)

theorem entryAt_of_some {a : Nat} {x : Slot} (h : s.slots[a]? = some x) :
    s.entryAt a = x.entry? := by
  rw [entryAt, Array.getD_eq_getD_getElem?, h, Option.getD_some]

end Stack

/-! ### Freeing a struct -/

namespace Running

open Stack

variable {r : Running} {a n high low d : Nat} {t : TypeId} {st : Storage} {c : Content}

end Running

/-! ### Operands that come and go -/

namespace Stack

/-- One operand was pushed that points at no block, with a new entry if it owns one. -/
inductive Topped (s : Stack) : Stack → Prop
  | plain {y : Slot} (hy : y.entry? = none) (hblock : ∀ d, y ≠ .block d) : Topped s (s.pushed y)
  | entry {y : Slot} {v : Value} (hy : y.entry? = some s.managed.size)
      (hblock : ∀ d, y ≠ .block d) :
    Topped s ({ s with managed := s.managed.push v }.pushed y)

variable {s s' : Stack} {y : Slot}

theorem topAddr_pushed (s : Stack) (y : Slot) : (s.pushed y).topAddr = .ok s.top :=
  if_neg (Nat.succ_ne_zero _)

theorem getD_pushed (htop : s.top < s.slots.size) (y : Slot) :
    (s.pushed y).slots.getD s.top .null = y := by
  have hslot : (s.pushed y).slots[s.top]? = some y := Array.getElem?_setIfInBounds_self_of_lt htop
  rw [Array.getD_eq_getD_getElem?, hslot, Option.getD_some]

/-- Popping what was pushed releases its entry and leaves the rest of the stack. -/
theorem pop_pushed (htop : s.top < s.slots.size) (hblock : ∀ d, y ≠ .block d) :
    pop (s.pushed y) =
      .ok () (releaseSlotEntry y { s with slots := s.slots.setIfInBounds s.top y }) := by
  unfold pop
  rw [topAddr_pushed]
  dsimp only
  rw [getD_pushed htop]
  unfold release
  cases y with
  | block d => exact absurd rfl (hblock d)
  | _ => rfl

/-- A new operand takes its entry along when it is popped. -/
theorem Topped.pop (h : s.Topped s') (htop : s.top < s.slots.size)
    (hfloor : s.floor ≤ s.managed.size) :
    ∃ y, Stack.pop s' = .ok () { s with slots := s.slots.setIfInBounds s.top y } := by
  cases h with
  | @plain y hy hblock =>
    refine ⟨y, (pop_pushed htop hblock).trans ?_⟩
    rw [releaseSlotEntry, hy]
  | @entry y v hy hblock =>
    refine ⟨y, (pop_pushed (s := { s with managed := s.managed.push v }) htop hblock).trans ?_⟩
    rw [releaseSlotEntry, hy]
    dsimp only
    rw [releaseEntry, if_pos ⟨(Array.size_push v).symm, hfloor⟩]
    simp only [Array.pop_push]

end Stack

/-! ### Loading and discarding -/

/-- The binders can write the defaults of their types. -/
def Domain.WritesDefaults (d : Domain) : Prop := ∀ t b, d.style? t = some (.bound b) →
  ∀ data, (d.registry.type t).native?.bind HostType.default = some data →
    ∃ slots, b.write data = .ok slots

namespace Running

/-- What holds of the stack at every moment of a frame. -/
structure Seated (r : Running) : Prop where
  blocky : r.Blocky
  base : r.stack.low ≤ r.stack.base
  floor : r.stack.floor ≤ r.stack.managed.size

/-- The slot holds a value: a number or a reference, an object or a reference to a part of one, or a
struct with these fields. -/
inductive Carries (r : Running) : Slot → Content → Prop
  | plain {x : Slot} (hentry : x.entry? = none) (hblock : ∀ d, x ≠ .block d)
    (hheader : ∀ t n, x ≠ .header t n) : Carries r x .nil
  | entry {x : Slot} {i : Nat} (hentry : x.entry? = some i) (hi : i < r.stack.managed.size) :
    Carries r x .nil
  | struct {t : TypeId} {d : Nat} {st : Storage} {c : Content} (h : r.Struct t d st c)
    (hlive : ∀ x ∈ st.cells d, r.stack.low ≤ x) : Carries r (.block d) c

end Running

namespace Engine

open Stack

variable {r : Running} {fuel a : Nat} {x : Slot} {c : Content}

/-- The instruction loads the slot at `a`. -/
inductive Loads (r : Running) (f : Frame) : Instruction → Nat → Prop
  | argument {n : UInt16} (hn : n.toNat < f.argCount) : Loads r f (.loadArg n) (f.argBase + n.toNat)
  | local_ {n : UInt16} (hn : n.toNat < f.localCount) :
    Loads r f (.loadLocal n) (f.localBase + n.toNat)
  | top (h : 0 < r.stack.top) : Loads r f .dup (r.stack.top - 1)

end Engine

/-! ### The moments of a frame -/

/-- Code keeps its stack inside the bounds of its frame. -/
theorem Kept.bounded {r r' : Running} (h : Kept r r') (hbase : r.stack.low ≤ r.stack.base)
    (hfloor : r.stack.floor ≤ r.stack.managed.size) :
    r'.stack.low ≤ r'.stack.base ∧ r'.stack.floor ≤ r'.stack.managed.size := by
  rw [h.base, h.floor]
  exact ⟨h.low_le _ (Nat.le_refl _) hbase, h.le_entries _ (Nat.le_refl _) hfloor⟩

namespace Engine

/-- The frames of a call whose headers stay in order keep to their bounds. By induction on the fuel,
with the bounds as the invariant of the instructions of a frame. -/
theorem seated_of_blocky : (fuel : Nat) → (id : MethodId) → (a : Nat) → (r : Running) →
    Along (fun m ↦ m.before.Blocky ∧ m.after.Blocky) fuel id a r →
    Along (fun m ↦ m.before.Seated) fuel id a r
  | 0, _, _, _, _ => trivial
  | fuel + 1, id, a, r, halong => fun body home f r' henters hopen ↦ by
    have hopens : Ends (openFrame fuel id (r.domain.registry.method id) body home a) (r.entered id)
        (fun f r' ↦ Ordered f ∧ ∃ w : View, r' = w.run.sealed) fun _ ↦ True := by
      refine (ends_opening (S := freeScope) (v := View.start (r.entered id)) fuel id body home rfl
        (fun _ _ _ _ ↦ ⟨trivial, trivial⟩) rfl).imp ?_ fun _ _ ↦ trivial
      rintro _ _ ⟨_, hord, w, _, _, hr'⟩
      exact ⟨hord, w, hr'⟩
    rw [Ends, hopen] at hopens
    obtain ⟨hord, w, rfl⟩ := hopens
    have hsealed : w.run.sealed.stack.low ≤ w.run.sealed.stack.base ∧
        w.run.sealed.stack.floor ≤ w.run.sealed.stack.managed.size :=
      ⟨Nat.le_refl _, Nat.le_refl _⟩
    refine And.left (b := Ends _ _ (fun _ _ ↦ True) fun _ ↦ True) (loop_induct
      (I := fun f r ↦ Ordered f ∧ r.stack.low ≤ r.stack.base ∧ r.stack.floor ≤ r.stack.managed.size)
      (fun _ _ _ ↦ trivial) ?_ fuel ⟨hord, hsealed⟩ (halong body home f _ henters hopen))
    rintro fuel' f addr i r ⟨hord, hbase, hfloor⟩ hblocky hcalls
    have hdoes := does_anywhere (protects_callees fuel).1 hord fuel' addr i (r.noting addr)
    rw [← r.noting_stack addr] at hbase hfloor
    refine ⟨⟨hblocky.1, hbase, hfloor⟩,
      fun id a s hmakes ↦ seated_of_blocky fuel id a s (hcalls id a s hmakes), ?_⟩
    unfold Ends
    cases hadv : advance (callees fuel) fuel' f addr i (r.noting addr) with
    | error e r' => trivial
    | ok ctl r' =>
      obtain ⟨w, rfl, hw, hcontinues⟩ := hdoes.spec.ok hadv
      cases ctl with
      | done v => trivial
      | «at» next f' =>
        have hkept : Kept (r.noting addr) w.run := Edits.kept (fun _ _ _ _ h ↦ h) hw
        exact ⟨hord.core hcontinues, hkept.bounded hbase hfloor⟩

/-- At every moment of every call the stack is inside the bounds of the frame, whatever its bytecode
is, as long as the host code of the domain writes no headers into structs. So what is said of a load
on a seated stack is said of every load that a frame comes to. -/
theorem seated_along {r : Running} (fuel : Nat) (id : MethodId) (a : Nat) (h : r.Blocky)
    (hhost : WritesNoHeaders r) : Along (fun m ↦ m.before.Seated) fuel id a r :=
  seated_of_blocky fuel id a r
    (headerInvariant.along fuel id a r ⟨h, hhost⟩ (along_true fuel id a r)).1

end Engine

/-! ### Structs in structs -/

/-- A struct with a text in it, and two structs with such a struct and a text, in either order. -/
def Domain.nests : Domain :=
  let home : Home := ⟨⟨0⟩, .ofTypes "nests" #[
    ⟨"", "Inner", TypeKind.struct.flags, none, [], [], #[], #[]⟩,
    ⟨"", "Last", TypeKind.struct.flags, none, [], [], #[], #[]⟩,
    ⟨"", "First", TypeKind.struct.flags, none, [], [], #[], #[]⟩]⟩
  { (default : Domain) with
    registry := { Registry.empty with
      types := #[⟨"Text", .native (.plain .class_ "" "Text"), [], none⟩,
        ⟨"Inner", .interpreted home (Module.typeToken 0), [], none⟩,
        ⟨"Last", .interpreted home (Module.typeToken 1), [], none⟩,
        ⟨"First", .interpreted home (Module.typeToken 2), [], none⟩]
      facts := { Registry.empty.facts with
        layouts := Std.HashMap.insert (Std.HashMap.insert (Std.HashMap.insert ∅
          ⟨1⟩ (.ofTypes [⟨0⟩])) ⟨2⟩ (.ofTypes [⟨0⟩, ⟨1⟩])) ⟨3⟩ (.ofTypes [⟨1⟩, ⟨0⟩]) } } }

/-- Two locals that hold such structs. -/
def Running.nests : Running where
  domain := .nests
  interpreter := { Interpreter.fresh 0 19 with
    stack := {
      slots := #[.block 18, .block 13, .null, .null, .null, .null, .null, .null, .null, .object 2,
        .header ⟨1⟩ 1, .object 3, .block 10, .header ⟨3⟩ 2, .object 1, .header ⟨1⟩ 1, .block 15,
        .object 0, .header ⟨2⟩ 2]
      top := 2
      low := 9
      base := 9
      floor := 4
      managed := #[.string "a", .string "b", .string "c", .string "d"] } }

namespace Domain

/-- The structs of the sample: one with a field for a value, and two with a value and such a struct,
in one order and in the other. -/
theorem layouts_nests : nests.registry.facts.layouts[(⟨1⟩ : TypeId)]? = some (.ofTypes [⟨0⟩]) ∧
    nests.registry.facts.layouts[(⟨2⟩ : TypeId)]? = some (.ofTypes [⟨0⟩, ⟨1⟩]) ∧
    nests.registry.facts.layouts[(⟨3⟩ : TypeId)]? = some (.ofTypes [⟨1⟩, ⟨0⟩]) := by
  refine ⟨?_, ?_, ?_⟩
  · rw [nests, Std.HashMap.getElem?_insert, if_neg (by decide), Std.HashMap.getElem?_insert,
      if_neg (by decide), Std.HashMap.getElem?_insert_self]
  · rw [nests, Std.HashMap.getElem?_insert, if_neg (by decide), Std.HashMap.getElem?_insert_self]
  · rw [nests, Std.HashMap.getElem?_insert_self]

theorem binder_nests (name : String) : nests.bindings.binder? name = none :=
  Std.HashMap.getElem?_empty

theorem typed_inner (v : Value) {ts : List TypeId} {c : Content} (h : nests.Typed ts c) :
    nests.Typed (⟨1⟩ :: ts) (.block ⟨1⟩ (.value v .nil) c) :=
  .struct (style?_of_interpreted rfl rfl (binder_nests _)) layouts_nests.1
    (.value (by decide) rfl (style?_of_unbound rfl (binder_nests _)) .nil) h

theorem typed_text (v : Value) {ts : List TypeId} {c : Content} (h : nests.Typed ts c) :
    nests.Typed (⟨0⟩ :: ts) (.value v c) :=
  .value (by decide) rfl (style?_of_unbound rfl (binder_nests _)) h

end Domain

namespace Running

theorem struct_last : nests.Struct ⟨2⟩ 18 (.entry 0 (.block 15 (.entry 1 .nil) .nil))
    (.value (.string "a") (.block ⟨1⟩ (.value (.string "b") .nil) .nil)) := by
  refine ⟨rfl, .entry rfl rfl (.block rfl rfl (.entry rfl rfl .nil) .nil), ?_,
    ⟨by decide, by decide⟩, by decide, ⟨nofun, ⟨nofun, trivial⟩, trivial⟩⟩
  exact .struct (Domain.style?_of_interpreted rfl rfl (Domain.binder_nests _))
    Domain.layouts_nests.2.1 (Domain.typed_text _ (Domain.typed_inner _ .nil)) .nil

end Running

namespace Engine

end Engine

end ManagedMachine
