import ManagedMachine.Proofs.StructTypes

/-!
# Value semantics of structs

A struct is copied into another one of its type, and afterwards no change to one of them shows in
the other.
-/

set_option autoImplicit false
set_option relaxedAutoImplicit false

namespace ManagedMachine

open Engine

namespace Domain

variable {d d' : Domain}

/-- A clone has an object of its own. -/
theorem CloneOf.own {v v' : Value} (h : d.CloneOf d' v v') (ha : d.Allocates d')
    (hv : v.Lives d.heap) (id : ObjectId) (hid : v' = .object id)
    (hclone : (d'.cloneData? id).isSome) : d.heap.size ≤ id.index := by
  cases h with
  | shared h =>
    rw [ha.cloneData? (hv id hid), h id hid] at hclone
    cases hclone
  | clone _ hmade =>
    cases hid
    exact hmade.new

end Domain

/-! ### Blocks of structs -/

namespace Storage

/-- All slots of the block with header `a`. -/
def cells (a : Nat) (st : Storage) : List Nat := a :: st.slots (a - 1)

/-- The two blocks have no slot and no entry in common. -/
structure Disjoint (a : Nat) (st : Storage) (b : Nat) (st' : Storage) : Prop where
  cells : ∀ x ∈ st.cells a, x ∉ st'.cells b
  entries : ∀ i ∈ st.entries, i ∉ st'.entries

variable {a b : Nat} {st st' : Storage}

theorem Disjoint.symm (h : Disjoint a st b st') : Disjoint b st' a st :=
  ⟨fun x hx hx' ↦ h.cells x hx' hx, fun i hi hi' ↦ h.entries i hi' hi⟩

/-- Different storage has different headers. -/
theorem Disjoint.ne (h : Disjoint a st b st') : a ≠ b := by
  rintro rfl
  exact h.cells a List.mem_cons_self List.mem_cons_self

/-- Below the headers there are no common slots either. -/
theorem Disjoint.apart (h : Disjoint a st b st') : Apart (a - 1) st (b - 1) st' where
  slots x hx hx' := h.cells x (List.mem_cons_of_mem _ hx) (List.mem_cons_of_mem _ hx')
  entries := h.entries

end Storage

/-- A well-formed struct of the type: a block with header `a` whose fields are of the types of the
layout, whose storage is used once, and whose objects are there. -/
structure Running.Struct (r : Running) (t : TypeId) (a : Nat) (st : Storage) (c : Content) :
    Prop where
  header : r.stack.slots[a]? = some (.header t st.length)
  stored : r.stack.Stored (a - 1) st c
  typed : r.domain.Typed [t] (.block t c .nil)
  distinct : st.Distinct (a - 1)
  apart : a ∉ st.slots (a - 1)
  lives : c.All (Value.Lives r.domain.heap)

/-- The struct is still there when something outside its storage has changed. -/
theorem Running.Struct.within {r r' : Running} {t : TypeId} {a : Nat} {st : Storage} {c : Content}
    {A E : Set Nat} (h : r.Struct t a st c) (hw : r.stack.Within A E r'.stack)
    (ha : r.domain.Allocates r'.domain) (hA : ∀ x ∈ st.cells a, x ∉ A)
    (hE : ∀ i ∈ st.entries, i ∉ E) : r'.Struct t a st c where
  header := (hw.slot a (hA a List.mem_cons_self)).trans h.header
  stored := h.stored.within hw (fun x hx ↦ hA x (List.mem_cons_of_mem _ hx)) hE
  typed := h.typed.extends ha.extends
  distinct := h.distinct
  apart := h.apart
  lives := h.lives.imp fun _ hv id hid ↦ (hv id hid).trans_le ha.size

/-! ### Copies of structs -/

/-- What a copy into the block with header `b` leaves: a struct of its own that reads as the source
does, but for clones of host structs, and everything else as it was. -/
structure Running.Copy (r r' : Running) (t : TypeId) (a b : Nat) (ss sd sd' : Storage)
    (c c' : Content) : Prop where
  copy : r'.Struct t b sd' c'
  maps : c.Maps (r.domain.CloneOf r'.domain) c'
  source : r'.Struct t a ss c
  within : r.stack.Within {x | x ∈ sd.slots (b - 1)} {i | i ∈ sd.entries} r'.stack
  allocates : r.domain.Allocates r'.domain
  slots : sd'.cells b = sd.cells b
  entries : ∀ i ∈ sd'.entries, i ∈ sd.entries ∨ r.stack.managed.size ≤ i
  disjoint : ss.Disjoint a b sd'
  /-- Host structs that can be cloned have been. -/
  own : c'.All fun v ↦ ∀ id, v = .object id → (r'.domain.cloneData? id).isSome →
    r.domain.heap.size ≤ id.index

/-- A later change within the storage of the one struct does not show in the other. -/
theorem Running.Copy.independent {r r' r'' : Running} {t : TypeId} {a b : Nat}
    {ss sd sd' : Storage} {c c' : Content} (h : r.Copy r' t a b ss sd sd' c c')
    (ha : r'.domain.Allocates r''.domain) :
    (r'.stack.Within {x | x ∈ sd'.cells b} {i | i ∈ sd'.entries} r''.stack → r''.Struct t a ss c) ∧
    (r'.stack.Within {x | x ∈ ss.cells a} {i | i ∈ ss.entries} r''.stack → r''.Struct t b sd' c') :=
  ⟨fun hw ↦ h.source.within hw ha h.disjoint.cells h.disjoint.entries,
    fun hw ↦ h.copy.within hw ha h.disjoint.symm.cells h.disjoint.symm.entries⟩

namespace Engine

variable {r : Running} {fuel src dst : Nat} {t : TypeId} {ss sd : Storage} {c cd : Content}

/-- The result of a copy: the target has the content of the source, cloned, and all else is as it
was. -/
theorem succeeds_copyBlock (hsrc : r.Struct t src ss c) (hdst : r.Struct t dst sd cd)
    (hdisjoint : ss.Disjoint src dst sd) (hdepth : c.depth + 1 < fuel) :
    Succeeds (copyBlock fuel src dst) r fun _ r' ↦
      ∃ sd' c', r.Copy r' t src dst ss sd sd' c c' := by
  obtain ⟨fuel, rfl⟩ := Nat.exists_eq_succ_of_ne_zero (Nat.ne_zero_of_lt hdepth)
  have hform : cd.form = c.form := by
    injection hsrc.typed.form_eq hdst.typed
  have hlength : ss.length = sd.length := by
    rw [hsrc.stored.length_eq, hdst.stored.length_eq, ← c.length_form, ← cd.length_form, hform]
  have hready : Ready r (src - 1 - 0) ss c (dst - 1 - 0) sd cd :=
    ⟨hsrc.stored, hdst.stored, hform, hdisjoint.apart, hdst.distinct, hsrc.lives⟩
  have hrun := copyBlock_eq fuel hdisjoint.ne (hlength ▸ hsrc.header) hdst.header
  rw [List.range_eq_range'] at hrun
  refine .congr hrun ((succeeds_copyFields hready (Nat.lt_of_succ_lt_succ hdepth)).imp
    fun _ r' ⟨sd', c', h⟩ ↦ ⟨sd', c', ?_⟩)
  have hcells : sd'.cells dst = sd.cells dst := congrArg (dst :: ·) h.slots
  have hheader : r'.stack.slots[dst]? = some (.header t sd'.length) := by
    rw [h.within.slot dst hdst.apart, hdst.header, h.length]
  constructor
  case copy =>
    refine ⟨hheader, h.stored, ?_, ⟨h.slots ▸ hdst.distinct.slots, h.nodup⟩,
      h.slots ▸ hdst.apart, ?_⟩
    · exact (hsrc.typed.maps (.block h.maps .nil)).extends h.allocates.extends
    · exact h.maps.all hsrc.lives fun _ _ hv hclone ↦ hclone.lives h.allocates.size hv
  case maps => exact h.maps
  case source =>
    refine hsrc.within h.within h.allocates (fun x hx hx' ↦ ?_) hdisjoint.entries
    exact hdisjoint.cells x hx (List.mem_cons_of_mem _ hx')
  case within => exact h.within
  case allocates => exact h.allocates
  case slots => exact hcells
  case entries => exact h.entries
  case disjoint =>
    refine ⟨fun x hx ↦ hcells ▸ hdisjoint.cells x hx, fun i hi hi' ↦ ?_⟩
    rcases h.entries i hi' with hold | hnew
    · exact hdisjoint.entries i hi hold
    · exact absurd (hsrc.stored.lt_managed i hi) (Nat.not_lt.mpr hnew)
  case own => exact h.maps.all hsrc.lives fun _ _ hv hclone ↦ hclone.own h.allocates hv

/-- A copy between two structs of one type that share no storage succeeds. It leaves in the target
what the source holds, with clones of host structs, and nothing else changes; from then on a change
within the storage of one of them does not show in the other. -/
theorem copyBlock_independent (hsrc : r.Struct t src ss c) (hdst : r.Struct t dst sd cd)
    (hdisjoint : ss.Disjoint src dst sd) (hdepth : c.depth + 1 < fuel) :
    ∃ r' sd' c', copyBlock fuel src dst r = .ok () r' ∧ r.Copy r' t src dst ss sd sd' c c' ∧
      ∀ r'' : Running, r'.domain.Allocates r''.domain →
        (r'.stack.Within {x | x ∈ sd'.cells dst} {i | i ∈ sd'.entries} r''.stack →
          r''.Struct t src ss c) ∧
        (r'.stack.Within {x | x ∈ ss.cells src} {i | i ∈ ss.entries} r''.stack →
          r''.Struct t dst sd' c') := by
  obtain ⟨_, r', hrun, sd', c', hcopy⟩ := succeeds_copyBlock hsrc hdst hdisjoint hdepth
  exact ⟨r', sd', c', hrun, hcopy, fun _ ↦ hcopy.independent⟩

end Engine

/-! ### Two pairs -/

/-- Nameless instance fields of the types. -/
def FieldLayout.ofTypes (ts : List TypeId) : FieldLayout :=
  ⟨ts.zipIdx.map fun (t, i) ↦ ⟨⟨0⟩, "", i, false, t, none⟩, []⟩

/-- A domain with a struct that has a number, a reference, a host struct, and a struct in turn. -/
def Domain.pairs : Domain :=
  let home : Home := ⟨⟨0⟩, .ofTypes "pairs" #[
    ⟨"", "Pair", TypeKind.struct.flags, none, [], [], #[], #[]⟩,
    ⟨"", "Inner", TypeKind.struct.flags, none, [], [], #[], #[]⟩]⟩
  { (default : Domain) with
    registry := { Registry.empty with
      types := #[⟨"Int32", .native (CoreLibrary.primitiveType .int32), [], none⟩,
        ⟨"Text", .native (.plain .class_ "" "Text"), [], none⟩,
        ⟨"Point", .native { HostType.plain .struct "" "Point" with copy := some some }, [], none⟩,
        ⟨"Pair", .interpreted home (Module.typeToken 0), [], none⟩,
        ⟨"Inner", .interpreted home (Module.typeToken 1), [], none⟩]
      facts := { Registry.empty.facts with
        layouts := Std.HashMap.insert (Std.HashMap.insert ∅
          ⟨3⟩ (.ofTypes [⟨0⟩, ⟨1⟩, ⟨2⟩, ⟨4⟩])) ⟨4⟩ (.ofTypes [⟨1⟩]) } }
    heap := ⟨#[.native ⟨2⟩ (.point 1 2), .native ⟨2⟩ (.point 0 0)]⟩ }

/-- Two structs of one type on a stack. -/
def Running.pairs : Running where
  domain := .pairs
  interpreter := { Interpreter.fresh 0 16 with
    stack := {
      slots := #[.null, .null, .object 3, .header ⟨4⟩ 1, .block 3, .object 2, .null, .int32 0,
        .header ⟨3⟩ 4, .null, .header ⟨4⟩ 1, .block 10, .object 1, .object 0, .int32 5,
        .header ⟨3⟩ 4]
      top := 0
      low := 2
      base := 16
      floor := 0
      managed := #[.string "a", .object ⟨0⟩, .object ⟨1⟩, .string "b"] } }

/-- In the sample, a struct with a number, two values and a struct. -/
theorem Domain.typed_pairs (x : Int32) (v w u : Value) : Domain.pairs.Typed [⟨3⟩]
    (.block ⟨3⟩ (.number (.int32 x) (.value v (.value w (.block ⟨4⟩ (.value u .nil) .nil))))
      .nil) := by
  have hbinder (name : String) : Domain.pairs.bindings.binder? name = none :=
    Std.HashMap.getElem?_empty
  have hpair : Domain.pairs.registry.facts.layouts[(⟨3⟩ : TypeId)]? =
      some (.ofTypes [⟨0⟩, ⟨1⟩, ⟨2⟩, ⟨4⟩]) := by
    rw [Domain.pairs, Std.HashMap.getElem?_insert, if_neg (by decide),
      Std.HashMap.getElem?_insert_self]
  have hinner : Domain.pairs.registry.facts.layouts[(⟨4⟩ : TypeId)]? =
      some (.ofTypes [⟨1⟩]) := by
    rw [Domain.pairs, Std.HashMap.getElem?_insert_self]
  have hvalue (t : TypeId) (v : Value) {ts : List TypeId} {c : Content} (hlt : t.index < 5)
      (hp : (Domain.pairs.registry.type t).primitive? = none)
      (ht : (Domain.pairs.registry.type t).isInterpreted = false) (h : Domain.pairs.Typed ts c) :
      Domain.pairs.Typed (t :: ts) (.value v c) :=
        .value hlt hp (style?_of_unbound ht (hbinder _)) h
  refine .struct (style?_of_interpreted rfl rfl (hbinder _)) hpair ?_ .nil
  refine .number (t := ⟨0⟩) (p := .int32) rfl rfl ?_
  refine hvalue ⟨1⟩ v (by decide) rfl rfl (hvalue ⟨2⟩ w (by decide) rfl rfl ?_)
  refine .struct (style?_of_interpreted rfl rfl (hbinder _)) hinner ?_ .nil
  exact hvalue ⟨1⟩ u (by decide) rfl rfl .nil

/-- Two blocks of that struct, one of them with values in it. -/
theorem Running.struct_pairs :
    Running.pairs.Struct ⟨3⟩ 15 (.plain (.entry 0 (.entry 1 (.block 10 (.plain .nil) .nil))))
      (.number (.int32 5) (.value (.string "a") (.value (.object ⟨0⟩)
        (.block ⟨4⟩ (.value .null .nil) .nil)))) ∧
    Running.pairs.Struct ⟨3⟩ 8 (.plain (.plain (.entry 2 (.block 3 (.entry 3 .nil) .nil))))
      (.number (.int32 0) (.value .null (.value (.object ⟨1⟩)
        (.block ⟨4⟩ (.value (.string "b") .nil) .nil)))) := by
  have hlives (v : Value) (h : v.object?.all fun id ↦ id.index < 2) :
      v.Lives Running.pairs.domain.heap := by
    rintro id rfl
    exact of_decide_eq_true h
  constructor
  · refine ⟨rfl, ?_, Domain.typed_pairs .., ⟨by decide, by decide⟩, by decide, ?_⟩
    · exact .number rfl (.inr rfl)
        (.entry rfl rfl (.entry rfl rfl (.block rfl rfl (.null rfl .nil) .nil)))
    · exact ⟨hlives _ rfl, hlives _ rfl, ⟨hlives _ rfl, trivial⟩, trivial⟩
  · refine ⟨rfl, ?_, Domain.typed_pairs .., ⟨by decide, by decide⟩, by decide, ?_⟩
    · exact .number rfl (.inr rfl)
        (.null rfl (.entry rfl rfl (.block rfl rfl (.entry rfl rfl .nil) .nil)))
    · exact ⟨hlives _ rfl, hlives _ rfl, ⟨hlives _ rfl, trivial⟩, trivial⟩

theorem Engine.copyBlock_independent_pairs :
    ∃ r' sd' c', copyBlock 4 15 8 Running.pairs = .ok () r' ∧
      Running.pairs.Copy r' ⟨3⟩ 15 8 (.plain (.entry 0 (.entry 1 (.block 10 (.plain .nil) .nil))))
        (.plain (.plain (.entry 2 (.block 3 (.entry 3 .nil) .nil)))) sd'
        (.number (.int32 5) (.value (.string "a") (.value (.object ⟨0⟩)
          (.block ⟨4⟩ (.value .null .nil) .nil)))) c' :=
  let ⟨hsrc, hdst⟩ := Running.struct_pairs
  let ⟨r', sd', c', hrun, hcopy, _⟩ :=
    copyBlock_independent hsrc hdst ⟨by decide, by decide⟩ (by decide)
  ⟨r', sd', c', hrun, hcopy⟩

end ManagedMachine
