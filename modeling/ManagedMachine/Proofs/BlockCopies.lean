import ManagedMachine.Proofs.Storage

/-!
# Copies of structs

Copying a struct into another one leaves each with fields of its own.

Copying goes through the fields in order. A number is copied as it is; any other value gets an entry
of its own in the target, or overwrites the one that the target has there; a struct in a field is
copied field by field into the block that the target has for it. `Copied` says of a piece of the
target what has become of it, and is put together from field to field (`Copied.append`), so that the
result for the whole struct (`copyBlock_independent`) is about the same storage as before, with the
content of the source in it.
-/

set_option autoImplicit false
set_option relaxedAutoImplicit false

namespace ManagedMachine

open Engine

/-! ### Clones -/

/-- All objects that the value refers to are there. -/
def Value.Lives (h : Heap) (v : Value) : Prop := ∀ id, v = .object id → id.index < h.size

namespace Domain

/-- Only new objects have come in. -/
structure Allocates (d d' : Domain) : Prop where
  same : d' = { d with heap := d'.heap }
  size : d.heap.size ≤ d'.heap.size
  object : ∀ id, id.index < d.heap.size → d'.heap.object id = d.heap.object id

theorem Allocates.refl (d : Domain) : d.Allocates d := ⟨rfl, Nat.le_refl _, fun _ _ ↦ rfl⟩

theorem Allocates.trans {d d' d'' : Domain} (h : d.Allocates d') (h' : d'.Allocates d'') :
    d.Allocates d'' where
  same := by rw [h'.same, h.same]
  size := h.size.trans h'.size
  object id hid := (h'.object id (hid.trans_le h.size)).trans (h.object id hid)

/-- The object is new and holds what was asked for. -/
structure Makes (d d' : Domain) (o : HeapObject) (id : ObjectId) : Prop where
  new : d.heap.size ≤ id.index
  there : id.index < d'.heap.size
  object : d'.heap.object id = o

theorem succeeds_allocate (d : Domain) (o : HeapObject) : Succeeds (allocate o) d fun id d' ↦
    d.Allocates d' ∧ d.Makes d' o id := by
  refine .of_ok rfl ⟨⟨rfl, ?_, fun id hid ↦ Heap.object_allocate_of_lt d.heap o hid⟩, ?_⟩
  · simp [Heap.size]
  · exact ⟨Nat.le_refl _, by simp [Heap.size], Heap.object_allocate_self d.heap o⟩

/-- The data that the clone function of its type makes of a host struct. -/
def cloneData? (d : Domain) (id : ObjectId) : Option HostData :=
  if (d.typeOf id).isStruct then
    (d.heap.data? id).bind fun data ↦
      ((d.typeOf id).native?.bind HostType.copy).bind fun copy ↦ copy data
  else none

/-- The value is kept, or it is a host struct and a new clone takes its place. -/
inductive CloneOf (d d' : Domain) : Value → Value → Prop
  | shared {v : Value} (h : ∀ id, v = .object id → d.cloneData? id = none) : CloneOf d d' v v
  | clone {id id' : ObjectId} {data : HostData} (h : d.cloneData? id = some data)
    (hmade : d.Makes d' (.native (d.heap.type id) data) id') :
    CloneOf d d' (.object id) (.object id')

variable {d d' d'' : Domain} {v v' : Value} {id : ObjectId}

theorem Allocates.typeOf (h : d.Allocates d') (hid : id.index < d.heap.size) :
    d'.typeOf id = d.typeOf id := by
  rw [h.same, Domain.typeOf, Domain.typeOf, Heap.type, Heap.type, h.object id hid]

theorem Allocates.cloneData? (h : d.Allocates d') (hid : id.index < d.heap.size) :
    d'.cloneData? id = d.cloneData? id := by
  rw [Domain.cloneData?, Domain.cloneData?, h.typeOf hid, Heap.data?, Heap.data?, h.object id hid]

theorem Makes.later {o : HeapObject} (h : d.Makes d' o id) (h' : d'.Allocates d'') :
    d.Makes d'' o id :=
  ⟨h.new, h.there.trans_le h'.size, (h'.object _ h.there).trans h.object⟩

theorem CloneOf.later (h : d.CloneOf d' v v') (h' : d'.Allocates d'') : d.CloneOf d'' v v' := by
  cases h with
  | shared h => exact .shared h
  | clone h hmade => exact .clone h (hmade.later h')

theorem CloneOf.earlier (h : d'.CloneOf d'' v v') (h' : d.Allocates d') (hv : v.Lives d.heap) :
    d.CloneOf d'' v v' := by
  cases h with
  | shared h => exact .shared fun id hid ↦ h'.cloneData? (hv id hid) ▸ h id hid
  | clone h hmade =>
    have hid := hv _ rfl
    refine .clone (h'.cloneData? hid ▸ h) ⟨h'.size.trans hmade.new, hmade.there, ?_⟩
    rw [hmade.object, Heap.type, Heap.type, h'.object _ hid]

theorem CloneOf.lives (h : d.CloneOf d' v v') (hsize : d.heap.size ≤ d'.heap.size)
    (hv : v.Lives d.heap) : v'.Lives d'.heap := by
  cases h with
  | shared _ => exact fun id hid ↦ (hv id hid).trans_le hsize
  | clone _ hmade =>
    rintro id ⟨⟩
    exact hmade.there

/-- The copy of data of the host is a new object. -/
theorem succeeds_copyStruct {fuel : Nat} {t : TypeId} {data : HostData}
    (hstruct : (d.typeOf id).isStruct = true) (hobject : d.heap.object id = .native t data) :
    Succeeds (copyStruct (fuel + 1) id) d fun id' d' ↦
      d.Allocates d' ∧ d.CloneOf d' (.object id) (.object id') := by
  have htype : d.typeOf id = d.registry.type t := by rw [typeOf, Heap.type, hobject]; rfl
  have hdata : d.cloneData? id =
      ((d.registry.type t).native?.bind HostType.copy).bind fun copy ↦ copy data := by
    rw [Domain.cloneData?, if_pos hstruct, htype, Heap.data?, hobject]
    rfl
  unfold copyStruct
  refine .bind_ok (a := true) (t := d) (by rw [isStructObject, ask, hstruct]) ?_
  refine .bind_ok (t := d) rfl ?_
  dsimp only
  rw [hobject]
  refine .bind_ok (t := d) rfl ?_
  dsimp only
  rw [← hdata]
  cases hclone : d.cloneData? id with
  | none => exact .pure ⟨.refl d, .shared fun _ h ↦ Value.object.inj h ▸ hclone⟩
  | some made =>
    refine (succeeds_allocate d _).imp fun id' d' h ↦ ?_
    obtain ⟨hallocates, hmade⟩ := h
    refine ⟨hallocates, .clone hclone ?_⟩
    rwa [Heap.type, hobject]

/-- Only a boxed struct is copied. Any other value is handed over as it is. -/
theorem succeeds_sharedOrCopied (fuel : Nat) (v : Value) :
    Succeeds (sharedOrCopied (fuel + 1) v) d fun v' d' ↦ d.Allocates d' ∧ d.CloneOf d' v v' := by
  have hshared (h : ∀ id, v = .object id → d.cloneData? id = none) :
      d.Allocates d ∧ d.CloneOf d v v := ⟨.refl d, .shared h⟩
  cases v with
  | object id =>
    unfold sharedOrCopied
    refine .bind_ok (t := d) rfl ?_
    split
    · next hstruct =>
      obtain ⟨hstruct, hdata⟩ := Bool.and_eq_true_iff.mp hstruct
      obtain ⟨t, data, hobject⟩ : ∃ t data, d.heap.object id = .native t data := by
        rw [Heap.data?, Option.isSome_iff_exists] at hdata
        obtain ⟨data, hdata⟩ := hdata
        cases hobject : d.heap.object id with
        | native t data => exact ⟨t, data, rfl⟩
        | _ => rw [hobject] at hdata; cases hdata
      exact (succeeds_copyStruct hstruct hobject).bind fun id' d' h ↦ .pure h
    · next hplain =>
      refine .pure (hshared fun id' hid ↦ ?_)
      cases hid
      rw [Domain.cloneData?]
      split
      · next hstruct =>
        rw [Bool.and_eq_true_iff, not_and] at hplain
        rw [Option.not_isSome_iff_eq_none.mp (hplain hstruct)]
        rfl
      · rfl
  | _ => exact .pure (hshared nofun)

end Domain

/-! ### Copying one field -/

namespace Engine

open Stack

variable {r : Running} {copy : Nat → Nat → RunM Unit} {fuel src dst i : Nat} {y : Slot}
  {own : Option Nat}

theorem storeObject_of_plain (h : ∀ i, y ≠ .object i) (a : Nat) (v : Value) :
    storeObject a y v = if v.isNull then Stack.setSlot a .null
      else Stack.pushEntry v >>= fun i ↦ Stack.setSlot a (.object i) := by
  cases y with
  | object i => exact absurd rfl (h i)
  | _ => rfl

/-- A field keeps its entry; one that had none gets a new one. -/
theorem storeObject_ok {s : Stack} {a : Nat} (hy : Stored.Leaf s a y own) (v : Value) :
    ∃ s' own', storeObject a y v s = .ok () s' ∧ s'.Keeps a v own' ∧
      s.Within {a} {i | own = some i} s' ∧
      (∀ i, own' = some i → own = some i ∨ i = s.managed.size) ∧
      ∀ i, own = some i → own' = some i ∧ s'.managed.size = s.managed.size := by
  obtain ⟨hslot, -, hown, hlt⟩ := hy
  have ha : a < s.slots.size := (Array.getElem?_eq_some_iff.mp hslot).1
  cases own with
  | some i =>
    obtain rfl := (hown i).mpr rfl
    refine ⟨_, some i, setEntry_of_lt (hlt i rfl), ⟨hslot, ?_⟩, ?_, fun _ ↦ .inl,
      fun _ h ↦ ⟨h, Array.size_setIfInBounds⟩⟩
    · exact Array.getElem?_setIfInBounds_self_of_lt (hlt i rfl)
    · refine (Within.setEntry i v s).mono (Set.empty_subset _) ?_
      rintro _ rfl
      rfl
  | none =>
    rw [storeObject_of_plain fun i h ↦ nomatch (hown i).mp h]
    split
    · next hnull =>
      refine ⟨_, none, setSlot_of_lt ha, ⟨?_, Array.getElem?_setIfInBounds_self_of_lt ha⟩,
        (Within.setSlot a .null s).mono (subset_refl _) (Set.empty_subset _), nofun, nofun⟩
      cases v <;> first | rfl | cases hnull
    · let s₁ : Stack := { s with managed := s.managed.push v }
      have hset : Stack.setSlot a (.object s.managed.size) s₁ = _ := setSlot_of_lt ha
      refine ⟨_, some s.managed.size, (bind_of_ok rfl).trans hset,
        ⟨Array.getElem?_setIfInBounds_self_of_lt ha, Array.getElem?_push_size⟩, ?_, ?_, nofun⟩
      · refine Within.trans (E := {i | none = some i}) ?_ ((Within.setSlot a _ _).mono
          (subset_refl _) (Set.empty_subset ∅)) fun i hi ↦ hi.elim
        exact (Within.pushEntry v s).mono (Set.empty_subset _) (Set.empty_subset _)
      · rintro i ⟨⟩
        exact .inr rfl

/-- The slots of the field in the two blocks, neither of which points at a block. -/
theorem copyField_plain {x : Slot} (hslot : r.stack.slots[src - 1 - i]? = some x)
    (hx : ∀ d, x ≠ .block d) (hy : Stored.Leaf r.stack (dst - 1 - i) y own) :
    copyField copy fuel src dst i r = (match x with
      | .object entry => do
        let v ← (Running.onDomain (sharedOrCopied fuel (← read (·.entry entry))) : RunM Value)
        Running.onStack (storeObject (dst - 1 - i) y v)
      | .null => Running.onStack (storeObject (dst - 1 - i) y .null)
      | other => Running.onStack (Stack.setSlot (dst - 1 - i) other) : RunM Unit) r := by
  unfold copyField
  refine (bind_of_ok (by rw [read, slotAt_of_some hslot])).trans ?_
  refine (bind_of_ok (by rw [read, slotAt_of_some hy.slot])).trans ?_
  have hblock := hy.notBlock
  cases x <;> cases y <;> first | rfl | exact absurd rfl (hx _) | exact absurd rfl (hblock _)

theorem succeeds_copyNumber {x : Slot} (hx : x.Bare)
    (hslot : r.stack.slots[src - 1 - i]? = some x) (hy : Stored.Leaf r.stack (dst - 1 - i) y none) :
    Succeeds (copyField copy fuel src dst i) r fun _ r' ↦ r'.stack.slots[dst - 1 - i]? = some x ∧
      r.stack.Within {dst - 1 - i} ∅ r'.stack ∧ r'.stack.managed = r.stack.managed ∧
      r'.domain = r.domain := by
  have ha := (Array.getElem?_eq_some_iff.mp hy.slot).1
  have hplain : ∀ d, x ≠ .block d := by
    rintro d rfl
    rcases hx with hx | hx <;> cases hx
  have hnull : storeObject (dst - 1 - i) y .null = Stack.setSlot (dst - 1 - i) .null :=
    storeObject_of_plain (fun i h ↦ nomatch (hy.owns i).mp h) _ _
  have hrun :
      copyField copy fuel src dst i r = Running.onStack (Stack.setSlot (dst - 1 - i) x) r := by
    refine (copyField_plain hslot hplain hy).trans ?_
    rcases hx with rfl | hx
    · exact congrArg (fun z ↦ Running.onStack z r) hnull
    · cases x <;> first | rfl | cases hx
  exact .of_ok (hrun.trans (Running.onStack_ok (setSlot_of_lt ha)))
    ⟨Array.getElem?_setIfInBounds_self_of_lt ha, .setSlot _ x _, rfl, rfl⟩

/-- A value that has an entry: the target gets a clone of it, under its own entry or a new one. -/
theorem succeeds_copyValue {v : Value} {from_ : Option Nat}
    (hsrc : r.stack.Keeps (src - 1 - i) v from_) (hy : Stored.Leaf r.stack (dst - 1 - i) y own) :
    Succeeds (copyField copy (fuel + 1) src dst i) r fun _ r' ↦ ∃ v' own',
      r'.stack.Keeps (dst - 1 - i) v' own' ∧ r.domain.CloneOf r'.domain v v' ∧
      r.domain.Allocates r'.domain ∧ r.stack.Within {dst - 1 - i} {j | own = some j} r'.stack ∧
      (∀ j, own' = some j → own = some j ∨ j = r.stack.managed.size) ∧
      ∀ j, own = some j → own' = some j ∧ r'.stack.managed.size = r.stack.managed.size := by
  cases from_ with
  | none =>
    obtain ⟨rfl, hslot⟩ := hsrc
    obtain ⟨s', own', hok, hkeeps, hwithin, hown, hkept⟩ := storeObject_ok hy .null
    have hplain : ∀ d, Slot.null ≠ .block d := fun d ↦ by simp
    have hshared : ∀ id, Value.null = .object id → r.domain.cloneData? id = none := by simp
    refine .of_ok ((copyField_plain hslot hplain hy).trans (Running.onStack_ok hok)) ?_
    exact ⟨.null, own', hkeeps, .shared hshared, .refl _, hwithin, hown, hkept⟩
  | some entry =>
    obtain ⟨hslot, hentry⟩ := hsrc
    obtain ⟨v', d', hv, hallocates, hclone⟩ := Domain.succeeds_sharedOrCopied (d := r.domain) fuel v
    obtain ⟨s', own', hok, hkeeps, hwithin, hown, hkept⟩ := storeObject_ok hy v'
    have hread : read (·.entry entry) r = .ok v r := by rw [read, entry_of_some hentry]
    have hstore := Running.onStack_ok (r := r.withDomain d') hok
    have hplain : ∀ d, Slot.object entry ≠ .block d := fun d ↦ by simp
    have hrun : copyField copy (fuel + 1) src dst i r = _ := (copyField_plain hslot hplain hy).trans
      ((bind_of_ok hread).trans ((bind_of_ok (Running.onDomain_ok hv)).trans hstore))
    exact .of_ok hrun ⟨v', own', hkeeps, hclone, hallocates, hwithin, hown, hkept⟩

/-! ### Copying the fields -/

/-- What writing leaves at some fields of a block: other content, in the slots that the fields had
and in the entries that they owned or in new ones. -/
structure Rewritten (r r' : Running) (a : Nat) (st st' : Storage) (c : Content) : Prop where
  stored : r'.stack.Stored a st' c
  length : st'.length = st.length
  slots : st'.slots a = st.slots a
  entries : ∀ j ∈ st'.entries, j ∈ st.entries ∨ r.stack.managed.size ≤ j
  nodup : st'.entries.Nodup
  within : r.stack.Within {x | x ∈ st.slots a} {j | j ∈ st.entries} r'.stack
  allocates : r.domain.Allocates r'.domain

/-- Two pieces of storage that are next to each other are rewritten one after the other. -/
theorem Rewritten.append {r₁ r' : Running} {a : Nat} {st st' rest rest' : Storage} {c d : Content}
    (h : Rewritten r r₁ a st st' c) (h' : Rewritten r₁ r' (a - st.length) rest rest' d)
    (hdistinct : (st ++ rest).Distinct a) (hlt : ∀ j ∈ rest.entries, j < r.stack.managed.size) :
    Rewritten r r' a (st ++ rest) (st' ++ rest') (c ++ d) := by
  have hapart := hdistinct.apart
  constructor
  case stored =>
    refine (h.stored.within h'.within (fun x hx hx' ↦ ?_) fun j hj hj' ↦ ?_).append
      (h.length ▸ h'.stored)
    · exact hapart.slots x (h.slots ▸ hx) hx'
    · rcases h.entries j hj with hold | hnew
      · exact hapart.entries j hold hj'
      · exact absurd (hlt j hj') (Nat.not_lt.mpr hnew)
  case length => rw [Storage.length_append, Storage.length_append, h.length, h'.length]
  case slots => rw [Storage.slots_append, Storage.slots_append, h.slots, h.length, h'.slots]
  case entries =>
    intro j hj
    rw [Storage.entries_append] at hj ⊢
    rcases List.mem_append.mp hj with hj | hj
    · exact (h.entries j hj).imp_left (List.mem_append_left _)
    · exact (h'.entries j hj).imp (List.mem_append_right _) h.within.grows.trans
  case nodup =>
    rw [Storage.entries_append, List.nodup_append]
    refine ⟨h.nodup, h'.nodup, ?_⟩
    rintro j hj _ hj' rfl
    rcases h'.entries j hj' with hold | hnew
    · rcases h.entries j hj with hold' | hnew'
      · exact hapart.entries j hold' hold
      · exact absurd (hlt j hold) (Nat.not_lt.mpr hnew')
    · exact absurd (h.stored.lt_managed j hj) (Nat.not_lt.mpr hnew)
  case within =>
    rw [Storage.slots_append, Storage.entries_append]
    refine (h.within.mono ?_ ?_).trans (h'.within.mono (F := {j | j ∈ rest.entries}) ?_ ?_)
      fun j hj ↦ .inl (List.mem_append_right _ hj)
    · exact fun x hx ↦ List.mem_append_left _ hx
    · exact fun j hj ↦ List.mem_append_left _ hj
    · exact fun x hx ↦ List.mem_append_right _ hx
    · exact fun j hj ↦ hj
  case allocates => exact h.allocates.trans h'.allocates

/-- What copying leaves at some fields of a block: clones of what was copied. -/
structure Copied (r r' : Running) (a : Nat) (st st' : Storage) (c c' : Content) : Prop
    extends Rewritten r r' a st st' c' where
  maps : c.Maps (r.domain.CloneOf r'.domain) c'
  kept : st.Owning c → st' = st ∧ r'.stack.managed.size = r.stack.managed.size

namespace Copied

variable {r₁ r' : Running} {a : Nat} {st st' rest rest' : Storage} {c c' d d' : Content}

/-- The first piece is not touched while the second one is copied, because they have no slot and no
entry in common. -/
theorem append (h : Copied r r₁ a st st' c c')
    (h' : Copied r₁ r' (a - st.length) rest rest' d d') (hdistinct : (st ++ rest).Distinct a)
    (hlt : ∀ j ∈ rest.entries, j < r.stack.managed.size)
    (hlives : d.All (Value.Lives r.domain.heap)) :
    Copied r r' a (st ++ rest) (st' ++ rest') (c ++ d) (c' ++ d') where
  toRewritten := h.toRewritten.append h'.toRewritten hdistinct hlt
  maps := by
    refine (h.maps.imp fun _ _ hv ↦ hv.later h'.allocates).append ?_
    exact h'.maps.imp_of_all hlives fun _ _ hv hclone ↦ hclone.earlier h.allocates hv
  kept howning := by
    have hlength : st.length = c.length :=
      h.length.symm.trans
        (h.stored.length_eq.trans (by rw [← c'.length_form, h.maps.form_eq, c.length_form]))
    obtain ⟨hfirst, hrest⟩ := howning.of_append hlength
    obtain ⟨rfl, hsize⟩ := h.kept hfirst
    obtain ⟨rfl, hsize'⟩ := h'.kept hrest
    exact ⟨rfl, hsize'.trans hsize⟩

theorem nil : Copied r r a .nil .nil .nil .nil where
  stored := .nil
  maps := .nil
  length := rfl
  slots := rfl
  entries _ h := nomatch h
  nodup := .nil
  within := .refl _ _ _
  allocates := .refl _
  kept _ := ⟨rfl, rfl⟩

/-- A number is its own copy. -/
theorem number {x : Slot} (hx : x.Bare) (hslot : r'.stack.slots[a]? = some x)
    (hwithin : r.stack.Within {a} ∅ r'.stack) (hmanaged : r'.stack.managed = r.stack.managed)
    (hdomain : r'.domain = r.domain) :
    Copied r r' a (.plain .nil) (.plain .nil) (.number x .nil) (.number x .nil) where
  stored := .number hslot hx .nil
  maps := .number .nil
  length := by simp [Storage.length]
  slots := by simp [Storage.slots]
  entries _ h := nomatch h
  nodup := .nil
  within := hwithin.mono (by simp [Storage.slots]) (Set.empty_subset _)
  allocates := hdomain ▸ .refl _
  kept _ := ⟨rfl, congrArg Array.size hmanaged⟩

/-- A value lands under the entry that the field had, or under a new one. -/
theorem value {v v' : Value} {own' : Option Nat} (hkeeps : r'.stack.Keeps a v' own')
    (hclone : r.domain.CloneOf r'.domain v v') (hallocates : r.domain.Allocates r'.domain)
    (hwithin : r.stack.Within {a} {j | own = some j} r'.stack)
    (hown : ∀ j, own' = some j → own = some j ∨ j = r.stack.managed.size)
    (hkept : ∀ j, own = some j → own' = some j ∧ r'.stack.managed.size = r.stack.managed.size) :
    Copied r r' a (.field own .nil) (.field own' .nil) (.value v .nil) (.value v' .nil) where
  stored := .keep hkeeps .nil
  maps := .value hclone .nil
  length := by simp
  slots := by simp
  entries j hj := by
    rw [Storage.entries_field, List.mem_append, Option.mem_toList] at hj ⊢
    rcases hj with hj | hj
    · exact (hown j hj).imp (fun h ↦ .inl h) Eq.ge
    · cases hj
  nodup := by cases own' <;> simp [Storage.entries]
  within := hwithin.mono (by simp [Storage.slots]) fun j hj ↦ by simpa using Or.inl hj
  allocates := hallocates
  kept howning := by
    cases own with
    | none => cases howning
    | some i =>
      obtain ⟨rfl, hsize⟩ := hkept i rfl
      exact ⟨rfl, hsize⟩

/-- The field keeps its block, and the fields of the block are copied. -/
theorem block {t : TypeId} {x : Nat} (hslot : r.stack.slots[a]? = some (.block x))
    (hheader : r.stack.slots[x]? = some (.header t st.length))
    (h : Copied r r' (x - 1) st st' c c') (ha : a ∉ st.slots (x - 1)) (hx : x ∉ st.slots (x - 1)) :
    Copied r r' a (.block x st .nil) (.block x st' .nil) (.block t c .nil) (.block t c' .nil) where
  stored := by
    refine .block ((h.within.slot a ha).trans hslot) ?_ h.stored .nil
    rw [h.within.slot x hx, hheader, h.length]
  maps := .block h.maps .nil
  length := rfl
  slots := by simp [Storage.slots, h.slots]
  entries := by simpa [Storage.entries] using h.entries
  nodup := by simpa [Storage.entries] using h.nodup
  within := h.within.mono (fun y hy ↦ by simp [Storage.slots]; exact .inr (.inr hy))
    fun j hj ↦ by simpa [Storage.entries] using hj
  allocates := h.allocates
  kept howning := by
    cases howning with
    | block howning _ =>
      obtain ⟨rfl, hsize⟩ := h.kept howning
      exact ⟨rfl, hsize⟩

end Copied

theorem copyField_block {x z : Nat} (hslot : r.stack.slots[src - 1 - i]? = some (.block x))
    (hslot' : r.stack.slots[dst - 1 - i]? = some (.block z)) :
    copyField copy fuel src dst i r = copy x z r := by
  unfold copyField
  refine (bind_of_ok (by rw [read, slotAt_of_some hslot])).trans ?_
  exact (bind_of_ok (by rw [read, slotAt_of_some hslot'])).trans rfl

/-- Blocks of one type are copied field by field. -/
theorem copyBlock_eq (fuel : Nat) {t : TypeId} {n : Nat} (hne : src ≠ dst)
    (hsrc : r.stack.slots[src]? = some (.header t n))
    (hdst : r.stack.slots[dst]? = some (.header t n)) :
    copyBlock (fuel + 1) src dst r =
      (List.range n).forM (copyField (copyBlock fuel) fuel src dst) r := by
  unfold copyBlock
  rw [if_neg hne]
  refine (bind_of_ok (by rw [read, header_of_some hsrc])).trans ?_
  dsimp only
  refine (bind_of_ok (by rw [read, header_of_some hdst])).trans ?_
  refine (bind_of_ok rfl).trans ?_
  rw [if_neg (by simp)]

/-- The fields at `b` can take what the fields at `a` hold. -/
structure Ready (r : Running) (a : Nat) (ss : Storage) (c : Content) (b : Nat) (sd : Storage)
    (cd : Content) : Prop where
  source : r.stack.Stored a ss c
  target : r.stack.Stored b sd cd
  form : cd.form = c.form
  apart : ss.Apart a b sd
  distinct : sd.Distinct b
  lives : c.All (Value.Lives r.domain.heap)

/-- The fields after the first one are as they were. -/
theorem Rewritten.rest {r₁ : Running} {b : Nat} {first first' sd : Storage} {c cd : Content}
    (h : Rewritten r r₁ b first first' c) (hlength : first.length = 1)
    (htarget : r.stack.Stored (b - 1) sd cd) (hdistinct : (first ++ sd).Distinct b) :
    r₁.stack.Stored (b - 1) sd cd := by
  have hapart := hdistinct.apart
  rw [hlength] at hapart
  exact htarget.within h.within (fun x hx hx' ↦ hapart.slots x hx' hx)
    fun i hi hi' ↦ hapart.entries i hi' hi

/-- Once the first field is copied, the others can be. -/
theorem Ready.next (first : Storage) {r₁ : Running} {a b : Nat} {first' ss sd sd' : Storage}
    {c f f' cd : Content} (h : Copied r r₁ b first' sd' f f') (hlength : first.length = 1)
    (hlength' : first'.length = 1) (hsource : r.stack.Stored (a - 1) ss c)
    (htarget : r.stack.Stored (b - 1) sd cd) (hform : cd.form = c.form)
    (hapart : (first ++ ss).Apart a b (first' ++ sd)) (hdistinct : (first' ++ sd).Distinct b)
    (hlives : c.All (Value.Lives r.domain.heap)) : Ready r₁ (a - 1) ss c (b - 1) sd cd where
  source := by
    have happ := hapart.right.symm.left
    rw [hlength] at happ
    exact hsource.within h.within (fun x hx hx' ↦ happ.slots x hx' hx)
      fun i hi hi' ↦ happ.entries i hi' hi
  target := h.rest hlength' htarget hdistinct
  form := hform
  apart := by
    have happ := hapart.right.symm.right.symm
    rwa [hlength, hlength'] at happ
  distinct := hlength' ▸ hdistinct.right
  lives := hlives.imp fun v hv id hid ↦ (hv id hid).trans_le h.allocates.size

/-- The first field and the others together. -/
theorem Copied.andThen {r₁ : Running} {b : Nat} {first first' sd total : Storage}
    {c f f' cd : Content} {x : RunM Unit} (h : Copied r r₁ b first first' f f')
    (hlength : first.length = 1) (htotal : first ++ sd = total) (hdistinct : total.Distinct b)
    (htarget : r.stack.Stored (b - 1) sd cd) (hlives : c.All (Value.Lives r.domain.heap))
    (hrest : Succeeds x r₁ fun _ r' ↦ ∃ st' c', Copied r₁ r' (b - 1) sd st' c c') :
    Succeeds x r₁ fun _ r' ↦ ∃ st' c', Copied r r' b total st' (f ++ c) c' := by
  subst htotal
  refine hrest.imp fun _ r' ⟨st', c', h'⟩ ↦ ⟨first' ++ st', f' ++ c', ?_⟩
  exact h.append (hlength ▸ h') hdistinct htarget.lt_managed hlives

/-- By induction on what the source holds: each field is copied in a state in which the fields
before it are done, which have no slot or entry in common with the ones that are left. -/
theorem succeeds_copyFields {c cd : Content} {k : Nat} {ss sd : Storage}
    (h : Ready r (src - 1 - k) ss c (dst - 1 - k) sd cd) (hdepth : c.depth < fuel) :
    Succeeds ((List.range' k sd.length).forM (copyField (copyBlock fuel) fuel src dst)) r
      fun _ r' ↦ ∃ st' c', Copied r r' (dst - 1 - k) sd st' c c' := by
  induction c generalizing fuel k ss sd cd src dst r with
  | nil =>
    have htarget := h.target
    cases htarget with
    | nil => exact .pure ⟨.nil, .nil, .nil⟩
    | _ => cases h.form
  | number x c ih =>
    obtain ⟨hsource, htarget, hform, hapart, hdistinct, hlives⟩ := h
    obtain ⟨y, sd, cd, rfl, hform, hleaf, htarget⟩ := htarget.exists_number hform
    cases hsource with
    | number hslot hx hsource =>
      rw [Storage.length, List.range'_succ]
      refine .forM_cons ((succeeds_copyNumber hx hslot hleaf).imp fun _ r₁ h ↦ ?_)
      obtain ⟨hset, hwithin, hmanaged, hdomain⟩ := h
      have hfirst : Copied r r₁ (dst - 1 - k) (.plain .nil) _ (.number x .nil) _ :=
        .number hx hset hwithin hmanaged hdomain
      have hnext := Ready.next (.plain .nil) hfirst rfl rfl hsource htarget hform hapart
        hdistinct hlives
      exact hfirst.andThen rfl rfl hdistinct htarget hlives (ih hnext hdepth)
  | value v c ih =>
    obtain ⟨fuel, rfl⟩ := Nat.exists_eq_succ_of_ne_zero (Nat.ne_zero_of_lt hdepth)
    obtain ⟨hsource, htarget, hform, hapart, hdistinct, hlives⟩ := h
    obtain ⟨y, own, sd, cd, rfl, hform, hleaf, htarget⟩ := htarget.exists_leaf hform
    have hsplit : Storage.field own .nil ++ sd = .field own sd := by simp
    obtain ⟨from_, ss, rfl, hkeeps, hsource⟩ := hsource.exists_keeps
    have hsplit' : Storage.field from_ .nil ++ ss = .field from_ ss := by simp
    rw [Storage.length_field, List.range'_succ]
    refine .forM_cons ((succeeds_copyValue hkeeps hleaf).imp fun _ r₁ h ↦ ?_)
    obtain ⟨v', own', hkeeps', hclone, hallocates, hwithin, hown, hkept⟩ := h
    have hfirst : Copied r r₁ (dst - 1 - k) (.field own .nil) _ (.value v .nil) _ :=
      .value hkeeps' hclone hallocates hwithin hown hkept
    have hnext := Ready.next (.field from_ .nil) hfirst (by simp [Storage.length])
      (by simp [Storage.length]) hsource htarget hform (hsplit' ▸ hsplit ▸ hapart)
      (hsplit ▸ hdistinct) hlives.2
    exact hfirst.andThen (by simp [Storage.length]) hsplit hdistinct htarget hlives.2
      (ih hnext hdepth)
  | block t i c ihi ih =>
    obtain ⟨fuel, rfl⟩ := Nat.exists_eq_succ_of_ne_zero (Nat.ne_zero_of_lt hdepth)
    obtain ⟨hsource, htarget, hform, hapart, hdistinct, hlives⟩ := h
    obtain ⟨z, inner, sd, i', cd, rfl, hform', hform, hslot', hheader', htarget', htarget⟩ :=
      htarget.exists_block hform
    cases hsource with
    | @block _ x _ inner' ss _ _ hslot hheader hsource' hsource =>
      obtain ⟨hapart', hne⟩ := hapart.inner
      obtain ⟨hdistinct', hnotin, hnotin'⟩ := hdistinct.inner
      have hlength : inner'.length = inner.length := by
        rw [hsource'.length_eq, htarget'.length_eq, ← i'.length_form, hform', i.length_form]
      have hcopy : copyField (copyBlock (fuel + 1)) (fuel + 1) src dst k r =
          (List.range' 0 inner.length).forM (copyField (copyBlock fuel) fuel x z) r := by
        rw [copyField_block hslot hslot', copyBlock_eq _ hne (hlength ▸ hheader) hheader',
          List.range_eq_range']
      have hdepth' : i.depth < fuel := by
        have hle := Nat.le_max_left (i.depth + 1) c.depth
        exact Nat.lt_of_succ_lt_succ (hle.trans_lt hdepth)
      rw [Storage.length, List.range'_succ]
      have hready : Ready r (x - 1) inner' i (z - 1) inner i' :=
        ⟨hsource', htarget', hform', hapart', hdistinct', hlives.1⟩
      refine .forM_cons (.congr hcopy ((ihi hready hdepth').imp fun _ r₁ h ↦ ?_))
      obtain ⟨st', c', h⟩ := h
      have hfirst : Copied r r₁ (dst - 1 - k) (.block z inner .nil) _ (.block t i .nil) _ :=
        .block hslot' hheader' h hnotin hnotin'
      have hnext := Ready.next (.block x inner' .nil) hfirst rfl rfl hsource htarget hform
        hapart hdistinct hlives.2
      exact hfirst.andThen rfl rfl hdistinct htarget hlives.2
        (ih hnext ((Nat.le_max_right _ _).trans_lt hdepth))

end Engine

end ManagedMachine
