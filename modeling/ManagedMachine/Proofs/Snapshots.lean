import ManagedMachine.Proofs.Boxing

/-!
# Boxes of blocks

When a struct leaves the stack, a new box is made for it and for every struct in it. The boxes hold
what the block reads as.

Reading a block makes boxes from the inside out: the boxes for the fields come before the one for
the struct. `Taken` says of a row of fields that they have been boxed, with what the boxes hold and
how the heap has grown, and is put together field by field (`Taken.cons`).
-/

set_option autoImplicit false
set_option relaxedAutoImplicit false

namespace ManagedMachine

open Engine

/-! ### What blocks read as -/

theorem Succeeds.mapM_cons {ε σ α γ : Type} {g : γ → EStateM ε σ α} {c : γ} {cs : List γ} {s : σ}
    {Q : List α → σ → Prop}
    (h : Succeeds (g c) s fun a t ↦ Succeeds (cs.mapM g) t fun as ↦ Q (a :: as)) :
    Succeeds ((c :: cs).mapM g) s Q := by
  rw [List.mapM_cons]
  exact h.bind fun a t ht ↦ ht.bind fun as u hu ↦ .pure hu

namespace Content

/-- The binders of bound structs can read what their slots hold, and write it again. -/
def Readable (d : Domain) : Content → Prop
  | nil => True
  | number _ rest => rest.Readable d
  | value _ rest => rest.Readable d
  | block t inner rest => (∀ b, d.style? t = some (.bound b) → ∃ slots data,
      inner = ofSlots slots ∧ b.read slots = .ok data ∧ b.write data = .ok slots) ∧
    inner.Readable d ∧ rest.Readable d

theorem Numeric.readable {d : Domain} {c : Content} (h : c.Numeric) : c.Readable d := by
  induction c with
  | nil => trivial
  | number _ _ ih => exact ih h
  | _ => cases h

theorem Numeric.all {P : Value → Prop} {c : Content} (h : c.Numeric) : c.All P := by
  induction c with
  | nil => trivial
  | number _ _ ih => exact ih h
  | _ => cases h

/-- What is readable stays so if the values in it are replaced by others that can be told from them
by nothing. -/
theorem Maps.readable {R : Value → Value → Prop} {d : Domain} {c c' : Content} (h : Maps R c c')
    (hc : c.Readable d) : c'.Readable d := by
  induction h with
  | nil => trivial
  | number _ ih => exact ih hc
  | value _ _ ih => exact ih hc
  | block hi _ ihi ih =>
    obtain ⟨hbound, hinner, hrest⟩ := hc
    refine ⟨fun b hs ↦ ?_, ihi hinner, ih hrest⟩
    obtain ⟨slots, data, rfl, h⟩ := hbound b hs
    exact ⟨slots, data, hi.numeric (numeric_ofSlots slots), h⟩

end Content

namespace Domain

/-- The second content is what the first one reads as: numbers are cut down to their types, and
values are replaced as `R` says. -/
inductive Shows (d : Domain) (R : Value → Value → Prop) : List TypeId → Content → Content → Prop
  | nil : Shows d R [] .nil .nil
  | number {t : TypeId} {p : Primitive} {x : Slot} {ts : List TypeId} {c c' : Content}
    (hp : (d.registry.type t).primitive? = some p) (h : Shows d R ts c c') :
    Shows d R (t :: ts) (.number x c) (.number (x.narrowed p) c')
  | value {t : TypeId} {v v' : Value} {ts : List TypeId} {c c' : Content}
    (hp : (d.registry.type t).primitive? = none) (hs : d.style? t = none) (hv : R v v')
    (h : Shows d R ts c c') : Shows d R (t :: ts) (.value v c) (.value v' c')
  | bound {t : TypeId} {b : StructBinder} {i : Content} {ts : List TypeId} {c c' : Content}
    (hs : d.style? t = some (.bound b)) (hi : i.Numeric) (h : Shows d R ts c c') :
    Shows d R (t :: ts) (.block t i c) (.block t i c')
  | struct {t : TypeId} {l : FieldLayout} {i i' : Content} {ts : List TypeId} {c c' : Content}
    (hs : d.style? t = some .fields) (hl : d.registry.Lays t l)
    (hi : Shows d R (l.instance_.map Field.type) i i') (h : Shows d R ts c c') :
    Shows d R (t :: ts) (.block t i c) (.block t i' c')

variable {d d' : Domain} {n : Nat} {ts : List TypeId} {vs : List Value} {c c' : Content}
  {R R' : Value → Value → Prop}

theorem Shows.imp (h : d.Shows R ts c c') (hR : ∀ v v', R v v' → R' v v') : d.Shows R' ts c c' := by
  induction h with
  | nil => exact .nil
  | number hp _ ih => exact .number hp ih
  | value hp hs hv _ ih => exact .value hp hs (hR _ _ hv) ih
  | bound hs hi _ ih => exact .bound hs hi ih
  | struct hs hl _ _ ihi ih => exact .struct hs hl ihi ih

/-- What held before may be used of every value that is replaced. -/
theorem Shows.imp_of_all {P : Value → Prop} (h : d.Shows R ts c c') (hc : c.All P)
    (hR : ∀ v v', P v → R v v' → R' v v') : d.Shows R' ts c c' := by
  induction h with
  | nil => exact .nil
  | number hp _ ih => exact .number hp (ih hc)
  | value hp hs hv _ ih => exact .value hp hs (hR _ _ hc.1 hv) (ih hc.2)
  | bound hs hi _ ih => exact .bound hs hi (ih hc.2)
  | struct hs hl _ _ ihi ih => exact .struct hs hl (ihi hc.1) (ih hc.2)

theorem Shows.form_eq (h : d.Shows R ts c c') : c'.form = c.form := by
  induction h with
  | nil => rfl
  | number _ _ ih => rw [Content.form, Content.form, ih]
  | value _ _ _ _ ih => rw [Content.form, Content.form, ih]
  | bound _ _ _ ih => rw [Content.form, Content.form, ih]
  | struct _ _ _ _ ihi ih => rw [Content.form, Content.form, ihi, ih]

theorem Shows.exists_block {t : TypeId} {i : Content} (h : d.Shows R [t] (.block t i .nil) c) :
    ∃ i', c = .block t i' .nil := by
  cases h with
  | bound _ _ hrest =>
    cases hrest
    exact ⟨_, rfl⟩
  | struct _ _ _ hrest =>
    cases hrest
    exact ⟨_, rfl⟩

theorem Shows.all {P P' : Value → Prop} (h : d.Shows R ts c c') (hc : c.All P)
    (hR : ∀ v v', P v → R v v' → P' v') : c'.All P' := by
  induction h with
  | nil => trivial
  | number _ _ ih => exact ih hc
  | value _ _ hv _ ih => exact ⟨hR _ _ hc.1 hv, ih hc.2⟩
  | bound _ hi _ ih => exact ⟨hi.all, ih hc.2⟩
  | struct _ _ _ _ ihi ih => exact ⟨ihi hc.1, ih hc.2⟩

/-- Whatever becomes of the values, the numbers are shown. -/
theorem Shows.maps {c'' : Content} (h : d.Shows R ts c c') (hmaps : c'.Maps R' c'') :
    d.Shows (fun _ _ ↦ True) ts c c'' := by
  induction h generalizing c'' with
  | nil =>
    cases hmaps
    exact .nil
  | number hp _ ih =>
    cases hmaps with
    | number hmaps => exact .number hp (ih hmaps)
  | value hp hs _ _ ih =>
    cases hmaps with
    | value _ hmaps => exact .value hp hs trivial (ih hmaps)
  | bound hs hi _ ih =>
    cases hmaps with
    | block hi' hmaps =>
      obtain rfl := hi'.numeric hi
      exact .bound hs hi (ih hmaps)
  | struct hs hl _ _ ihi ih =>
    cases hmaps with
    | block hi' hmaps => exact .struct hs hl (ihi hi') (ih hmaps)

theorem Shows.cons {t : TypeId} {f f' : Content} (h : d.Shows R [t] f f')
    (h' : d.Shows R ts c c') : d.Shows R (t :: ts) (f ++ c) (f' ++ c') := by
  cases h with
  | number hp h => cases h; exact .number hp h'
  | value hp hs hv h => cases h; exact .value hp hs hv h'
  | bound hs hi h => cases h; exact .bound hs hi h'
  | struct hs hl hi h => cases h; exact .struct hs hl hi h'

/-- A bound struct that was boxed can be read from slots. -/
theorem Boxed.readable (h : d.Boxed n ts vs c) : c.Readable d := by
  induction h with
  | nil => trivial
  | number _ _ _ _ ih => exact ih
  | value _ _ _ _ ih => exact ih
  | bound hs _ _ _ hwrite hread _ ih =>
    refine ⟨fun b' hs' ↦ ?_, (Content.numeric_ofSlots _).readable, ih⟩
    cases hs'.symm.trans hs
    exact ⟨_, _, rfl, hread, hwrite⟩
  | struct hs _ _ _ _ _ _ ihi ih =>
    refine ⟨fun b hs' ↦ ?_, ihi, ih⟩
    cases hs'.symm.trans hs

/-- A field, and the rest of the fields. -/
theorem Boxed.cons {t : TypeId} {v : Value} {f : Content} (h : d.Boxed n [t] [v] f)
    (h' : d.Boxed n ts vs c) : d.Boxed n (t :: ts) (v :: vs) (f ++ c) := by
  cases h with
  | number hp hx hnarrow h => cases h; exact .number hp hx hnarrow h'
  | value ht hp hs h => cases h; exact .value ht hp hs h'
  | bound hs hid hlt hobject hwrite hread h =>
    cases h
    exact .bound hs hid hlt hobject hwrite hread h'
  | struct hs hl hid hlt hobject hi h =>
    cases h
    exact .struct hs hl hid hlt hobject hi h'

theorem succeeds_newObject (d : Domain) (o : HeapObject) : Succeeds (newObject o) d fun v d' ↦
    ∃ id, v = .object id ∧ d.Allocates d' ∧ d.Makes d' o id :=
  (succeeds_allocate d o).bind fun id _ h ↦ .pure ⟨id, rfl, h⟩

end Domain

namespace Engine

open Stack

variable {r : Running} {fuel a n : Nat} {t : TypeId}

/-- What the box of a block gets for a field. -/
def fieldValue (fuel b : Nat) (p : Field × Nat) : RunM Value := do
  match ← read (·.slotAt (b - 1 - p.2)) with
  | .object entry => sharedOrCopied fuel (← read (·.entry entry))
  | s => readValue fuel s p.1.type

/-- Taking boxes leaves the stack as it is, and makes new objects that read as the content does. -/
structure Taken (d : Domain) (r r' : Running) (n : Nat) (ts : List TypeId) (vs : List Value)
    (c c' : Content) : Prop where
  stack : r'.stack = r.stack
  allocates : r.domain.Allocates r'.domain
  shows : d.Shows (r.domain.CloneOf r'.domain) ts c c'
  boxed : r'.domain.Boxed n ts vs c'

/-- A field that was boxed, and then the rest. -/
theorem Taken.cons {d : Domain} {r₁ r' : Running} {ts : List TypeId} {v : Value} {vs : List Value}
    {f f' c c' : Content} (h : Taken d r r₁ n [t] [v] f f') (h' : Taken d r₁ r' n ts vs c c')
    (hc : c.All (Value.Lives r.domain.heap)) :
    Taken d r r' n (t :: ts) (v :: vs) (f ++ c) (f' ++ c') where
  stack := h'.stack.trans h.stack
  allocates := h.allocates.trans h'.allocates
  shows := by
    refine (h.shows.imp fun _ _ hv ↦ hv.later h'.allocates).cons ?_
    exact h'.shows.imp_of_all hc fun _ _ hlives hv ↦ hv.earlier h.allocates hlives
  boxed := (h.boxed.grown h'.allocates.grown).cons h'.boxed

theorem Taken.lives {d : Domain} {r' : Running} {ts : List TypeId} {vs : List Value}
    {f f' c : Content} (h : Taken d r r' n ts vs f f') (hc : c.All (Value.Lives r.domain.heap)) :
    c.All (Value.Lives r'.domain.heap) :=
  hc.imp fun _ hv id hid ↦ (hv id hid).trans_le h.allocates.size

/-- The first field and the others together. -/
theorem Taken.andThen {d : Domain} {r₁ : Running} {ts : List TypeId} {v : Value} {f f' c : Content}
    {x : RunM (List Value)} (h : Taken d r r₁ n [t] [v] f f')
    (hc : c.All (Value.Lives r.domain.heap))
    (hrest : Succeeds x r₁ fun vs r' ↦ ∃ c', Taken d r₁ r' n ts vs c c') :
    Succeeds x r₁ fun vs r' ↦ ∃ c', Taken d r r' n (t :: ts) (v :: vs) (f ++ c) c' :=
  hrest.imp fun _ _ ⟨_, h'⟩ ↦ ⟨_, h.cons h' hc⟩

theorem fieldValue_leaf {f : Field} {b k : Nat} {x : Slot} (h : r.stack.slots[b - 1 - k]? = some x)
    (hx : ∀ i, x ≠ .object i) : fieldValue fuel b (f, k) r = readValue fuel x f.type r := by
  unfold fieldValue
  refine (bind_of_ok (by rw [read, slotAt_of_some h])).trans ?_
  cases x with
  | object i => exact absurd rfl (hx i)
  | _ => rfl

theorem readValue_number {p : Primitive} {x : Slot}
    (hp : (r.domain.registry.type t).primitive? = some p) (hx : x.Of p) :
    readValue (fuel + 1) x t r = .ok (x.value (some p)) r := by
  unfold readValue
  cases hx with
  | null => rfl
  | _ =>
    refine (bind_of_ok (descriptor_ok t r)).trans ?_
    rw [hp]
    rfl

/-- A number that is pushed as an operand of its type is cut down to the type. -/
theorem pushValue_number (fuel : Nat) {p : Primitive} {x : Slot}
    (hp : (r.domain.registry.type t).primitive? = some p) (hvoid : p ≠ .void) (hx : x.Of p)
    (hroom : r.stack.top < r.stack.low) : pushValue fuel (x.value (some p)) t r =
      .ok () (r.withStack (r.stack.pushed (x.narrowed p))) := by
  have hslot : ofExcept ((x.value (some p)).slotFor p) r = .ok (x.narrowed p) r := by
    rw [hx.slotFor_value]
    rfl
  unfold pushValue
  refine (bind_of_ok (descriptor_ok t r)).trans ?_
  rw [hp]
  cases p with
  | void => exact absurd rfl hvoid
  | _ => exact (bind_of_ok hslot).trans (Running.onStack_ok (push_of_lt hroom))

section Fields

variable {d : Domain} {f : Field} {b k : Nat}

theorem succeeds_takeNumber {p : Primitive} {x : Slot} (hd : d.Grown r.domain)
    (hp : (d.registry.type f.type).primitive? = some p) (hx : x.Of p)
    (h : r.stack.slots[b - 1 - k]? = some x) :
    Succeeds (fieldValue (fuel + 1) b (f, k)) r fun v r' ↦
      ∃ c', Taken d r r' n [f.type] [v] (.number x .nil) c' := by
  have hp' : (r.domain.registry.type f.type).primitive? = some p :=
    hd.registry.type_eq (Domain.lt_size_of_primitive hp) ▸ hp
  have hleaf : ∀ i, x ≠ .object i := by
    rintro i rfl
    cases hx
  refine .of_ok ((fieldValue_leaf h hleaf).trans (readValue_number hp' hx)) ⟨_, rfl, .refl _,
    .number hp .nil, ?_⟩
  rw [← hx.value_narrowed]
  exact .number hp' hx.narrowed (x.narrowed_narrowed p) .nil

/-- A field of a reference type is taken as it is. -/
theorem succeeds_takeValue {v : Value} {own : Option Nat} (hd : d.Grown r.domain)
    (ht : f.type.index < d.registry.types.size)
    (hp : (d.registry.type f.type).primitive? = none) (hs : d.style? f.type = none)
    (h : r.stack.Keeps (b - 1 - k) v own) :
    Succeeds (fieldValue (fuel + 1) b (f, k)) r fun v' r' ↦
      ∃ c', Taken d r r' n [f.type] [v'] (.value v .nil) c' := by
  have hboxed {d' : Domain} {v' : Value} (hextends : d.Extends d') :
      d'.Boxed n [f.type] [v'] (.value v' .nil) :=
    .value (ht.trans_le hextends.size_le) (hextends.registry.type_eq ht ▸ hp)
      ((hextends.style? ht).trans hs) .nil
  cases own with
  | none =>
    obtain ⟨rfl, hslot⟩ := h
    exact .of_ok ((fieldValue_leaf hslot nofun).trans rfl) ⟨.value .null .nil, rfl, .refl _,
      .value hp hs (.shared nofun) .nil, hboxed hd.toExtends⟩
  | some i =>
    obtain ⟨hslot, hentry⟩ := h
    obtain ⟨v', d', hv, hallocates, hclone⟩ := Domain.succeeds_sharedOrCopied (d := r.domain) fuel v
    have hread : read (·.entry i) r = .ok v r := by rw [read, entry_of_some hentry]
    have hrun : fieldValue (fuel + 1) b (f, k) r = .ok v' (r.withDomain d') := by
      unfold fieldValue
      refine (bind_of_ok (by rw [read, slotAt_of_some hslot])).trans ?_
      exact (bind_of_ok hread).trans (Running.onDomain_ok hv)
    exact .of_ok hrun ⟨.value v' .nil, rfl, hallocates, .value hp hs hclone .nil,
      hboxed (hd.toExtends.trans hallocates.extends)⟩

end Fields

theorem mapM_slotAt {z k : Nat} {st : Storage} {slots : List Slot}
    (h : r.stack.Stored (z - 1 - k) st (.ofSlots slots)) :
    (List.range' k st.length).mapM (fun i ↦ read (·.slotAt (z - 1 - i))) r = .ok slots r := by
  induction slots generalizing k st with
  | nil => cases h; rfl
  | cons x slots ih =>
    cases h with
    | number hslot _ hrest =>
      rw [Storage.length, List.range'_succ, List.mapM_cons]
      refine (bind_of_ok (by rw [read, slotAt_of_some hslot])).trans ?_
      exact (bind_of_ok (ih hrest)).trans rfl

variable {z : Nat} {inner : Storage} {i : Content} {d : Domain}

/-- A bound struct is read by its binder. -/
theorem succeeds_snapshotBound {b : StructBinder} {data : HostData} {slots : List Slot}
    (hd : d.Grown r.domain) (hs : d.style? t = some (.bound b)) (hn : n ≤ r.domain.heap.size)
    (hheader : r.stack.slots[z]? = some (.header t inner.length))
    (hstored : r.stack.Stored (z - 1) inner (.ofSlots slots)) (hread : b.read slots = .ok data)
    (hwrite : b.write data = .ok slots) :
    Succeeds (snapshot (fuel + 1) z) r fun w r' ↦ ∃ c',
      Taken d r r' n [t] [w] (.block t (.ofSlots slots) .nil) c' := by
  have hs' := (hd.style? (Domain.lt_size_of_style? hs)).trans hs
  have hkind : inlineKind fuel t r = .ok (some (.bound b)) r := by rw [inlineKind_eq, hs']
  have hslots : (List.range inner.length).mapM (fun i ↦ read (·.slotAt (z - 1 - i))) r =
      .ok slots r := by
    rw [List.range_eq_range']
    exact mapM_slotAt hstored
  have hfields : blockFields z r = .ok slots r :=
    (bind_of_ok (by rw [read, header_of_some hheader])).trans hslots
  unfold snapshot
  refine .read (header_of_some hheader) (.bind_ok (typeAt_of_lt (Domain.lt_size_of_style? hs')) ?_)
  refine .bind_ok hkind (.bind_ok hfields (.bind_ok (a := data) (t := r) (by rw [hread]; rfl) ?_))
  refine .domain (Domain.succeeds_newObject _ (.native t data)) ?_
  rintro _ d' ⟨id, rfl, hallocates, hmade⟩
  have hstyle := (hallocates.extends.style? (Domain.lt_size_of_style? hs')).trans hs'
  exact ⟨_, rfl, hallocates, .bound hs (Content.numeric_ofSlots slots) .nil,
    .bound hstyle (hn.trans hmade.new) hmade.there hmade.object hwrite hread .nil⟩

theorem snapshotStruct_eq {l : FieldLayout} (hs : r.domain.style? t = some .fields)
    (hl : r.domain.registry.facts.layouts[t]? = some l)
    (hheader : r.stack.slots[z]? = some (.header t l.instance_.length)) :
    snapshot (fuel + 2) z r = (l.instance_.zipIdx.mapM (fieldValue (fuel + 1) z) >>= fun fields ↦
      Running.onDomain (Domain.newObject (.instance_ t fields.toArray false)) : RunM Value) r := by
  have hread : read (·.header z) r = .ok (t, l.instance_.length) r := by
    rw [read, header_of_some hheader]
  unfold snapshot
  refine (bind_of_ok hread).trans
    ((bind_of_ok (typeAt_of_lt (Domain.lt_size_of_style? hs))).trans ?_)
  refine (bind_of_ok (inlineKind_known hs hl)).trans ?_
  dsimp only
  rw [List.take_length]
  rfl

/-- The fields are taken, and then the box is made. -/
theorem succeeds_snapshotStruct {l : FieldLayout} (hd : d.Grown r.domain)
    (hs : d.style? t = some .fields) (hl : d.registry.facts.layouts[t]? = some l)
    (hheader : r.stack.slots[z]? = some (.header t l.instance_.length))
    (hn : n ≤ r.domain.heap.size)
    (hfields : Succeeds (l.instance_.zipIdx.mapM (fieldValue (fuel + 1) z)) r fun vs r' ↦ ∃ c',
      Taken d r r' n (l.instance_.map Field.type) vs i c') :
    Succeeds (snapshot (fuel + 2) z) r fun w r' ↦ ∃ c',
      Taken d r r' n [t] [w] (.block t i .nil) c' := by
  have hs' := (hd.style? (Domain.lt_size_of_style? hs)).trans hs
  refine .congr (snapshotStruct_eq hs' (hd.registry.layouts _ _ hl) hheader) ?_
  refine hfields.bind fun vs r₁ ⟨i', h⟩ ↦ ?_
  refine .domain (Domain.succeeds_newObject _ (.instance_ t vs.toArray false)) ?_
  rintro _ d' ⟨id, rfl, hallocates, hmade⟩
  have hgrown := (hd.trans h.allocates.grown).trans hallocates.grown
  have hshows := h.shows.imp fun _ _ hv ↦ hv.later hallocates
  refine ⟨.block t i' .nil, h.stack, h.allocates.trans hallocates,
    .struct hs (.of_known hl) hshows .nil, ?_⟩
  exact .struct ((hgrown.style? (Domain.lt_size_of_style? hs)).trans hs)
    (.of_known (hgrown.registry.layouts _ _ hl)) (hn.trans (h.allocates.size.trans hmade.new))
    hmade.there hmade.object (h.boxed.grown hallocates.grown) .nil

/-- By induction on the types of the fields. -/
theorem succeeds_fieldValues {ts : List TypeId} {c : Content} {fs : List Field} {b k : Nat}
    {st : Storage} (h : d.Typed ts c) (hd : d.Grown r.domain) (hreadable : c.Readable d)
    (hn : n ≤ r.domain.heap.size) (hfs : fs.map Field.type = ts)
    (hstored : r.stack.Stored (b - 1 - k) st c) (hlives : c.All (Value.Lives r.domain.heap))
    (hdepth : 2 * c.depth < fuel) :
    Succeeds ((fs.zipIdx k).mapM (fieldValue fuel b)) r fun vs r' ↦ ∃ c',
      Taken d r r' n ts vs c c' := by
  induction h generalizing r fuel fs b k st with
  | nil =>
    obtain rfl := List.map_eq_nil_iff.mp hfs
    exact .pure ⟨.nil, rfl, .refl _, .nil, .nil⟩
  | @number t p x ts c hp hx _ ih =>
    obtain ⟨f, fs, rfl, rfl, hfields⟩ := List.map_eq_cons_iff.mp hfs
    obtain ⟨fuel, rfl⟩ := Nat.exists_eq_succ_of_ne_zero (Nat.ne_zero_of_lt hdepth)
    cases hstored with
    | number hslot _ hrest =>
      refine .mapM_cons ((succeeds_takeNumber (n := n) hd hp (Slot.of_kind hx) hslot).imp
        fun v r₁ h ↦ ?_)
      obtain ⟨f', hfirst⟩ := h
      exact hfirst.andThen hlives (ih (hd.trans hfirst.allocates.grown) hreadable
        (hn.trans hfirst.allocates.size) hfields (hfirst.stack ▸ hrest) (hfirst.lives hlives)
        hdepth)
  | @value t v ts c ht hp hs _ ih =>
    obtain ⟨f, fs, rfl, rfl, hfields⟩ := List.map_eq_cons_iff.mp hfs
    obtain ⟨fuel, rfl⟩ := Nat.exists_eq_succ_of_ne_zero (Nat.ne_zero_of_lt hdepth)
    obtain ⟨own, st, rfl, hkeeps, hrest⟩ := hstored.exists_keeps
    refine .mapM_cons ((succeeds_takeValue (n := n) hd ht hp hs hkeeps).imp fun v r₁ h ↦ ?_)
    obtain ⟨f', hfirst⟩ := h
    exact hfirst.andThen hlives.2 (ih (hd.trans hfirst.allocates.grown) hreadable
      (hn.trans hfirst.allocates.size) hfields (hfirst.stack ▸ hrest) (hfirst.lives hlives.2)
      hdepth)
  | @bound t binder i ts c hs hi hlength _ ih =>
    obtain ⟨f, fs, rfl, rfl, hfields⟩ := List.map_eq_cons_iff.mp hfs
    obtain ⟨slots, data, rfl, hread, hwrite⟩ := hreadable.1 _ hs
    obtain ⟨fuel, rfl⟩ : ∃ m, fuel = m + 2 := by
      simp only [Content.depth] at hdepth
      exact ⟨fuel - 2, by omega⟩
    cases hstored with
    | @block _ z _ inner st _ _ hslot hheader hinner hrest =>
      have hfield : fieldValue (fuel + 2) b (f, k) r = snapshot (fuel + 1) z r :=
        fieldValue_leaf hslot (by simp)
      refine .mapM_cons
        (.congr hfield ((succeeds_snapshotBound hd hs hn hheader hinner hread hwrite).imp
        fun v r₁ h ↦ ?_))
      obtain ⟨f', hfirst⟩ := h
      exact hfirst.andThen hlives.2 (ih (hd.trans hfirst.allocates.grown)
        hreadable.2.2 (hn.trans hfirst.allocates.size) hfields (hfirst.stack ▸ hrest)
        (hfirst.lives hlives.2) (by simp only [Content.depth] at hdepth; omega))
  | @struct t l i ts c hs hl hi _ ihi ih =>
    obtain ⟨f, fs, rfl, rfl, hfields⟩ := List.map_eq_cons_iff.mp hfs
    obtain ⟨-, hreadable', hreadable⟩ := hreadable
    simp only [Content.depth] at hdepth
    obtain ⟨fuel, rfl⟩ : ∃ m, fuel = m + 3 := ⟨fuel - 3, by omega⟩
    cases hstored with
    | @block _ z _ inner st _ _ hslot hheader hinner hrest =>
      have hfield : fieldValue (fuel + 3) b (f, k) r = snapshot (fuel + 2) z r :=
        fieldValue_leaf hslot (by simp)
      have hcount : inner.length = l.instance_.length := by
        rw [hinner.length_eq, hi.length_eq, List.length_map]
      have hdepth' : 2 * i.depth < fuel + 1 := by omega
      have hblock := succeeds_snapshotStruct hd hs hl (hcount ▸ hheader) hn
        (ihi (k := 0) hd hreadable' hn rfl hinner hlives.1 hdepth')
      refine .mapM_cons (.congr hfield (hblock.imp fun v r₁ h ↦ ?_))
      obtain ⟨f', hfirst⟩ := h
      exact hfirst.andThen hlives.2 (ih (hd.trans hfirst.allocates.grown)
        hreadable (hn.trans hfirst.allocates.size) hfields (hfirst.stack ▸ hrest)
        (hfirst.lives hlives.2) (by omega))

/-- By induction on the type of the block. -/
theorem succeeds_snapshot (h : d.Typed [t] (.block t i .nil)) (hd : d.Grown r.domain)
    (hreadable : (Content.block t i .nil).Readable d) (hn : n ≤ r.domain.heap.size)
    (hheader : r.stack.slots[z]? = some (.header t inner.length))
    (hstored : r.stack.Stored (z - 1) inner i) (hlives : i.All (Value.Lives r.domain.heap))
    (hdepth : 2 * i.depth + 1 < fuel) :
    Succeeds (snapshot fuel z) r fun w r' ↦ ∃ c', Taken d r r' n [t] [w] (.block t i .nil) c' := by
  obtain ⟨fuel, rfl⟩ : ∃ m, fuel = m + 2 := ⟨fuel - 2, by omega⟩
  cases h with
  | bound hs _ _ _ =>
    obtain ⟨slots, data, rfl, hread, hwrite⟩ := hreadable.1 _ hs
    exact succeeds_snapshotBound hd hs hn hheader hstored hread hwrite
  | @struct _ l _ _ _ hs hl hi _ =>
    have hcount : inner.length = l.instance_.length := by
      rw [hstored.length_eq, hi.length_eq, List.length_map]
    exact succeeds_snapshotStruct hd hs hl (hcount ▸ hheader) hn
      (succeeds_fieldValues (k := 0) hi hd hreadable.2.1 hn rfl hstored hlives (by omega))

end Engine

end ManagedMachine
