import ManagedMachine.Proofs.Requests

/-!
# Field layouts

The instance fields of an interpreted type start with those of its interpreted base type, so a field
has the same position in objects of the type that declares it and in objects of every type derived
from that one. This holds of all layouts that are known at any time, in whatever order they were
asked for (`Registry.Consulted.laid`), as each is put on top of the known layout of the base
(`Registry.Layered`).

A field that a search finds stands where it says in the layout of the type that was asked, and the
type that declares it is the first one on the way up with an instance field of the name
(`Registry.layouts_line_up`). Two limits show on one module (`Registry.layouts_out_of_line`): an
array between two interpreted types cuts the layouts off from each other, and a static field does
not hide an instance field of its name from a search for either.
-/

set_option autoImplicit false
set_option relaxedAutoImplicit false

namespace ManagedMachine

namespace FieldLayout

variable {l : FieldLayout} {f : Field} {name : String}

/-- The fields stand at the positions that they give, the instance fields and the statics apart. -/
structure Indexed (l : FieldLayout) : Prop where
  instances : ∀ (i : Nat) f, l.instance_[i]? = some f → f.index = i ∧ f.isStatic = false
  statics : ∀ (i : Nat) f, l.statics[i]? = some f → f.index = i ∧ f.isStatic = true

/-- The field of a name that a search of some kind takes: the latest instance field, the first
static one, or either, an instance field before a static one. -/
def pick? (l : FieldLayout) (name : String) : Option Bool → Option Field
  | some true => l.findStatic? name
  | some false => l.find? name
  | none => l.find? name <|> l.findStatic? name

theorem indexed_empty : empty.Indexed := ⟨nofun, nofun⟩

theorem Indexed.isStatic (h : l.Indexed) (hf : l.findStatic? name = some f) :
    f.isStatic = true := by
  obtain ⟨i, hi⟩ := List.getElem?_of_mem (List.mem_of_find?_eq_some hf)
  exact (h.statics i f hi).2

/-- What is picked and is no static field is the latest instance field of the name. -/
theorem Indexed.find?_of_pick? (h : l.Indexed) {kind : Option Bool}
    (hf : l.pick? name kind = some f) (hinstance : f.isStatic = false) : l.find? name = some f := by
  have hstatic (hf : l.findStatic? name = some f) : l.find? name = some f := by
    rw [h.isStatic hf] at hinstance
    cases hinstance
  match kind with
  | some true => exact hstatic hf
  | some false => exact hf
  | none =>
    cases hfind : l.find? name with
    | some g =>
      rw [pick?, hfind] at hf
      exact hf
    | none =>
      rw [pick?, hfind] at hf
      rw [← hfind]
      exact hstatic hf

/-- A search that picks nothing there has met no instance field of the name, unless it is one for
statics. -/
theorem find?_of_pick?_none {kind : Option Bool} (h : l.pick? name kind = none)
    (hkind : kind ≠ some true) : l.find? name = none := by
  match kind with
  | some true => exact absurd rfl hkind
  | some false => exact h
  | none =>
    rw [pick?] at h
    cases hfind : l.find? name with
    | some g =>
      rw [hfind] at h
      cases h
    | none => rfl

/-- The latest field of a name stands where it says, and no other one of the name behind it. -/
theorem Indexed.of_find? (h : l.Indexed) (hf : l.find? name = some f) :
    f.name = name ∧ l.instance_[f.index]? = some f ∧
      ∀ (i : Nat) g, l.instance_[i]? = some g → g.name = name → i ≤ f.index := by
  obtain ⟨hname, later, earlier, hsplit, hlater⟩ := List.find?_eq_some_iff_append.mp hf
  have hfields : l.instance_ = earlier.reverse ++ f :: later.reverse := by
    rw [← List.reverse_reverse l.instance_, hsplit, List.reverse_append, List.reverse_cons,
      List.append_assoc]
    rfl
  have hat : l.instance_[earlier.length]? = some f := by
    rw [hfields, List.getElem?_append_right (by rw [List.length_reverse]), List.length_reverse,
      Nat.sub_self]
    rfl
  have hindex := (h.instances _ f hat).1
  refine ⟨eq_of_beq hname, hindex ▸ hat, fun i g hg hsame ↦ ?_⟩
  by_contra hlt
  rw [hindex, Nat.not_le] at hlt
  obtain ⟨k, hk⟩ := Nat.exists_eq_add_of_lt hlt
  rw [hfields, List.getElem?_append_right (by rw [List.length_reverse]; omega),
    List.length_reverse, hk, show earlier.length + k + 1 - earlier.length = k + 1 by omega,
    List.getElem?_cons_succ] at hg
  have hmem := List.mem_reverse.mp (List.mem_of_getElem? hg)
  have hnot := hlater g hmem
  rw [Bool.not_eq_true', beq_eq_false_iff_ne] at hnot
  exact hnot hsame

end FieldLayout

/-- The rows of the fields that an interpreted type declares. -/
def Descriptor.fieldRows (d : Descriptor) : List FieldDef :=
  match d.shape with
  | .interpreted home token =>
    match home.content.fieldsOf token with
    | .ok rows => rows.map Prod.snd
    | .error _ => []
  | _ => []

namespace Registry

variable {r r' r₀ r₁ : Registry} {t u D B : TypeId} {l l' : FieldLayout} {f : Field}
  {fields : List Field} {rows : List FieldDef} {fuel : Nat} {name : String} {α : Type}
  {x : RegistryM α}

/-! ### One layout -/

theorem getElem?_append_singleton {a b : α} {xs : List α} {i : Nat}
    (h : (xs ++ [b])[i]? = some a) : xs[i]? = some a ∨ i = xs.length ∧ a = b := by
  rcases Nat.lt_trichotomy i xs.length with hlt | rfl | hgt
  · rw [List.getElem?_append_left hlt] at h
    exact Or.inl h
  · rw [List.getElem?_concat_length] at h
    exact Or.inr ⟨rfl, (Option.some.inj h).symm⟩
  · rw [List.getElem?_eq_none (by rw [List.length_append, List.length_singleton]; omega)] at h
    cases h

theorem indexed_appendField (h : l.Indexed) (t : TypeId) (name : String) (isStatic : Bool)
    (type : TypeId) (native : Option HostField) :
    (appendField l t name isStatic type native).Indexed := by
  cases isStatic with
  | true =>
    refine ⟨h.instances, fun i f hf ↦ ?_⟩
    rcases getElem?_append_singleton hf with hold | ⟨rfl, rfl⟩
    · exact h.statics i f hold
    · exact ⟨rfl, rfl⟩
  | false =>
    refine ⟨fun i f hf ↦ ?_, h.statics⟩
    rcases getElem?_append_singleton hf with hold | ⟨rfl, rfl⟩
    · exact h.instances i f hold
    · exact ⟨rfl, rfl⟩

/-- The second layout is the first one with the fields of some rows behind it. -/
structure Appended (t : TypeId) (rows : List FieldDef) (l l' : FieldLayout) : Prop where
  instances : ∃ own : List Field, l'.instance_ = l.instance_ ++ own ∧ (∀ f ∈ own, f.declaring = t) ∧
    own.map Field.name = (rows.filter (!·.isStatic)).map FieldDef.name
  indexed : l.Indexed → l'.Indexed

/-- A row adds its field, and the other rows theirs after it. -/
theorem Appended.cons {row : FieldDef} {type : TypeId}
    (h : Appended t rows (appendField l t row.name row.isStatic type none) l') :
    Appended t (row :: rows) l l' := by
  obtain ⟨own, hown, hdeclaring, hnames⟩ := h.instances
  refine ⟨?_, fun hl ↦ h.indexed (indexed_appendField hl t row.name row.isStatic type none)⟩
  cases hstatic : row.isStatic with
  | true =>
    rw [hstatic] at hown
    refine ⟨own, hown, hdeclaring, ?_⟩
    rw [hnames, List.filter_cons_of_neg (by simp [hstatic])]
  | false =>
    rw [hstatic] at hown
    refine ⟨⟨t, row.name, l.instance_.length, false, type, none⟩ :: own, ?_, ?_, ?_⟩
    · rw [hown]
      exact List.append_assoc ..
    · exact List.forall_mem_cons.mpr ⟨rfl, hdeclaring⟩
    · rw [List.map_cons, hnames, List.filter_cons_of_pos (by simp [hstatic]), List.map_cons]

theorem safe_appended (home : ModuleId) : (rows : List FieldDef) → {l : FieldLayout} →
    {r₀ : Registry} → r₀.Has t →
    Safe Spells r₀ (appendDefinedFields home t l rows) fun l' _ ↦ Appended t rows l l'
  | [], _, _, _ => .pure fun _ _ _ ↦
    ⟨⟨[], (List.append_nil _).symm, List.forall_mem_nil _, rfl⟩, id⟩
  | row :: rest, l, r₀, ht => by
    unfold appendDefinedFields
    exact (safe_resolveType home (hasContext_ofType ht) row.type).bind fun _ _ hl _ _ ↦
      (safe_appended home rest (hl.has ht)).imp fun _ _ ↦ Appended.cons

/-- The fields of a host type are its own. -/
theorem safe_hosted (moduleName : String) : (rows : List HostField) → {l : FieldLayout} →
    {r₀ : Registry} → l.Indexed → (∀ f ∈ l.instance_, f.declaring = t) →
    Safe Spells r₀ (appendHostFields moduleName t l rows) fun l' _ ↦
      l'.Indexed ∧ ∀ f ∈ l'.instance_, f.declaring = t
  | [], _, _, hl, hown => .pure fun _ _ _ ↦ ⟨hl, hown⟩
  | row :: rest, l, r₀, hl, hown => by
    unfold appendHostFields
    refine (safe_resolveIn _ _).bind fun type _ _ _ _ ↦
      safe_hosted moduleName rest (indexed_appendField hl ..) fun f hf ↦ ?_
    cases hstatic : row.isStatic with
    | true =>
      rw [hstatic] at hf
      exact hown f hf
    | false =>
      rw [hstatic] at hf
      rcases List.mem_append.mp hf with hf | hf
      · exact hown f hf
      · rw [List.mem_singleton.mp hf]

/-! ### Layouts on top of each other -/

/-- The fields are those that the type declares, in order. -/
def Owns (r : Registry) (t : TypeId) (own : List Field) : Prop :=
  (∀ f ∈ own, f.declaring = t) ∧
    own.map Field.name = ((r.type t).fieldRows.filter (!·.isStatic)).map FieldDef.name

/-- The instance fields of an interpreted type: those of the known layout of its base type, if that
one is interpreted, and then its own ones. -/
inductive Layered (r : Registry) : TypeId → List Field → Prop
  | bottom {t : TypeId} {base : Option TypeId} {own : List Field}
      (hbase : r.facts.bases[t]? = some base)
      (hplain : ∀ b, base = some b → r.Has b ∧ (r.type b).isInterpreted = false)
      (hown : r.Owns t own) : Layered r t own
  | onto {t b : TypeId} {l : FieldLayout} {own : List Field}
      (hbase : r.facts.bases[t]? = some (some b)) (hb : (r.type b).isInterpreted = true)
      (hl : r.facts.layouts[b]? = some l) (h : Layered r b l.instance_) (hown : r.Owns t own) :
      Layered r t (l.instance_ ++ own)

/-- What the layout of a type is like. -/
structure Shaped (r : Registry) (t : TypeId) (l : FieldLayout) : Prop where
  indexed : l.Indexed
  layered : (r.type t).isInterpreted = true → r.Layered t l.instance_
  own : (r.type t).isInterpreted = false → ∀ f ∈ l.instance_, f.declaring = t

/-- Only types that are there have layouts, and these are as they should be. -/
def Laid (r : Registry) : Prop :=
  ∀ (t : TypeId) l, r.facts.layouts[t]? = some l → r.Has t ∧ r.Shaped t l

theorem laid_empty : empty.Laid := fun _ _ h ↦ nomatch Std.HashMap.getElem?_empty.symm.trans h

theorem has_of_isInterpreted (h : (r.type t).isInterpreted = true) : r.Has t := by
  refine has_of_shape fun hshape ↦ ?_
  rw [Descriptor.isInterpreted, hshape] at h
  cases h

/-- What is known of base types and layouts stays. -/
structure Keeping (r r' : Registry) : Prop extends Extends r r' where
  bases : ∀ (t : TypeId) b, r.facts.bases[t]? = some b → r'.facts.bases[t]? = some b

theorem Owns.keeping (hr : r.Keeping r') (ht : r.Has t) (h : r.Owns t fields) :
    r'.Owns t fields := by
  rw [Owns, hr.type_eq ht]
  exact h

theorem Layered.keeping (hr : r.Keeping r') (ht : r.Has t) (h : r.Layered t fields) :
    r'.Layered t fields := by
  induction h with
  | bottom hbase hplain hown =>
    refine .bottom (hr.bases _ _ hbase) (fun b hb ↦ ?_) (hown.keeping hr ht)
    obtain ⟨hthere, hinterpreted⟩ := hplain b hb
    exact ⟨hr.has hthere, hr.type_eq hthere ▸ hinterpreted⟩
  | onto hbase hb hl _ hown ih =>
    have hthere := has_of_isInterpreted hb
    exact .onto (hr.bases _ _ hbase) (hr.type_eq hthere ▸ hb) (hr.layouts _ _ hl) (ih hthere)
      (hown.keeping hr ht)

theorem Shaped.keeping (hr : r.Keeping r') (ht : r.Has t) (h : r.Shaped t l) : r'.Shaped t l where
  indexed := h.indexed
  layered hi := (h.layered (hr.type_eq ht ▸ hi)).keeping hr ht
  own hi := h.own (hr.type_eq ht ▸ hi)

/-- Where no layout is new, all are still as they should be. -/
theorem Laid.keeping (h : r.Laid) (hr : r.Keeping r')
    (hlayouts : r'.facts.layouts = r.facts.layouts) : r'.Laid := by
  intro t l hl
  obtain ⟨ht, hshaped⟩ := h t l (hlayouts ▸ hl)
  exact ⟨hr.has ht, hshaped.keeping hr ht⟩

theorem Later.keeping (h : r.Later r') : r.Keeping r' := ⟨h.toExtends, h.bases⟩

/-! ### Layouts are asked for by no one else -/

/-- No layout is new. -/
def Unlaid (r r' : Registry) : Prop := r'.facts.layouts = r.facts.layouts

instance : IsPreorder Registry Unlaid where
  refl _ := rfl
  trans _ _ _ h h' := Eq.trans h' h

instance : Adding Unlaid where
  addType _ _ := rfl
  addName _ _ _ := rfl
  aside _ _ _ hfacts _ _ _ := congrArg FactTable.layouts hfacts

instance : Noting Unlaid where
  resolve := keeps_resolve
  resolveString home token := by
    intro r
    obtain ⟨strings, texts, hend⟩ := endState_resolveString r home token
    rw [hend]
    rfl
  quiet h := h.laid

instance : Asking Unlaid where
  baseType := keeps_baseType fun _ _ _ ↦ rfl
  interfaces := keeps_interfaces fun _ _ _ ↦ rfl
  methodsOf := keeps_methodsOf fun _ _ _ ↦ rfl

/-! ### Layouts are built as they should be -/

/-- Later, and with all layouts as they should be if they were before. -/
structure LaterLaid (r r' : Registry) : Prop extends Searches r r' where
  laid : r.Laid → r'.Laid

instance : Forward LaterLaid where
  refl r := ⟨Forward.refl r, id⟩
  trans h h' := ⟨Forward.trans h.toSearches h'.toSearches, h'.laid ∘ h.laid⟩
  later h := h.toLater

theorem Safe.laterLaid {Q : α → Registry → Prop} (h : Safe Searches r₀ x Q) (hx : Keeps Unlaid x) :
    Safe LaterLaid r₀ x Q := by
  refine ⟨fun r hl hs ↦ ?_, h.yields⟩
  obtain ⟨hstep, hsound⟩ := h.keeps r hl hs
  exact ⟨⟨hstep, fun hlaid ↦ hlaid.keeping hstep.toLater.keeping (hx r)⟩, hsound⟩

/-- The fields of an interpreted type are put behind those that it inherits. -/
theorem safe_shaped (home : Home) (token : Token) {start : FieldLayout} (ht : r₀.Has t)
    (hshape : (r₀.type t).shape = .interpreted home token)
    (hstart : ∀ r, r₀.Later r → r.Laid →
      start.Indexed ∧ ∀ own, r.Owns t own → r.Layered t (start.instance_ ++ own)) :
    Safe LaterLaid r₀ (do
      let rows ← lift fun _ ↦ home.content.fieldsOf token
      appendDefinedFields home.id t start (rows.map Prod.snd)) fun l r ↦ r.Laid → r.Shaped t l := by
  refine (Safe.lift (Q := fun rows _ ↦ home.content.fieldsOf token = .ok rows)
    fun _ _ _ _ h ↦ h).bind fun rows r₁ hl₁ _ hrows ↦ ?_
  have happend := (safe_appended home.id (rows.map Prod.snd) (l := start)
    (hl₁.has ht)).searches.laterLaid (grows_appendDefinedFields home.id t _ start)
  refine ⟨happend.keeps, fun r l r' hl hs hx hlaid ↦ ?_⟩
  have hr' : r₀.Later r' := (hl₁.trans hl).trans (happend.ok hl hs hx).1.toLater
  have hshape' : (r'.type t).shape = .interpreted home token := hr'.type_eq ht ▸ hshape
  have hown : (r'.type t).fieldRows = rows.map Prod.snd := by
    rw [Descriptor.fieldRows, hshape']
    dsimp only
    rw [hrows]
  obtain ⟨⟨own, hfields, hdeclaring, hnames⟩, hindexed⟩ := happend.yields r l r' hl hs hx
  obtain ⟨hfirst, hlayered⟩ := hstart r' hr' hlaid
  refine ⟨hindexed hfirst, fun _ ↦ ?_, fun hnot ↦ ?_⟩
  · rw [hfields]
    exact hlayered own ⟨hdeclaring, hown ▸ hnames⟩
  · rw [Descriptor.isInterpreted, hshape'] at hnot
    cases hnot

theorem safe_laid_baseType (ht : r₀.Has t) : Safe LaterLaid r₀ (baseType t) fun base r ↦
    (∀ b, base = some b → r.Has b) ∧ r.facts.bases[t]? = some base :=
  (settles_baseType (z := r₀) ht).toSafe.laterLaid (grows_baseType t)

/-- A layout is built on top of the one of the base type, which is known by then. What holds of the
base may be taken from there. -/
theorem safe_laid_buildLayout {inherited : TypeId → RegistryM FieldLayout} (ht : r₀.Has t)
    (hinherited : ∀ b r, r.Has b →
      Safe LaterLaid r (inherited b) fun l r ↦ r.facts.layouts[b]? = some l) :
    Safe LaterLaid r₀ (buildLayout inherited t) fun l r ↦ r.Laid → r.Shaped t l := by
  -- nothing is inherited
  have hbottom {r : Registry} {base : Option TypeId} (hbase : r.facts.bases[t]? = some base)
      (hplain : ∀ b, base = some b → r.Has b ∧ (r.type b).isInterpreted = false) (r' : Registry)
      (hl : r.Later r') : FieldLayout.empty.Indexed ∧
        ∀ own, r'.Owns t own → r'.Layered t (FieldLayout.empty.instance_ ++ own) := by
    refine ⟨FieldLayout.indexed_empty, fun own hown ↦
      .bottom (hl.bases _ _ hbase) (fun b hb ↦ ?_) hown⟩
    obtain ⟨hthere, hinterpreted⟩ := hplain b hb
    exact ⟨hl.has hthere, hl.type_eq hthere ▸ hinterpreted⟩
  unfold buildLayout
  refine .ask_bind fun r hl hs ↦ ?_
  split
  · next home token hshape =>
    refine (safe_laid_baseType (hl.has ht)).bind fun base r₁ hl₁ _ hbase ↦ ?_
    have ht₁ := (hl.trans hl₁).has ht
    have hshape₁ : (r₁.type t).shape = .interpreted home token :=
      hl₁.type_eq (hl.has ht) ▸ hshape
    cases base with
    | none =>
      exact safe_shaped home token ht₁ hshape₁ fun r' hl' _ ↦
        hbottom hbase.2 (fun _ h ↦ nomatch h) r' hl'
    | some b =>
      refine .ask_bind fun r₂ hl₂ _ ↦ ?_
      have hbases := hl₂.bases _ _ hbase.2
      have hb := hl₂.has (hbase.1 b rfl)
      have hshape₂ := hl₂.type_eq ht₁ ▸ hshape₁
      split
      · next hinterpreted =>
        refine (hinherited b r₂ hb).bind fun l r₃ hl₃ _ hlayout ↦ ?_
        refine safe_shaped home token (hl₃.has (hl₂.has ht₁)) (hl₃.type_eq (hl₂.has ht₁) ▸ hshape₂)
          fun r' hl' hlaid ↦ ?_
        have hthere := hl'.layouts _ _ hlayout
        obtain ⟨hb', hshaped⟩ := hlaid b l hthere
        have hinterpreted' : (r'.type b).isInterpreted = true :=
          (hl₃.trans hl').type_eq hb ▸ hinterpreted
        refine ⟨⟨hshaped.indexed.instances, nofun⟩, fun own hown ↦ ?_⟩
        exact .onto (l := l) (hl'.bases _ _ (hl₃.bases _ _ hbases)) hinterpreted' hthere
          (hshaped.layered hinterpreted') hown
      · next hplain =>
        refine safe_shaped home token (hl₂.has ht₁) hshape₂ fun r' hl' _ ↦
          hbottom hbases (fun b' hb' ↦ ?_) r' hl'
        cases hb'
        exact ⟨hb, Bool.not_eq_true _ ▸ hplain⟩
  · next type hshape =>
    have hosted : Safe LaterLaid r (appendHostFields type.moduleName t .empty type.fields)
        fun l _ ↦ l.Indexed ∧ ∀ f ∈ l.instance_, f.declaring = t :=
      (safe_hosted type.moduleName type.fields FieldLayout.indexed_empty
        (List.forall_mem_nil _)).searches.laterLaid
        (grows_appendHostFields type.moduleName t type.fields .empty)
    refine ⟨hosted.keeps, fun r₁ l r₂ hl₁ hs₁ hx _ ↦ ?_⟩
    obtain ⟨hindexed, hown⟩ := hosted.yields r₁ l r₂ hl₁ hs₁ hx
    have hr₂ := (hl₁.trans (hosted.ok hl₁ hs₁ hx).1.toLater)
    refine ⟨hindexed, fun h ↦ ?_, fun _ ↦ hown⟩
    rw [hr₂.type_eq (hl.has ht), Descriptor.isInterpreted, hshape] at h
    cases h
  · next hinterpreted _ =>
    refine .pure fun r₁ hl₁ _ _ ↦
      ⟨FieldLayout.indexed_empty, fun h ↦ ?_, fun _ ↦ List.forall_mem_nil _⟩
    rw [hl₁.type_eq (hl.has ht), Descriptor.isInterpreted] at h
    split at h
    · next home token hshape => exact absurd hshape (hinterpreted home token)
    · cases h

theorem keeping_withLayout (r : Registry) (t : TypeId) (l : FieldLayout) :
    r.Keeping (r.withLayout t l) :=
  ⟨(notes_withLayout r t l).extends, fun _ _ h ↦ h⟩

/-- A layout of the right shape may be noted. -/
theorem Laid.withLayout (h : r.Laid) (ht : r.Has t) (hl : r.Shaped t l) :
    (r.withLayout t l).Laid := by
  intro u l' hl'
  have hstep := keeping_withLayout r t l
  have hcases : r.facts.layouts[u]? = some l' ∨ t = u ∧ l = l' := by
    rw [Registry.withLayout, Std.HashMap.getElem?_insertIfNew] at hl'
    split at hl'
    · next hnew => exact Or.inr ⟨eq_of_beq hnew.1, Option.some.inj hl'⟩
    · exact Or.inl hl'
  rcases hcases with hold | ⟨rfl, rfl⟩
  · obtain ⟨hu, hshaped⟩ := h u l' hold
    exact ⟨hstep.has hu, hshaped.keeping hstep hu⟩
  · exact ⟨hstep.has ht, hl.keeping hstep ht⟩

theorem layout_of_new (h : r.facts.layouts[t]? = none) :
    layout (fuel + 1) t r = (buildLayout (layout fuel) t >>= fun l ↦ do
      modify fun r ↦ r.withLayout t l
      ask fun r ↦ (r.facts.layouts[t]?).getD l) r := by
  rw [layout, ask_bind, h]
  rfl

theorem layout_of_built (hnew : r.facts.layouts[t]? = none)
    (hbuilt : buildLayout (layout fuel) t r = .ok l r') (hnew' : r'.facts.layouts[t]? = none) :
    layout (fuel + 1) t r = .ok l (r'.withLayout t l) := by
  rw [layout_of_new hnew, bind_of_ok hbuilt]
  have hkept : (r'.withLayout t l).facts.layouts[t]? = some l := getElem?_insertIfNew_of_none hnew'
  have hlast : ask (fun r ↦ (r.facts.layouts[t]?).getD l) (r'.withLayout t l) =
      .ok l (r'.withLayout t l) := by
    rw [ask, hkept, Option.getD_some]
  exact hlast

/-- The layout is known from then on. -/
theorem safe_laid_layout : (fuel : Nat) → {t : TypeId} → {r₀ : Registry} → r₀.Has t →
    Safe LaterLaid r₀ (layout fuel t) fun l r ↦ r.facts.layouts[t]? = some l
  | 0, _, _, _ => .throw _
  | fuel + 1, t, r₀, ht => by
    have hsearch := safe_layout (fuel + 1) ht
    refine ⟨fun r hl hs ↦ ?_, fun r l r' hl hs hx ↦ (hsearch.yields r l r' hl hs hx).2⟩
    refine ⟨⟨(hsearch.keeps r hl hs).1, fun hlaid ↦ ?_⟩, (hsearch.keeps r hl hs).2⟩
    have hbuild : Safe LaterLaid r (buildLayout (layout fuel) t) fun l r ↦ r.Laid → r.Shaped t l :=
      safe_laid_buildLayout (hl.has ht) fun b r hb ↦ safe_laid_layout fuel hb
    cases hknown : r.facts.layouts[t]? with
    | some l =>
      rw [endState_ok (layout_of_known hknown)]
      exact hlaid
    | none =>
      cases hx : buildLayout (layout fuel) t r with
      | error e r₁ =>
        rw [endState_error ((layout_of_new hknown).trans (bind_of_error hx))]
        exact (endState_error hx ▸ hbuild.keeps r (.refl r) hs).1.laid hlaid
      | ok l r₁ =>
        obtain ⟨hstep, -⟩ := hbuild.ok (.refl r) hs hx
        have hlaid₁ := hstep.laid hlaid
        rw [endState_ok ((layout_of_new hknown).trans ((bind_of_ok hx).trans rfl))]
        exact hlaid₁.withLayout (hstep.has (hl.has ht))
          (hbuild.yields r l r₁ (.refl r) hs hx hlaid₁)

/-- Walks ask for base types, and for what each visit asks for. -/
theorem safe_laid_walk {visit : TypeId → RegistryM (Visit α)}
    (hvisit : ∀ t r, r.Has t → Safe LaterLaid r (visit t) fun _ _ ↦ True) : (fuel : Nat) →
    {t : TypeId} → {r₀ : Registry} → r₀.Has t → Safe LaterLaid r₀ (walk visit fuel t) fun _ _ ↦ True
  | 0, _, _, _ => .throw _
  | fuel + 1, t, r₀, ht => by
    unfold walk
    refine (hvisit t r₀ ht).bind fun visited r₁ hl₁ _ _ ↦ ?_
    cases visited with
    | found a => exact .pure fun _ _ _ ↦ trivial
    | stop => exact .pure fun _ _ _ ↦ trivial
    | onward =>
      refine (safe_laid_baseType (hl₁.has ht)).bind fun base r₂ _ _ hbase ↦ ?_
      cases base with
      | none => exact .pure fun _ _ _ ↦ trivial
      | some b => exact safe_laid_walk hvisit fuel (hbase.1 b rfl)

theorem safe_laid_findField (fuel : Nat) (ht : r₀.Has t) (name : String) (isStatic : Option Bool) :
    Safe LaterLaid r₀ (findField fuel t name isStatic) fun _ _ ↦ True := by
  have hvisit (find : FieldLayout → Option Field) (t : TypeId) (r : Registry) (ht : r.Has t) :
      Safe LaterLaid r (visitWith (fun t ↦ return find (← layout fuel t)) t) fun _ _ ↦ True := by
    refine ((safe_laid_layout fuel ht).bind fun l _ _ _ _ ↦
      .pure (Q := fun _ _ ↦ True) fun _ _ _ ↦ trivial).bind fun found _ _ _ _ ↦ ?_
    cases found <;> exact .pure fun _ _ _ ↦ trivial
  unfold findField
  refine (safe_laid_walk (hvisit _) fuel ht).bind fun found _ _ _ _ ↦ ?_
  cases found with
  | some f => exact .pure fun _ _ _ ↦ trivial
  | none => exact .ask_bind fun _ _ _ ↦ .throw _

theorem safe_laid_findFieldToken (fuel : Nat) (home : ModuleId) (token : Token) {c : GenericContext}
    (hc : r₀.HasContext c) : Safe LaterLaid r₀ (findFieldToken fuel home token c) fun _ _ ↦ True :=
  ((safe_fieldOwner home token hc).searches.laterLaid (grows_fieldOwner home token c)).bind
    fun _ _ _ _ ht ↦ (safe_laid_findField fuel ht _ _).bind fun _ _ _ _ _ ↦
      .pure fun _ _ _ ↦ trivial

/-- What is remembered is the one thing that comes on top of what was found. -/
theorem Remembers.endState_cases {find : RegistryM (α × Bool)} {look : Registry → Option α}
    {keep : α → Registry → Registry} (h : Remembers x find look keep) (r : Registry) :
    endState x r = r ∨ endState x r = endState find r ∨
      ∃ a, endState x r = keep a (endState find r) := by
  cases hlook : look r with
  | some a => exact Or.inl (endState_ok (h.known r a hlook))
  | none =>
    cases hfind : find r with
    | error e r' =>
      rw [endState_error (h.failed hlook hfind), endState_error hfind]
      exact Or.inr (Or.inl rfl)
    | ok out r' =>
      obtain ⟨a, dependent⟩ := out
      rw [endState_ok (h.found hlook hfind), endState_ok hfind]
      cases dependent with
      | true => exact Or.inr (Or.inl rfl)
      | false => exact Or.inr (Or.inr ⟨a, rfl⟩)

theorem laid_resolveField (fuel : Nat) (home : ModuleId) (token : Token) {c : GenericContext}
    (hc : r.HasContext c) (hs : r.Sound) (h : r.Laid) :
    (endState (resolveField fuel home token c) r).Laid := by
  have hfound := ((safe_laid_findFieldToken fuel home token hc).keeps r (.refl r) hs).1.laid h
  rcases (remembers_resolveField fuel home token c).endState_cases r with hend | hend | ⟨f, hend⟩
  · rwa [hend]
  · rwa [hend]
  · rw [hend]
    exact hfound.keeping ⟨.of_eq rfl rfl rfl rfl, fun _ _ hb ↦ hb⟩ rfl

/-! ### Layouts at any time -/

theorem Laid.operation (h : r.Laid) (hx : Operation x) (hkeep : Keeps Unlaid x) :
    (endState x r).Laid := by
  obtain ⟨hretains, -⟩ := charts_operation hx r
  exact h.keeping ⟨hretains.toExtends, hretains.bases⟩ (hkeep r)

/-- A request leaves all layouts as they should be. -/
theorem Request.laid (hx : r.Request x) (hs : r.Sound) (h : r.Laid) : (endState x r).Laid := by
  have hquiet (hkeep : Keeps Unlaid x) : (endState x r).Laid := h.operation hx.operation hkeep
  cases hx with
  | layout fuel ht => exact ((safe_laid_layout fuel ht).keeps r (.refl r) hs).1.laid h
  | findField fuel name isStatic ht =>
    exact ((safe_laid_findField fuel ht name isStatic).keeps r (.refl r) hs).1.laid h
  | resolveField fuel home token hc => exact laid_resolveField fuel home token hc hs h
  | loadModule m => exact hquiet (grows_loadModule m fun _ ↦ rfl)
  | addHostModule m => exact hquiet (.modify fun _ ↦ rfl)
  | registerAdaptor f => exact hquiet (.modify fun _ ↦ rfl)
  | ofHostType type => exact hquiet (Building.ofHostType type)
  | typeOfData kind => exact hquiet (grows_typeOfData kind)
  | resolve name => exact hquiet (grows_resolve name)
  | resolveIn name scope => exact hquiet (grows_resolveIn name scope)
  | makeArray rank _ => exact hquiet (Building.makeArray _ rank)
  | makeByRef _ => exact hquiet (Building.makeByRef _)
  | makeParameter name => exact hquiet (Building.makeParameter name)
  | makeInstance _ _ => exact hquiet (Building.makeInstance _ _)
  | resolveSignature home s _ => exact hquiet (grows_resolveSignature home _ s)
  | resolveType home s _ => exact hquiet (grows_resolveType home _ s)
  | resolveTypeToken home token _ => exact hquiet (grows_resolveTypeToken home token _)
  | resolveMethod fuel home token _ => exact hquiet (grows_resolveMethod fuel home token _)
  | resolveString home token => exact hquiet (grows_resolveString home token)
  | baseType _ => exact hquiet (grows_baseType _)
  | interfaces _ => exact hquiet (grows_interfaces _)
  | isAssignable fuel _ _ => exact hquiet (grows_isAssignable fuel _ _)
  | firstHostBase fuel _ => exact hquiet (grows_firstHostBase fuel _)
  | methodsOf _ => exact hquiet (grows_methodsOf _)
  | findMethod fuel name count _ => exact hquiet (grows_findMethod fuel _ name count)
  | findOverride fuel _ _ => exact hquiet (grows_findOverride fuel _ _)
  | instantiateMethod _ _ => exact hquiet (grows_instantiateMethod _ _)
  | localsOf _ => exact hquiet (grows_localsOf _)

theorem Consulted.laid (h : r.Consulted) : r.Laid := by
  induction h with
  | empty => exact laid_empty
  | step h hx ih => exact hx.laid h.sound ih

/-! ### Along the base types -/

/-- A way along known base types leads from the first type to the second. -/
def Rises (r : Registry) : TypeId → TypeId → Prop :=
  Relation.ReflTransGen fun t u ↦ r.facts.bases[t]? = some (some u)

/-- No type above the first one that is not interpreted derives from an interpreted type. -/
def Unmixed (r : Registry) (D : TypeId) : Prop :=
  ∀ t u, r.Rises D t → r.Rises t u → (r.type u).isInterpreted = true →
    (r.type t).isInterpreted = true

theorem Unmixed.base (h : r.Unmixed D) (hbase : r.facts.bases[D]? = some (some t)) : r.Unmixed t :=
  fun _ _ hrises ↦ h _ _ (.head hbase hrises)

/-- The fields of an interpreted type start with those of every interpreted type above it. -/
theorem Layered.isPrefix (h : r.Layered D fields) (hun : r.Unmixed D) (hrises : r.Rises D B)
    (hB : (r.type B).isInterpreted = true) :
    B = D ∨ ∃ l, r.facts.layouts[B]? = some l ∧ l.instance_ <+: fields := by
  induction h with
  | @bottom t base own hbase hplain hown =>
    rcases hrises.cases_head with rfl | ⟨b, hb, hrises⟩
    · exact Or.inl rfl
    · obtain ⟨-, hnot⟩ := hplain b (Option.some.inj (hbase.symm.trans hb))
      have hyes := hun b B (.single hb) hrises hB
      rw [hnot] at hyes
      cases hyes
  | @onto t b l own hbase hb hl _ _ ih =>
    rcases hrises.cases_head with rfl | ⟨b', hb', hrises⟩
    · exact Or.inl rfl
    cases hbase.symm.trans hb'
    refine Or.inr ?_
    rcases ih (hun.base hbase) hrises with rfl | ⟨l', hl', hfirst⟩
    · exact ⟨l, hl, List.prefix_append _ _⟩
    · exact ⟨l', hl', hfirst.trans (List.prefix_append _ _)⟩

/-- The type declares an instance field of the name. -/
def DeclaresField (r : Registry) (t : TypeId) (name : String) : Prop :=
  ∃ row ∈ (r.type t).fieldRows, row.isStatic = false ∧ row.name = name

theorem Owns.exists_iff (h : r.Owns t fields) :
    (∃ f ∈ fields, f.name = name) ↔ r.DeclaresField t name := by
  have hnames : (∃ f ∈ fields, f.name = name) ↔ name ∈ fields.map Field.name := by
    rw [List.mem_map]
  rw [hnames, h.2, DeclaresField]
  simp [and_assoc]

/-- The latest field of a name belongs to the first type on the way up that declares one. -/
theorem Layered.first (h : r.Layered D fields)
    (hf : fields.reverse.find? (·.name == name) = some f) :
    r.Rises D f.declaring ∧ r.DeclaresField f.declaring name ∧
      ∀ t, r.Rises D t → r.DeclaresField t name → r.Rises f.declaring t := by
  -- the type's own fields come last
  have hown {t : TypeId} {own : List Field} (howns : r.Owns t own)
      (hf : own.reverse.find? (·.name == name) = some f) :
      f.declaring = t ∧ r.DeclaresField t name := by
    have hmem := List.mem_reverse.mp (List.mem_of_find?_eq_some hf)
    have hname := List.find?_some hf
    exact ⟨howns.1 f hmem, howns.exists_iff.mp ⟨f, hmem, eq_of_beq hname⟩⟩
  induction h with
  | bottom _ _ howns =>
    obtain ⟨rfl, hdeclares⟩ := hown howns hf
    exact ⟨.refl, hdeclares, fun _ ht _ ↦ ht⟩
  | @onto t b l own hbase hb hl _ howns ih =>
    rw [List.reverse_append, List.find?_append] at hf
    cases hlast : own.reverse.find? (·.name == name) with
    | some g =>
      rw [hlast] at hf
      cases hf
      obtain ⟨rfl, hdeclares⟩ := hown howns hlast
      exact ⟨.refl, hdeclares, fun _ ht _ ↦ ht⟩
    | none =>
      rw [hlast] at hf
      obtain ⟨hrises, hdeclares, hfirst⟩ := ih hf
      refine ⟨.head hbase hrises, hdeclares, fun u hu hdeclared ↦ ?_⟩
      rcases hu.cases_head with rfl | ⟨b', hb', hu⟩
      · obtain ⟨g, hg, hname⟩ := howns.exists_iff.mpr hdeclared
        have hnot := List.find?_eq_none.mp hlast g (List.mem_reverse.mpr hg)
        exact absurd (beq_iff_eq.mpr hname) hnot
      · cases hbase.symm.trans hb'
        exact hfirst u hu hdeclared

/-! ### The search for a field -/

/-- A field that was found stands in the known layout of a type on the way up, and if that is not
the type that was asked, then nothing stands in the layout of that one. -/
theorem walk_pick {n : Nat} {kind : Option Bool} : (fuel : Nat) → {D : TypeId} → {r r' : Registry} →
    walk (visitWith fun t ↦ return FieldLayout.pick? (← layout n t) name kind) fuel D r =
      .ok (some f) r' →
    ∃ t l, r'.Rises D t ∧ r'.facts.layouts[t]? = some l ∧ l.pick? name kind = some f ∧
      (t = D ∨ ∃ l', r'.facts.layouts[D]? = some l' ∧ l'.pick? name kind = none)
  | 0, _, _, _, hx => nomatch hx
  | fuel + 1, D, r, r', hx => by
    have hgrows (t : TypeId) : Keeps Charts (visitWith (fun t ↦
        return FieldLayout.pick? (← layout n t) name kind) t) :=
      grows_visitWith (fun t ↦ (grows_layout n t).bind fun _ ↦ .pure _) t
    rw [walk] at hx
    obtain ⟨visited, r₁, hvisit, hrest⟩ := exists_of_bind hx
    obtain ⟨found, r₂, hfound, hlast⟩ := exists_of_bind hvisit
    obtain ⟨l, r₃, hlayout, hpick⟩ := exists_of_bind hfound
    cases hpick
    have hl := layouts_of_layout hlayout
    cases hpicked : l.pick? name kind with
    | some g =>
      rw [hpicked] at hlast
      cases hlast
      cases hrest
      exact ⟨D, l, .refl, hl, hpicked, Or.inl rfl⟩
    | none =>
      rw [hpicked] at hlast
      cases hlast
      obtain ⟨base, r₄, hbase, hrest⟩ := exists_of_bind hrest
      cases base with
      | none => cases hrest
      | some b =>
        have hr₄ : Charts r₁ r₄ := (grows_baseType D).ok hbase
        have hr' : Charts r₄ r' := (grows_walk hgrows fuel b).ok hrest
        obtain ⟨t, l', hrises, hl', hf, -⟩ := walk_pick fuel hrest
        have hedge := hr'.1.bases _ _ (facts_of_baseType hbase)
        exact ⟨t, l', .head hedge hrises, hl', hf,
          Or.inr ⟨l, hr'.1.layouts _ _ (hr₄.1.layouts _ _ hl), hpicked⟩⟩

theorem walk_of_findField {isStatic : Option Bool}
    (hx : findField fuel D name isStatic r = .ok f r') :
    walk (visitWith fun t ↦ return FieldLayout.pick? (← layout fuel t) name isStatic) fuel D r =
      .ok (some f) r' := by
  obtain ⟨found, r₁, hwalk, hrest⟩ := exists_of_bind hx
  cases found with
  | none => cases hrest
  | some g =>
    cases hrest
    cases isStatic with
    | none => exact hwalk
    | some kind => cases kind <;> exact hwalk

/-- The field is what the first type on the way up that declares an instance field of its name
declares. -/
structure Foremost (r : Registry) (D : TypeId) (f : Field) : Prop where
  rises : r.Rises D f.declaring
  declares : r.DeclaresField f.declaring f.name
  first : ∀ t, r.Rises D t → r.DeclaresField t f.name → r.Rises f.declaring t

/-- Fields stand where they say, in the layout of an interpreted type as in those of all interpreted
types above it, as long as none of these is above one that is not interpreted. The layout of each
type above is known by then, and the one asked for starts with its instance fields. An instance
field that a search finds is the latest one of its name in the layout of the type that was asked,
at the position that it gives, and the first one of its name on the way up. -/
theorem layouts_line_up (h : r.Consulted) (hD : r.Has D) (hi : (r.type D).isInterpreted = true) :
    (∀ fuel l r', layout fuel D r = .ok l r' → l.Indexed ∧
      (r'.Unmixed D → ∀ B, r'.Rises D B → (r'.type B).isInterpreted = true →
        ∃ l', (∀ n, layout (n + 1) B r' = .ok l' r') ∧ l'.instance_ <+: l.instance_)) ∧
    ∀ fuel name isStatic f r', findField fuel D name isStatic r = .ok f r' → f.isStatic = false →
      (r'.type f.declaring).isInterpreted = true → r'.Unmixed D →
      ∃ l, (∀ n, layout (n + 1) D r' = .ok l r') ∧ f.name = name ∧
        l.instance_[f.index]? = some f ∧
        (∀ (i : Nat) g, l.instance_[i]? = some g → g.name = name → i ≤ f.index) ∧
        r'.Foremost D f := by
  constructor
  · intro fuel l r' hx
    have hl := layouts_of_layout hx
    have hlaid : r'.Laid := endState_ok hx ▸ (Request.layout fuel hD).laid h.sound h.laid
    have hr' : r.Extends r' := (grows_layout fuel D).ok hx
    obtain ⟨-, hshaped⟩ := hlaid D l hl
    refine ⟨hshaped.indexed, fun hun B hrises hB ↦ ?_⟩
    rcases (hshaped.layered (hr'.type_eq hD ▸ hi)).isPrefix hun hrises hB with
      rfl | ⟨l', hl', hfirst⟩
    · exact ⟨l, fun n ↦ layout_of_known hl, List.prefix_refl _⟩
    · exact ⟨l', fun n ↦ layout_of_known hl', hfirst⟩
  · intro fuel name kind f r' hx hinstance hdeclaring hun
    have hlaid : r'.Laid :=
      endState_ok hx ▸ (Request.findField fuel name kind hD).laid h.sound h.laid
    have hr' : r.Extends r' := (grows_findField fuel D name kind).ok hx
    have hi' : (r'.type D).isInterpreted = true := hr'.type_eq hD ▸ hi
    obtain ⟨t, l, hrises, hl, hpick, hwhere⟩ := walk_pick fuel (walk_of_findField hx)
    obtain ⟨-, hshaped⟩ := hlaid t l hl
    have hfind := hshaped.indexed.find?_of_pick? hpick hinstance
    obtain ⟨hname, hat, hlatest⟩ := hshaped.indexed.of_find? hfind
    have hsame : t = D := by
      refine hwhere.resolve_right ?_
      rintro ⟨l', hl', hnone⟩
      obtain ⟨-, hshaped'⟩ := hlaid D l' hl'
      have hkind : kind ≠ some true := by
        rintro rfl
        rw [hshaped.indexed.isStatic hpick] at hinstance
        cases hinstance
      have hmem : f ∈ l'.instance_ := by
        cases ht : (r'.type t).isInterpreted with
        | false =>
          rw [hshaped.own ht f (List.mem_of_getElem? hat), ht] at hdeclaring
          cases hdeclaring
        | true =>
          rcases (hshaped'.layered hi').isPrefix hun hrises ht with rfl | ⟨l'', hl'', hfirst⟩
          · cases hl.symm.trans hl'
            exact List.mem_of_getElem? hat
          · cases hl.symm.trans hl''
            exact hfirst.subset (List.mem_of_getElem? hat)
      have hnot := List.find?_eq_none.mp (FieldLayout.find?_of_pick?_none hnone hkind) f
        (List.mem_reverse.mpr hmem)
      exact hnot (beq_iff_eq.mpr hname)
    subst hsame
    obtain ⟨hup, hdeclares, hfirst⟩ := (hshaped.layered hi').first hfind
    subst hname
    exact ⟨l, fun n ↦ layout_of_known hl, rfl, hat, hlatest, hup, hdeclares, hfirst⟩

end Registry

/-! ### Classes on top of a class and of an array -/

def Module.shelves.base : TypeDef :=
  ⟨"", "Base", .none, none, [], ["T"], #[⟨"x", .parameter "T", false⟩], #[]⟩

def Module.shelves.derived : TypeDef :=
  ⟨"", "Derived", .none,
    some (.instantiation (.definition (typeToken 0)) [.definition (typeToken 1)]), [], [],
    #[⟨"x", .definition (typeToken 1), true⟩, ⟨"y", .definition (typeToken 1), false⟩], #[]⟩

def Module.shelves.array : TypeDef :=
  ⟨"System", "Array", .none, none, [], [], #[⟨"n", .definition (typeToken 1), false⟩], #[]⟩

def Module.shelves.rows : TypeDef :=
  ⟨"", "Rows", .none, some (.array (.definition (typeToken 2)) 1), [], [], #[], #[]⟩

/-- A module with a generic class `Base`, a class `Derived` on top of an instantiation of it, a
class of the name of the base of all arrays, and a class `Rows` on top of an array. -/
def Module.shelves : Module :=
  { Module.empty "Shelves" with
    types := #[shelves.base, shelves.derived, shelves.array, shelves.rows]
    fieldPlaces := #[⟨0, 0⟩, ⟨1, 0⟩, ⟨1, 1⟩, ⟨2, 0⟩]
    fieldLists := #[#[Token.next .field 0], #[Token.next .field 1, Token.next .field 2],
      #[Token.next .field 3], #[]]
    methodLists := #[#[], #[], #[], #[]] }

namespace Registry

/-- The type that a row of the module defines. -/
def shelf (name : String) (row : Nat) : Descriptor :=
  ⟨name, .interpreted ⟨⟨0⟩, .shelves⟩ (Module.typeToken row), [], none⟩

/-- `Base<Derived>`. -/
def shelfBase : Descriptor :=
  { shelf "Base<Derived>" 0 with args := [⟨"T", ⟨1⟩⟩], definition := some ⟨0⟩ }

/-- `System.Array[]`. -/
def shelfArray : Descriptor := ⟨"System.Array[]", .array ⟨2⟩ 1, [], none⟩

/-- The registry after the module was loaded, and some more types came in, up to the meaning of
names. -/
def ofShelves (more : Array Descriptor) (names hosts : Std.HashMap String TypeId)
    (backed : Std.HashMap HostKind TypeId) (bases : Std.HashMap TypeId (Option TypeId))
    (layouts : Std.HashMap TypeId FieldLayout) : Registry :=
  { empty with
    types := #[shelf "Base" 0, shelf "Derived" 1, shelf "System.Array" 2, shelf "Rows" 3] ++ more
    names
    scoped_ := hosts
    backed
    modules := #[.shelves]
    definitions := (((empty.definitions.insert ⟨⟨0⟩, Module.typeToken 0⟩ ⟨0⟩).insert
      ⟨⟨0⟩, Module.typeToken 1⟩ ⟨1⟩).insert ⟨⟨0⟩, Module.typeToken 2⟩ ⟨2⟩).insert
        ⟨⟨0⟩, Module.typeToken 3⟩ ⟨3⟩
    facts := { empty.facts with bases, layouts } }

def shelfNames : Std.HashMap String TypeId :=
  (((empty.names.insertIfNew "Base" ⟨0⟩).insertIfNew "Derived" ⟨1⟩).insertIfNew
    "System.Array" ⟨2⟩).insertIfNew "Rows" ⟨3⟩

theorem shelfNames_array : shelfNames[CoreLibrary.arrayName]? = some ⟨2⟩ := by
  refine getElem?_insertIfNew_of_some (getElem?_insertIfNew_of_none ?_)
  simp [empty]

theorem loadModule_shelves :
    loadModule .shelves empty = .ok ⟨0⟩ (ofShelves #[] shelfNames {} {} {} {}) := by
  have hnames : Module.shelves.types.toList.map definitionName =
      ["Base", "Derived", "System.Array", "Rows"] := by
    cbv
  simp only [Module.shelves, Module.empty, List.map_cons, List.map_nil, List.cons.injEq,
    and_true] at hnames
  obtain ⟨hbase, hderived, harray, hrows⟩ := hnames
  simp [loadModule, addDefinitions, Module.shelves, Module.empty, hbase, hderived, harray, hrows,
    empty, addType, addName, ofShelves, shelfNames, shelf, bind, EStateM.bind, get, getThe,
    MonadStateOf.get, EStateM.get, set, EStateM.set, modify, modifyGet, MonadStateOf.modifyGet,
    EStateM.modifyGet, pure, EStateM.pure]

variable {r : Registry} {names hosts : Std.HashMap String TypeId}
  {backed : Std.HashMap HostKind TypeId} {bases : Std.HashMap TypeId (Option TypeId)}
  {layouts : Std.HashMap TypeId FieldLayout} {more : Array Descriptor} {type : HostType}

theorem has_ofShelves (t : TypeId) (ht : t.index < 4 + more.size) :
    (ofShelves more names hosts backed bases layouts).Has t := by
  rw [Has, ofShelves, Array.size_append]
  exact ht

/-- A base type that is found out is known from then on. -/
theorem baseType_of_found (t : TypeId) {base : Option TypeId} {more' : Array Descriptor}
    {names' hosts' : Std.HashMap String TypeId} {backed' : Std.HashMap HostKind TypeId}
    (hnew : bases[t]? = none)
    (hfind : findBase t ((ofShelves more names hosts backed bases {}).type t)
      (ofShelves more names hosts backed bases {}) =
        .ok base (ofShelves more' names' hosts' backed' bases {})) :
    baseType t (ofShelves more names hosts backed bases {}) =
      .ok base (ofShelves more' names' hosts' backed' (bases.insert t base) {}) := by
  have hunknown : (ofShelves more names hosts backed bases {}).facts.bases[t]? = none := hnew
  exact (baseType_of_new hunknown).trans ((bind_of_ok hfind).trans rfl)

/-- A class that derives from nothing else derives from the type of all objects. -/
theorem findBase_of_root {t object : TypeId} {r' : Registry} {home : Home} {token : Token}
    {d : TypeDef} (hshape : (r.type t).shape = .interpreted home token)
    (hdef : home.content.typeDef token = .ok d) (hroot : d.extends_ = none)
    (hclass : d.flags.interface = false ∧ d.flags.valueType = false)
    (hcore : coreType CoreLibrary.objectName r = .ok object r') :
    findBase t (r.type t) r = .ok (some object) r' := by
  rw [findBase, hshape]
  dsimp only
  rw [hdef, Except.toOption]
  dsimp only
  rw [hroot]
  dsimp only
  rw [hclass.1, hclass.2]
  exact (bind_of_ok hcore).trans rfl

/-- A class that derives from something derives from what that is resolved to. -/
theorem findBase_of_extends {t base : TypeId} {r' : Registry} {home : Home} {token : Token}
    {d : TypeDef} {s : Signature} (hshape : (r.type t).shape = .interpreted home token)
    (hdef : home.content.typeDef token = .ok d) (hextends : d.extends_ = some s)
    (hs : resolveSignature home.id (.ofType t) s r = .ok (.fixed base) r') :
    findBase t (r.type t) r = .ok (some base) r' := by
  have htype : resolveType home.id (.ofType t) s r = .ok base r' := (bind_of_ok hs).trans rfl
  rw [findBase, hshape]
  dsimp only
  rw [hdef, Except.toOption]
  dsimp only
  rw [hextends]
  exact (bind_of_ok htype).trans rfl

/-- In the sample the base type of `Derived` is an instantiation that comes into use only when it is
asked for. -/
theorem findBase_derived (hosts : Std.HashMap String TypeId)
    (backed : Std.HashMap HostKind TypeId) (bases : Std.HashMap TypeId (Option TypeId))
    (hnew : names["Base<Derived>"]? = none) :
    findBase ⟨1⟩ ((ofShelves #[] names hosts backed bases {}).type ⟨1⟩)
        (ofShelves #[] names hosts backed bases {}) =
      .ok (some ⟨4⟩) (ofShelves #[shelfBase] (names.insertIfNew "Base<Derived>" ⟨4⟩) hosts backed
        bases {}) := by
  let r := ofShelves #[] names hosts backed bases {}
  have hmade : makeInstance ⟨0⟩ [⟨1⟩] r = .ok ⟨4⟩
      (ofShelves #[shelfBase] (names.insertIfNew "Base<Derived>" ⟨4⟩) hosts backed bases {}) := by
    have hself : r.openOf ⟨0⟩ = ⟨0⟩ := rfl
    have hname : (r.instanceOf ⟨0⟩ [⟨1⟩]) = shelfBase := by cbv
    rw [makeInstance_of_arity (by cbv), hself, hname, intern_of_new hnew]
    rfl
  have hhead : resolveSignature ⟨0⟩ (.ofType ⟨1⟩) (.definition (Module.typeToken 0)) r =
      .ok (.fixed ⟨0⟩) r := by cbv
  have hargs : resolveArguments ⟨0⟩ (.ofType ⟨1⟩) [.definition (Module.typeToken 1)] r =
      .ok ([⟨1⟩], true) r := by cbv
  refine findBase_of_extends rfl (d := Module.shelves.derived) (by cbv) rfl ?_
  rw [resolveSignature]
  exact (bind_of_ok hhead).trans ((bind_of_ok hargs).trans ((bind_of_ok hmade).trans rfl))

theorem findBase_rows (type : HostType) (hosts : Std.HashMap String TypeId)
    (backed : Std.HashMap HostKind TypeId) (bases : Std.HashMap TypeId (Option TypeId))
    (hnew : names["System.Array[]"]? = none) :
    findBase ⟨3⟩ ((ofShelves #[shelfBase, type.descriptor] names hosts backed bases {}).type ⟨3⟩)
        (ofShelves #[shelfBase, type.descriptor] names hosts backed bases {}) =
      .ok (some ⟨6⟩) (ofShelves #[shelfBase, type.descriptor, shelfArray]
        (names.insertIfNew "System.Array[]" ⟨6⟩) hosts backed bases {}) := by
  let r := ofShelves #[shelfBase, type.descriptor] names hosts backed bases {}
  have hmade : makeArray ⟨2⟩ 1 r = .ok ⟨6⟩ (ofShelves #[shelfBase, type.descriptor, shelfArray]
      (names.insertIfNew "System.Array[]" ⟨6⟩) hosts backed bases {}) := by
    have hname : r.typeName ⟨2⟩ = "System.Array" := rfl
    rw [makeArray, ask_bind, hname]
    exact (intern_of_new (d := shelfArray) hnew).trans rfl
  have helement : resolveSignature ⟨0⟩ (.ofType ⟨3⟩) (.definition (Module.typeToken 2)) r =
      .ok (.fixed ⟨2⟩) r := by cbv
  refine findBase_of_extends rfl (d := Module.shelves.rows) (by cbv) rfl ?_
  rw [resolveSignature_array]
  exact (bind_of_ok helement).trans ((bind_of_ok hmade).trans rfl)

/-! The base types are asked for, from `Derived` up and then from `Rows` up. -/

/-- The base types of `Derived`, `Base<Derived>` and `System.Object`. -/
def derivedBases : Std.HashMap TypeId (Option TypeId) :=
  ((({} : Std.HashMap TypeId (Option TypeId)).insert ⟨1⟩ (some ⟨4⟩)).insert ⟨4⟩
    (some ⟨5⟩)).insert ⟨5⟩ none

/-- The registry after the classes and the array were asked for their base types. -/
def shelvesAsked (type : HostType) (names hosts : Std.HashMap String TypeId)
    (backed : Std.HashMap HostKind TypeId) (layouts : Std.HashMap TypeId FieldLayout) : Registry :=
  ofShelves #[shelfBase, type.descriptor, shelfArray] names hosts backed
    (((derivedBases.insert ⟨2⟩ (some ⟨5⟩)).insert ⟨3⟩ (some ⟨6⟩)).insert ⟨6⟩ (some ⟨2⟩)) layouts

/-- The name of a type of the core library with its scope. -/
def coreName (name : String) : String := name ++ ", " ++ CoreLibrary.moduleName

theorem find?_object : HostLibrary.find? #[CoreLibrary.library].toList CoreLibrary.objectName
    (some CoreLibrary.moduleName) = CoreLibrary.find? CoreLibrary.objectName := by
  cbv

/-- The sample after the base types of `Derived` and of `System.Array` have been asked for. -/
theorem consulted_derived : ∃ type names hosts backed,
    (ofShelves #[shelfBase, HostType.descriptor type] names hosts backed derivedBases
      {}).Consulted ∧
    names["System.Array[]"]? = none ∧ names[CoreLibrary.arrayName]? = some ⟨2⟩ ∧
    hosts[coreName CoreLibrary.objectName]? = some ⟨5⟩ ∧
    hosts[coreName CoreLibrary.arrayName]? = none := by
  obtain ⟨type, hcore, hroot⟩ : ∃ type, CoreLibrary.find? CoreLibrary.objectName = some type ∧
      type.base = none := ⟨_, rfl, rfl⟩
  have h₀ : (ofShelves #[] shelfNames {} {} {} {}).Consulted := by
    rw [← endState_ok loadModule_shelves]
    exact Consulted.empty.step (.loadModule _)
  -- the base type of `Derived` is a new instantiation
  have hnew : shelfNames["Base<Derived>"]? = none := by simp [shelfNames, empty]
  have hderived := baseType_of_found ⟨1⟩ Std.HashMap.getElem?_empty
    (findBase_derived {} {} {} hnew)
  have h₁ := h₀.step (.baseType (has_ofShelves ⟨1⟩ (by decide)))
  rw [endState_ok hderived] at h₁
  -- its base type is the type of all objects, which comes into use
  let names₁ := shelfNames.insertIfNew "Base<Derived>" ⟨4⟩
  let bases₁ : Std.HashMap TypeId (Option TypeId) := Std.HashMap.insert {} ⟨1⟩ (some ⟨4⟩)
  let r₁ := ofShelves #[shelfBase] names₁ {} {} bases₁ {}
  have hfound : HostLibrary.find? r₁.host.toList CoreLibrary.objectName
      (some CoreLibrary.moduleName) = some type := find?_object.trans hcore
  have hfull : type.fullName = "System.Object" := fullName_of_find? hfound
  have hscoped : type.scopedName = coreName CoreLibrary.objectName :=
    CoreLibrary.scopedName_of_find? hcore
  have hunfiled : r₁.scoped_[type.scopedName]? = none := Std.HashMap.getElem?_empty
  obtain ⟨r₂, hmade, backed, hr₂⟩ := ofHostType_of_new hunfiled
  let names₂ := names₁.insertIfNew type.fullName ⟨5⟩
  let hosts := empty.scoped_.insert type.scopedName ⟨5⟩
  obtain rfl : r₂ = ofShelves #[shelfBase, type.descriptor] names₂ hosts backed bases₁ {} := hr₂
  have hunused : (r₁.inScope? CoreLibrary.objectName (some CoreLibrary.moduleName) <|>
      r₁.names[CoreLibrary.objectName]?) = none := by
    have hscope : r₁.inScope? CoreLibrary.objectName (some CoreLibrary.moduleName) = none :=
      Std.HashMap.getElem?_empty
    have hname : names₁[CoreLibrary.objectName]? = none := by
      simp [names₁, shelfNames, empty, CoreLibrary.objectName]
    rw [hscope]
    exact hname
  have hobject : coreType CoreLibrary.objectName r₁ =
      .ok ⟨5⟩ (ofShelves #[shelfBase, type.descriptor] names₂ hosts backed bases₁ {}) :=
    resolveIn_of_some (lookup?_of_host hunused hfound hmade)
  have hbase := baseType_of_found ⟨4⟩ (by simp [bases₁])
    (findBase_of_root (r := r₁) (t := ⟨4⟩) rfl (d := Module.shelves.base) (by cbv) rfl
      ⟨rfl, rfl⟩ hobject)
  have h₂ := h₁.step (.baseType (has_ofShelves ⟨4⟩ (by decide)))
  rw [endState_ok hbase] at h₂
  -- that one has none
  let bases₂ := bases₁.insert ⟨4⟩ (some ⟨5⟩)
  let r₂ := ofShelves #[shelfBase, type.descriptor] names₂ hosts backed bases₂ {}
  have hnone : findBase ⟨5⟩ (r₂.type ⟨5⟩) r₂ = .ok none r₂ := by
    have hshape : (r₂.type ⟨5⟩).shape = .native type := rfl
    rw [findBase, hshape]
    dsimp only
    rw [hroot]
    rfl
  have htop := baseType_of_found ⟨5⟩ (by simp [bases₂, bases₁]) hnone
  have h₃ := h₂.step (.baseType (has_ofShelves ⟨5⟩ (by simp)))
  rw [endState_ok htop] at h₃
  refine ⟨type, names₂, hosts, backed, h₃, ?_, ?_, ?_, ?_⟩
  · simp [names₂, names₁, shelfNames, empty, hfull]
  · exact getElem?_insertIfNew_of_some (getElem?_insertIfNew_of_some shelfNames_array)
  · simp [hosts, hscoped]
  · simp [hosts, empty, hscoped, coreName, CoreLibrary.objectName, CoreLibrary.arrayName]

/-- All base types of the sample are known after a few requests. -/
theorem exists_consulted_shelvesAsked : ∃ type names hosts backed,
    (shelvesAsked type names hosts backed {}).Consulted := by
  obtain ⟨type, names, hosts, backed, h, hnew, harray, hobject, hhost⟩ := consulted_derived
  -- the class `System.Array` derives from the type of all objects
  have hcore : coreType CoreLibrary.objectName
      (ofShelves #[shelfBase, type.descriptor] names hosts backed derivedBases {}) = .ok ⟨5⟩
      (ofShelves #[shelfBase, type.descriptor] names hosts backed derivedBases {}) :=
    coreType_of_inScope hobject
  have hclass := baseType_of_found ⟨2⟩ (by simp [derivedBases])
    (findBase_of_root (t := ⟨2⟩) rfl (d := Module.shelves.array) (by cbv) rfl ⟨rfl, rfl⟩
      hcore)
  have h₁ := h.step (.baseType (has_ofShelves ⟨2⟩ (by simp)))
  rw [endState_ok hclass] at h₁
  -- the base type of `Rows` is a new array type
  have hrows := baseType_of_found ⟨3⟩ (by simp [derivedBases])
    (findBase_rows type hosts backed (derivedBases.insert ⟨2⟩ (some ⟨5⟩)) hnew)
  have h₂ := h₁.step (.baseType (has_ofShelves ⟨3⟩ (by simp)))
  rw [endState_ok hrows] at h₂
  -- arrays derive from what goes by the name of their base
  let bases := (derivedBases.insert ⟨2⟩ (some ⟨5⟩)).insert ⟨3⟩ (some ⟨6⟩)
  let names' := names.insertIfNew "System.Array[]" ⟨6⟩
  let r := ofShelves #[shelfBase, type.descriptor, shelfArray] names' hosts backed bases {}
  have hfound : (r.inScope? CoreLibrary.arrayName (some CoreLibrary.moduleName) <|>
      r.names[CoreLibrary.arrayName]?) = some ⟨2⟩ := by
    have hscope : r.inScope? CoreLibrary.arrayName (some CoreLibrary.moduleName) = none := hhost
    rw [hscope]
    exact getElem?_insertIfNew_of_some harray
  have hbase : findBase ⟨6⟩ (r.type ⟨6⟩) r = .ok (some ⟨2⟩) r :=
    (bind_of_ok (resolveIn_of_some (lookup?_of_known hfound))).trans rfl
  have hunknown : bases[TypeId.mk 6]? = none := by simp [bases, derivedBases]
  have h₃ := h₂.step (.baseType (has_ofShelves ⟨6⟩ (by simp)))
  rw [endState_ok (baseType_of_found ⟨6⟩ hunknown hbase)] at h₃
  exact ⟨type, names', hosts, backed, h₃⟩

theorem bases_shelvesAsked {t b : TypeId}
    (h : (shelvesAsked type names hosts backed layouts).facts.bases[t]? = some (some b)) :
    t = ⟨1⟩ ∧ b = ⟨4⟩ ∨ t = ⟨4⟩ ∧ b = ⟨5⟩ ∨ t = ⟨2⟩ ∧ b = ⟨5⟩ ∨ t = ⟨3⟩ ∧ b = ⟨6⟩ ∨
      t = ⟨6⟩ ∧ b = ⟨2⟩ := by
  simp only [shelvesAsked, ofShelves, derivedBases, Std.HashMap.getElem?_insert,
    Std.HashMap.getElem?_empty, beq_iff_eq] at h
  repeat' split at h
  all_goals first | (subst_vars; cases h; decide) | cases h

theorem base_derived :
    (shelvesAsked type names hosts backed layouts).facts.bases[TypeId.mk 1]? = some (some ⟨4⟩) := by
  cbv

theorem base_rows :
    (shelvesAsked type names hosts backed layouts).facts.bases[TypeId.mk 3]? = some (some ⟨6⟩) := by
  cbv

theorem base_array :
    (shelvesAsked type names hosts backed layouts).facts.bases[TypeId.mk 6]? = some (some ⟨2⟩) := by
  cbv

theorem rises_derived {t : TypeId}
    (h : (shelvesAsked type names hosts backed layouts).Rises ⟨1⟩ t) :
    t = ⟨1⟩ ∨ t = ⟨4⟩ ∨ t = ⟨5⟩ := by
  induction h with
  | refl => exact Or.inl rfl
  | tail _ hedge ih =>
    have hpair := bases_shelvesAsked hedge
    rcases ih with rfl | rfl | rfl <;> simp at hpair <;> simp [hpair]

/-- No native type derives from anything there. -/
theorem rises_native {t u : TypeId} {native : HostType}
    (hnative : ((shelvesAsked type names hosts backed layouts).type t).shape = .native native)
    (h : (shelvesAsked type names hosts backed layouts).Rises t u) : u = t := by
  rcases h.cases_head with rfl | ⟨b, hedge, -⟩
  · rfl
  · rcases bases_shelvesAsked hedge with
      ⟨rfl, -⟩ | ⟨rfl, -⟩ | ⟨rfl, -⟩ | ⟨rfl, -⟩ | ⟨rfl, -⟩ <;> cases hnative

/-! The layouts of all four classes. -/

/-- The field `x` that `Base<Derived>` declares. -/
def shelfField : Field := ⟨⟨4⟩, "x", 0, false, ⟨1⟩, none⟩

def baseLayout : FieldLayout := ⟨[shelfField], []⟩

def derivedLayout : FieldLayout :=
  ⟨[shelfField, ⟨⟨1⟩, "y", 1, false, ⟨1⟩, none⟩], [⟨⟨1⟩, "x", 0, true, ⟨1⟩, none⟩]⟩

def arrayLayout : FieldLayout := ⟨[⟨⟨2⟩, "n", 0, false, ⟨1⟩, none⟩], []⟩

theorem layout_shelfBase (hnew : layouts[TypeId.mk 4]? = none) (fuel : Nat) :
    layout (fuel + 1) ⟨4⟩ (shelvesAsked type names hosts backed layouts) = .ok baseLayout
      (shelvesAsked type names hosts backed (layouts.insertIfNew ⟨4⟩ baseLayout)) := by
  have hbuilt : buildLayout (layout fuel) ⟨4⟩ (shelvesAsked type names hosts backed layouts) =
      .ok baseLayout (shelvesAsked type names hosts backed layouts) := by
    cbv
  exact layout_of_built hnew hbuilt hnew

theorem layout_array (hnew : layouts[TypeId.mk 2]? = none) (fuel : Nat) :
    layout (fuel + 1) ⟨2⟩ (shelvesAsked type names hosts backed layouts) = .ok arrayLayout
      (shelvesAsked type names hosts backed (layouts.insertIfNew ⟨2⟩ arrayLayout)) := by
  have hbuilt : buildLayout (layout fuel) ⟨2⟩ (shelvesAsked type names hosts backed layouts) =
      .ok arrayLayout (shelvesAsked type names hosts backed layouts) := by
    cbv
  exact layout_of_built hnew hbuilt hnew

theorem layout_rows (hnew : layouts[TypeId.mk 3]? = none) (fuel : Nat) :
    layout (fuel + 1) ⟨3⟩ (shelvesAsked type names hosts backed layouts) =
      .ok .empty (shelvesAsked type names hosts backed (layouts.insertIfNew ⟨3⟩ .empty)) := by
  have hbuilt : buildLayout (layout fuel) ⟨3⟩ (shelvesAsked type names hosts backed layouts) =
      .ok .empty (shelvesAsked type names hosts backed layouts) := by
    cbv
  exact layout_of_built hnew hbuilt hnew

/-- The registry after `Derived` was asked for its layout as well. -/
def shelvesLaid (type : HostType) (names hosts : Std.HashMap String TypeId)
    (backed : Std.HashMap HostKind TypeId) : Registry :=
  shelvesAsked type names hosts backed
    ((empty.facts.layouts.insertIfNew ⟨4⟩ baseLayout).insertIfNew ⟨1⟩ derivedLayout)

theorem layout_derived (fuel : Nat) :
    layout (fuel + 2) ⟨1⟩ (shelvesAsked type names hosts backed {}) =
      .ok derivedLayout (shelvesLaid type names hosts backed) := by
  let r := shelvesAsked type names hosts backed {}
  let layouts := empty.facts.layouts.insertIfNew ⟨4⟩ baseLayout
  let r₁ := shelvesAsked type names hosts backed layouts
  have hinherited : layout (fuel + 1) ⟨4⟩ r = .ok baseLayout r₁ :=
    layout_shelfBase Std.HashMap.getElem?_empty fuel
  have happend : appendDefinedFields ⟨0⟩ ⟨1⟩ ⟨[shelfField], []⟩
      [⟨"x", .definition (Module.typeToken 1), true⟩,
        ⟨"y", .definition (Module.typeToken 1), false⟩] r₁ = .ok derivedLayout r₁ := by
    cbv
  have hbuilt : buildLayout (layout (fuel + 1)) ⟨1⟩ r = .ok derivedLayout r₁ := by
    rw [buildLayout, ask_bind]
    exact (bind_of_ok (baseType_of_known base_derived)).trans
      ((bind_of_ok hinherited).trans happend)
  have hnew : layouts[TypeId.mk 1]? = none := by simp [layouts, empty]
  exact layout_of_built Std.HashMap.getElem?_empty hbuilt hnew

theorem findField_derived : findField 2 ⟨1⟩ "x" none (shelvesAsked type names hosts backed {}) =
    .ok shelfField (shelvesLaid type names hosts backed) := by
  let r := shelvesAsked type names hosts backed {}
  let r' := shelvesLaid type names hosts backed
  let look (t : TypeId) : RegistryM (Option Field) := do
    return FieldLayout.pick? (← layout 2 t) "x" none
  have hpick : derivedLayout.pick? "x" none = some shelfField := by cbv
  have hlook : look ⟨1⟩ r = .ok (some shelfField) r' :=
    (bind_of_ok (layout_derived 0)).trans (by rw [hpick]; rfl)
  have hvisit : visitWith look ⟨1⟩ r = .ok (.found shelfField) r' := (bind_of_ok hlook).trans rfl
  have hwalk : walk (visitWith look) 2 ⟨1⟩ r = .ok (some shelfField) r' :=
    (bind_of_ok hvisit).trans rfl
  exact (bind_of_ok hwalk).trans rfl

theorem unmixed_derived : (shelvesLaid type names hosts backed).Unmixed ⟨1⟩ := by
  intro t u ht hu hinterpreted
  rcases rises_derived ht with rfl | rfl | rfl
  · rfl
  · rfl
  · rw [rises_native rfl hu] at hinterpreted
    cases hinterpreted

/-- `Derived` and `Base<Derived>`: the layout of the one starts with that of the other, and the
field `x` that is inherited stands where it stood. -/
theorem layouts_line_up_shelves : ∃ r r' f l l', r.Consulted ∧
    layout 2 ⟨1⟩ r = .ok l r' ∧ r'.Unmixed ⟨1⟩ ∧ r'.Rises ⟨1⟩ ⟨4⟩ ∧
    layout 1 ⟨4⟩ r' = .ok l' r' ∧ l'.instance_ <+: l.instance_ ∧
    (l'.instance_.map Field.name = ["x"] ∧ l.instance_.map Field.name = ["x", "y"]) ∧
    findField 2 ⟨1⟩ "x" none r = .ok f r' ∧ l.instance_[f.index]? = some f ∧
    r'.Foremost ⟨1⟩ f := by
  obtain ⟨type, names, hosts, backed, h⟩ := exists_consulted_shelvesAsked
  let r := shelvesAsked type names hosts backed {}
  let r' := shelvesLaid type names hosts backed
  have hthere : r.Has ⟨1⟩ := has_ofShelves ⟨1⟩ (by simp)
  have hinterpreted : (r.type ⟨1⟩).isInterpreted = true := rfl
  have hbase : (r'.type ⟨4⟩).isInterpreted = true := rfl
  have hx : layout 2 ⟨1⟩ r = .ok derivedLayout r' := layout_derived 0
  have hfound : findField 2 ⟨1⟩ "x" none r = .ok shelfField r' := findField_derived
  have hrises : r'.Rises ⟨1⟩ ⟨4⟩ := .single base_derived
  have hunmixed : r'.Unmixed ⟨1⟩ := unmixed_derived
  obtain ⟨hlayouts, hfields⟩ := layouts_line_up h hthere hinterpreted
  obtain ⟨l', hl', hfirst⟩ := (hlayouts 2 derivedLayout r' hx).2 hunmixed ⟨4⟩ hrises hbase
  obtain ⟨l, hl, -, hat, -, hforemost⟩ :=
    hfields 2 "x" none shelfField r' hfound rfl hbase hunmixed
  have hknown : r'.facts.layouts[TypeId.mk 1]? = some derivedLayout := layouts_of_layout hx
  have hbelow : r'.facts.layouts[TypeId.mk 4]? = some baseLayout :=
    getElem?_insertIfNew_of_some (getElem?_insertIfNew_of_none Std.HashMap.getElem?_empty)
  cases (layouts_of_layout (hl 0)).symm.trans hknown
  cases (layouts_of_layout (hl' 0)).symm.trans hbelow
  exact ⟨r, r', shelfField, derivedLayout, baseLayout, h, hx, hunmixed, hrises, hl' 0, hfirst,
    ⟨rfl, rfl⟩, hfound, hat, hforemost⟩

/-- The chain of base types is known to its end and never comes back to where it was, and no host
type on it derives from an interpreted one. -/
structure Chained (r : Registry) (D : TypeId) : Prop where
  known : ∀ t, r.Rises D t → ∃ base, r.facts.bases[t]? = some base
  acyclic : ∀ t b, r.Rises D t → r.facts.bases[t]? = some (some b) → ¬r.Rises b t
  native : ∀ t u host, r.Rises D t → (r.type t).shape = .native host → r.Rises t u →
    (r.type u).isInterpreted = false

/-- How far each type is from the end of its chain. -/
def shelfRank (t : TypeId) : Nat := [0, 2, 1, 3, 1, 0, 2].getD t.index 0

theorem shelfRank_lt {t b : TypeId}
    (h : (shelvesAsked type names hosts backed layouts).facts.bases[t]? = some (some b)) :
    shelfRank b < shelfRank t := by
  rcases bases_shelvesAsked h with
    ⟨rfl, rfl⟩ | ⟨rfl, rfl⟩ | ⟨rfl, rfl⟩ | ⟨rfl, rfl⟩ | ⟨rfl, rfl⟩ <;> decide

theorem shelfRank_le {t u : TypeId}
    (h : (shelvesAsked type names hosts backed layouts).Rises t u) : shelfRank u ≤ shelfRank t := by
  induction h with
  | refl => exact Nat.le_refl _
  | tail _ hedge ih => exact (shelfRank_lt hedge).le.trans ih

/-- In that registry the way up from each type of the module can be followed. -/
theorem chained_shelvesAsked {D : TypeId} (hD : 0 < D.index ∧ D.index < 7) :
    (shelvesAsked type names hosts backed layouts).Chained D where
  known t ht := by
    have hindex : 0 < t.index ∧ t.index < 7 := by
      rcases ht.cases_tail with rfl | ⟨u, -, hedge⟩
      · exact hD
      · rcases bases_shelvesAsked hedge with
          ⟨-, rfl⟩ | ⟨-, rfl⟩ | ⟨-, rfl⟩ | ⟨-, rfl⟩ | ⟨-, rfl⟩ <;> decide
    obtain ⟨i⟩ := t
    change 0 < i ∧ i < 7 at hindex
    have hmem : TypeId.mk i ∈ (shelvesAsked type names hosts backed layouts).facts.bases := by
      simp only [shelvesAsked, ofShelves, derivedBases, Std.HashMap.mem_insert, beq_iff_eq,
        TypeId.mk.injEq]
      omega
    exact ⟨_, Std.HashMap.getElem?_eq_some_getElem hmem⟩
  acyclic t b _ hedge hback :=
    absurd (shelfRank_le hback) (Nat.not_le_of_lt (shelfRank_lt hedge))
  native t u host _ hnative hup := by
    obtain rfl := rises_native hnative hup
    rw [Descriptor.isInterpreted, hnative]

/-- `Rows` derives from arrays of an interpreted class, and these from that class, but its objects
do not have the field of the class. A search on `Derived` for `x` finds the instance field that
`Base<Derived>` declares, and not the static one that `Derived` declares. -/
theorem layouts_out_of_line :
    (¬∀ (r r' r'' : Registry) (D B : TypeId) (fuel : Nat) (l l' : FieldLayout), r.Consulted →
      r.Has D → (r.type D).isInterpreted = true → r.Chained D → r.Rises D B →
      (r.type B).isInterpreted = true → layout fuel D r = .ok l r' → layout fuel B r' = .ok l' r'' →
      l'.instance_ <+: l.instance_) ∧
    ¬∀ (r r' : Registry) (D : TypeId) (fuel : Nat) (name : String) (isStatic : Option Bool)
      (f : Field), r.Consulted → r.Has D → (r.type D).isInterpreted = true → r.Chained D →
      findField fuel D name isStatic r = .ok f r' → f.isStatic = false →
      (r'.type f.declaring).isInterpreted = true →
      ∀ t, r'.Rises D t → (∃ row ∈ (r'.type t).fieldRows, row.name = f.name) →
        r'.Rises f.declaring t := by
  obtain ⟨type, names, hosts, backed, h⟩ := exists_consulted_shelvesAsked
  constructor
  · intro hprefix
    have hrises : (shelvesAsked type names hosts backed {}).Rises ⟨3⟩ ⟨2⟩ :=
      .tail (.single base_rows) base_array
    have hempty := hprefix _ _ _ ⟨3⟩ ⟨2⟩ 1 _ _ h (has_ofShelves ⟨3⟩ (by simp)) rfl
      (chained_shelvesAsked (by decide)) hrises rfl (layout_rows Std.HashMap.getElem?_empty 0)
      (layout_array (by simp) 0)
    cases List.prefix_nil.mp hempty
  · intro hfirst
    have hback := hfirst _ _ ⟨1⟩ 2 "x" none shelfField h (has_ofShelves ⟨1⟩ (by simp)) rfl
      (chained_shelvesAsked (by decide)) findField_derived rfl rfl ⟨1⟩ .refl
      ⟨_, List.mem_cons_self, rfl⟩
    exact absurd (shelfRank_le hback) (by decide)

end Registry

end ManagedMachine
