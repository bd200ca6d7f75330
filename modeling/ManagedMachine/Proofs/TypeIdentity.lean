import ManagedMachine.Proofs.OrderlyNames

/-!
# Types and their names

A type that is built from others is interned under the name that spells it out, so the name says
which type it is as long as the names of the parts do. Host types do not take part in this: they are
told apart by their modules, and one that comes into use under a full name that is taken becomes a
second type of that name. What is built from it is then looked up under the name that it shares.

Texts are cut into parts in one way only (`array_text_inj`, `generic_text_inj`), which needs the
brackets in them to match. A type that was made from types that stand alone under their names is
then the one that its own name says, and nothing else has the name.
-/

set_option autoImplicit false
set_option relaxedAutoImplicit false

namespace ManagedMachine

namespace Registry

variable {r r' : Registry} {d : Descriptor} {t e : TypeId} {i : Nat}

/-! ### Two types of one name -/

/-- A type whose name means another one: a host type that came into use under a full name that was
taken, or a type of a module that was not loaded because of it. -/
structure Latecomer (r : Registry) (t : TypeId) : Prop where
  taken : r.names[r.typeName t]? ≠ some t
  plain : (r.type t).definition = none
  origin : (r.type t).isNative = true ∨
    (r.type t).isInterpreted = true ∧ ∀ ref : Reference, r.definitions[ref]? ≠ some t

/-- A type stands under its name, or it is a type of the host that came too late for it. -/
theorem Orderly.named_or_latecomer (h : r.Orderly) (ht : r.Has t) :
    r.names[r.typeName t]? = some t ∨ r.Latecomer t := by
  by_cases hnamed : r.names[r.typeName t]? = some t
  · exact .inl hnamed
  · have hplain : ¬(r.type t).IsInterned := fun hinterned ↦
      hnamed (h.interned _ _ (getElem?_of_has ht) hinterned)
    simp only [Descriptor.IsInterned, not_or, Option.not_isSome_iff_eq_none] at hplain
    obtain ⟨hnone, helement, hparameter⟩ := hplain
    refine .inr ⟨hnamed, hnone, ?_⟩
    cases hshape : (r.type t).shape with
    | interpreted home token =>
      exact .inr ⟨by simp [Descriptor.isInterpreted, hshape],
        fun ref href ↦ hnamed (h.defined ref t href)⟩
    | native type => exact .inl (by simp [Descriptor.isNative, Descriptor.native?, hshape])
    | array _ _ | byRef _ => simp [Descriptor.element?, hshape] at helement
    | parameter => simp [Descriptor.isParameter, hshape] at hparameter

theorem Orderly.eq_of_typeName (h : r.Orderly) {u : TypeId} (ht : r.Has t) (hu : r.Has u)
    (heq : r.typeName t = r.typeName u) : t = u ∨ r.Latecomer t ∨ r.Latecomer u := by
  rcases h.named_or_latecomer ht with htname | hlate
  · rcases h.named_or_latecomer hu with huname | hlate
    · rw [heq, huname] at htname
      exact .inl (Option.some.inj htname).symm
    · exact .inr (.inr hlate)
  · exact .inr (.inl hlate)

/-! ### What is built from a type -/

/-- No other type has the name of this one. -/
def Alone (r : Registry) (t : TypeId) : Prop :=
  r.Has t ∧ ∀ u, r.Has u → r.typeName u = r.typeName t → u = t

theorem exists_name (h : r.Legible) (ht : r.Has t) : ∃ n : TypeName, n.WellFormed ∧
    r.typeName t = n.canonical ∧ '/' ∉ n.canonical.toList ∧ n.Fits (r.type t) := by
  obtain ⟨n, hwell, hname, hslash, hfits⟩ := h _ _ (getElem?_of_has ht)
  exact ⟨n, hwell, hname, hname ▸ hslash, hfits⟩

theorem typeName_ne_empty (h : r.Legible) (ht : r.Has t) : (r.typeName t).toList ≠ [] := by
  obtain ⟨n, hwell, hname, -⟩ := exists_name h ht
  rw [hname]
  exact hwell.text_trimmed.1

theorem eq_of_nameBefore {u : TypeId} (hlegible : r.Legible) (hu : r.Alone u)
    (hi : i ≤ r.types.size)
    (h : r.nameBefore i e = r.typeName u) : e = u := by
  unfold nameBefore at h
  split at h
  · next he => exact hu.2 e (Nat.lt_of_lt_of_le he hi) h
  · exact absurd (by rw [← h]; rfl) (typeName_ne_empty hlegible hu.1)

theorem toList_arraySuffix (rank : UInt8) :
    (arraySuffix rank).toList = '[' :: List.replicate (rank.toNat - 1) ',' ++ [']'] := by
  simp [arraySuffix]

theorem balanced_replicate (k : Nat) : TypeName.Balanced true (List.replicate k ',') := by
  refine .of_chars fun c hc ↦ ?_
  rw [List.eq_of_mem_replicate hc]
  exact ⟨rfl, fun _ ↦ rfl⟩

/-- The name of an array says of what it is an array, and with which rank. -/
theorem array_text_inj {a b : String} {j k : UInt8} (hj : j ≠ 0) (hk : k ≠ 0)
    (h : a ++ arraySuffix j = b ++ arraySuffix k) : a = b ∧ j = k := by
  have hlists := congrArg String.toList h
  simp only [String.toList_append, toList_arraySuffix, ← List.append_assoc] at hlists
  have hmatching : TypeName.Matching '[' ']' := .inr ⟨rfl, rfl⟩
  have hsplit (cs : List Char) (k : Nat) :=
    TypeName.splitBracket_of_balanced hmatching cs (balanced_replicate k)
  have hboth := hsplit a.toList (j.toNat - 1)
  rw [List.append_cancel_right hlists, hsplit] at hboth
  obtain ⟨hname, hcommas⟩ := Prod.mk.inj (Option.some.inj hboth)
  have hlength := congrArg List.length hcommas
  rw [List.length_replicate, List.length_replicate] at hlength
  have hj' : j.toNat ≠ 0 := fun hzero ↦ hj (UInt8.toNat_inj.mp hzero)
  have hk' : k.toNat ≠ 0 := fun hzero ↦ hk (UInt8.toNat_inj.mp hzero)
  exact ⟨(String.toList_inj.mp hname).symm, UInt8.toNat_inj.mp (by omega)⟩

theorem intern_ok (d : Descriptor) (r : Registry) : ∃ t r', intern d r = .ok t r' ∧
    (r.names[d.name]? = some t ∧ r' = r ∨ r'.type t = d) := by
  cases hknown : r.names[d.name]? with
  | some t => exact ⟨t, r, intern_of_known hknown, .inl ⟨rfl, rfl⟩⟩
  | none => exact ⟨_, _, intern_of_new hknown, .inr (type_eq_of_getElem? Array.getElem?_push_size)⟩

/-- The type that a name of some shape means has that shape. -/
theorem Orderly.fits (h : r.Orderly) (hlegible : r.Legible) {n : TypeName} (hwell : n.WellFormed)
    (hslash : '/' ∉ n.canonical.toList) (ht : r.names[n.canonical]? = some t) :
    r.Has t ∧ r.typeName t = n.canonical ∧ n.Fits (r.type t) := by
  have hthere := h.present _ _ ht
  have hname := h.spelled hlegible _ _ ht (canonical_of_wellFormed hwell hslash)
  obtain ⟨m, hm, hmname, -, hfits⟩ := exists_name hlegible hthere
  obtain rfl := hm.canonical_inj hwell (hmname.symm.trans hname)
  exact ⟨hthere, hname, hfits⟩

theorem arraySuffix_one (rank : UInt8) : arraySuffix (if rank = 0 then 1 else rank) =
    arraySuffix rank := by
  split
  · next h => rw [h]; rfl
  · rfl

/-- An array is made of its elements, also where there was one of the name before. -/
theorem Orderly.shape_makeArray (h : r.Orderly) (hlegible : r.Legible) (he : r.Alone e)
    (rank : UInt8) : ∃ t r', makeArray e rank r = .ok t r' ∧
      (r'.type t).shape = .array e (if rank = 0 then 1 else rank) := by
  obtain ⟨t, r', hok, ⟨hknown, rfl⟩ | hnew⟩ := intern_ok (r.arrayOf e rank) r
  · refine ⟨t, r', hok, ?_⟩
    set rank' : UInt8 := if rank = 0 then 1 else rank with hrank
    have hpos : rank' ≠ 0 := by
      rw [hrank]
      split
      · decide
      · assumption
    obtain ⟨n, hwell, hname, hslash, -⟩ := exists_name hlegible he.1
    have harray : (TypeName.array n rank').canonical = r'.typeName e ++ arraySuffix rank' := by
      rw [TypeName.canonical, hname]
    have hnoslash : '/' ∉ (TypeName.array n rank').canonical.toList := by
      rw [TypeName.canonical, String.toList_append, toList_arraySuffix]
      simpa using hslash
    rw [arrayOf, ← arraySuffix_one, ← hrank, ← harray] at hknown
    obtain ⟨hthere, htname, hnone, hisArray⟩ :=
      h.fits hlegible (.array hwell hpos) hnoslash hknown
    obtain ⟨e', k, hshape⟩ : ∃ e' k, (r'.type t).shape = .array e' k := by
      unfold Descriptor.isArray at hisArray
      split at hisArray
      · next hshape => exact ⟨_, _, hshape⟩
      · cases hisArray
    obtain ⟨hbuilt, hk⟩ := (h.types _ _ (getElem?_of_has hthere)).array hnone e' k hshape
    obtain ⟨hsame, rfl⟩ := array_text_inj hk hpos (hbuilt.symm.trans (htname.trans harray))
    rw [hshape, eq_of_nameBefore hlegible he (Nat.le_of_lt hthere) hsame]
  · exact ⟨t, r', hok, by rw [hnew]; rfl⟩

/-- The same of a reference. -/
theorem Orderly.shape_makeByRef (h : r.Orderly) (hlegible : r.Legible) (he : r.Alone e) :
    ∃ t r', makeByRef e r = .ok t r' ∧ (r'.type t).shape = .byRef e := by
  obtain ⟨t, r', hok, ⟨hknown, rfl⟩ | hnew⟩ := intern_ok (r.byRefOf e) r
  · refine ⟨t, r', hok, ?_⟩
    obtain ⟨n, hwell, hname, hslash, -⟩ := exists_name hlegible he.1
    have hbyRef : (TypeName.byRef n).canonical = r'.typeName e ++ "&" := by
      rw [TypeName.canonical, hname]
    have hnoslash : '/' ∉ (TypeName.byRef n).canonical.toList := by
      rw [TypeName.canonical, String.toList_append]
      simpa using hslash
    rw [byRefOf, ← hbyRef] at hknown
    obtain ⟨hthere, htname, hnone, hisByRef⟩ := h.fits hlegible (.byRef hwell) hnoslash hknown
    obtain ⟨e', hshape⟩ : ∃ e', (r'.type t).shape = .byRef e' := by
      unfold Descriptor.isByRef at hisByRef
      split at hisByRef
      · next hshape => exact ⟨_, hshape⟩
      · cases hisByRef
    have hbuilt := (h.types _ _ (getElem?_of_has hthere)).byRef hnone e' hshape
    have hsame : r'.nameBefore t.index e' = r'.typeName e := by
      have hlists := congrArg String.toList (hbuilt.symm.trans (htname.trans hbyRef))
      rw [String.toList_append, String.toList_append] at hlists
      exact String.toList_inj.mp (List.append_cancel_right hlists)
    rw [hshape, eq_of_nameBefore hlegible he (Nat.le_of_lt hthere) hsame]
  · exact ⟨t, r', hok, by rw [hnew]; rfl⟩

/-! ### Instantiations -/

theorem balanced_nameBefore (hlegible : r.Legible) (hi : i ≤ r.types.size) (t : TypeId) :
    TypeName.Balanced false (r.nameBefore i t).toList := by
  unfold nameBefore
  split
  · next ht =>
    obtain ⟨n, hwell, hname, -⟩ := exists_name hlegible (Nat.lt_of_lt_of_le ht hi)
    rw [hname]
    exact hwell.balanced
  · exact .nil

/-- The name of an instantiation says of what it is one, and with which arguments. -/
theorem generic_text_inj {a b : String} {ps qs : List String}
    (hps : ∀ p ∈ ps, TypeName.Balanced false p.toList)
    (hqs : ∀ q ∈ qs, TypeName.Balanced false q.toList)
    (h : a ++ "<" ++ String.intercalate "," ps ++ ">" =
      b ++ "<" ++ String.intercalate "," qs ++ ">") :
    a = b ∧ List.intercalate [','] (ps.map String.toList) =
      List.intercalate [','] (qs.map String.toList) := by
  have hbalanced {ps : List String} (hps : ∀ p ∈ ps, TypeName.Balanced false p.toList) :
      TypeName.Balanced true (List.intercalate [','] (ps.map String.toList)) := by
    refine .intercalate fun p hp ↦ ?_
    obtain ⟨p, hmem, rfl⟩ := List.mem_map.mp hp
    exact hps p hmem
  have htext (a : String) (ps : List String) :
      (a ++ "<" ++ String.intercalate "," ps ++ ">").toList =
        (a.toList ++ '<' :: List.intercalate [','] (ps.map String.toList)) ++ ['>'] := by
    simp [String.toList_intercalate]
  have hlists := congrArg String.toList h
  rw [htext, htext] at hlists
  have hmatching : TypeName.Matching '<' '>' := .inl ⟨rfl, rfl⟩
  have hsplit := TypeName.splitBracket_of_balanced hmatching a.toList (hbalanced hps)
  rw [List.append_cancel_right hlists,
    TypeName.splitBracket_of_balanced hmatching b.toList (hbalanced hqs)] at hsplit
  obtain ⟨hname, hargs⟩ := Prod.mk.inj (Option.some.inj hsplit)
  exact ⟨(String.toList_inj.mp hname).symm, hargs.symm⟩

/-- Joined names come apart again, unless the only one was empty. -/
theorem intercalate_inj {ps qs : List (List Char)} (hne : ps ≠ [])
    (hps : ∀ p ∈ ps, TypeName.Balanced false p ∧ p ≠ [])
    (hqs : ∀ q ∈ qs, TypeName.Balanced false q)
    (h : List.intercalate [','] ps = List.intercalate [','] qs) : ps = qs := by
  have hcut := TypeName.cutCommas_intercalate hne fun p hp ↦ (hps p hp).1
  cases qs with
  | nil =>
    rw [h] at hcut
    have hempty : [] ∈ ps := hcut ▸ List.mem_singleton.mpr rfl
    exact absurd rfl (hps [] hempty).2
  | cons q qs =>
    rw [h, TypeName.cutCommas_intercalate (List.cons_ne_nil q qs) hqs] at hcut
    exact hcut.symm

/-- Only types that are not built from others have generic parameters, instantiations apart. -/
theorem element?_of_generics (h : d.generics ≠ []) : d.element? = none := by
  unfold Descriptor.generics Descriptor.native? Descriptor.typeDef? at h
  unfold Descriptor.element?
  cases hshape : d.shape <;> simp_all

/-- The open type of an instantiation is not one itself. -/
theorem Orderly.definition_openOf (h : r.Orderly) (hlegible : r.Legible)
    (hopen : r.Has (r.openOf t)) : (r.type (r.openOf t)).definition = none := by
  cases hdefinition : (r.type t).definition with
  | none => rwa [openOf, hdefinition]
  | some g =>
    have ht : r.Has t := by
      by_contra hnot
      have hdefault : r.type t = default := by
        rw [Registry.type, Array.getD_eq_getD_getElem?,
          Array.getElem?_eq_none (Nat.le_of_not_lt hnot)]
        rfl
      rw [hdefault] at hdefinition
      cases hdefinition
    have hopen' : r.openOf t = g := by rw [openOf, hdefinition]; rfl
    obtain ⟨n, hwell, hname, -, hfits⟩ := exists_name hlegible ht
    cases hwell with
    | simple _ => exact absurd hfits.1 (by simp [hdefinition])
    | array _ _ => exact absurd hfits.1 (by simp [hdefinition])
    | byRef _ => exact absurd hfits.1 (by simp [hdefinition])
    | @generic name args hplain _ hargs =>
      have hbuilt := (h.types _ _ (getElem?_of_has ht)).instance_ g hdefinition
      have hcanonical := hname.symm.trans hbuilt
      rw [TypeName.canonical, TypeName.canonicals_eq_map, canonical_simple] at hcanonical
      have hsame := (generic_text_inj (fun p hp ↦ ?_) (fun q hq ↦ ?_) hcanonical).1
      · have hnameBefore : r.typeName g = name := by
          unfold nameBefore at hsame
          split at hsame
          · exact hsame.symm
          · exact absurd (congrArg String.toList hsame) hplain.ne_nil
        rw [hopen'] at hopen ⊢
        rw [← hnameBefore] at hplain
        exact definition_of_isPlain (hlegible _ _ (getElem?_of_has hopen)) hplain
      · obtain ⟨m, hm, rfl⟩ := List.mem_map.mp hp
        exact (hargs m hm).balanced
      · obtain ⟨b, -, rfl⟩ := List.mem_map.mp hq
        exact balanced_nameBefore hlegible (Nat.le_of_lt ht) b.type

theorem exists_names {args : List TypeId} (h : r.Legible) (hargs : ∀ a ∈ args, r.Has a) :
    ∃ ns : List TypeName, (∀ n ∈ ns, n.WellFormed ∧ '/' ∉ n.canonical.toList) ∧
      ns.map TypeName.canonical = args.map r.typeName := by
  induction args with
  | nil => exact ⟨[], fun _ hn ↦ absurd hn List.not_mem_nil, rfl⟩
  | cons a args ih =>
    obtain ⟨n, hwell, hname, hslash, -⟩ := exists_name h (hargs a List.mem_cons_self)
    obtain ⟨ns, hns, hnames⟩ := ih fun a' ha' ↦ hargs a' (List.mem_cons_of_mem a ha')
    refine ⟨n :: ns, List.forall_mem_cons.mpr ⟨⟨hwell, hslash⟩, hns⟩, ?_⟩
    rw [List.map_cons, List.map_cons, hname, hnames]

theorem types_of_nameBefore {args : List TypeId} {bindings : List Binding} (hlegible : r.Legible)
    (hargs : ∀ a ∈ args, r.Alone a) (hi : i ≤ r.types.size)
    (h : args.map r.typeName = bindings.map fun b ↦ r.nameBefore i b.type) :
    bindings.map Binding.type = args := by
  induction args generalizing bindings with
  | nil => rw [List.map_nil, List.nil_eq, List.map_eq_nil_iff] at h; rw [h]; rfl
  | cons a args ih =>
    cases bindings with
    | nil => cases h
    | cons b bindings =>
      rw [List.map_cons, List.map_cons] at h
      obtain ⟨hhead, htail⟩ := List.cons.inj h
      rw [List.map_cons, ih (fun a' ha' ↦ hargs a' (List.mem_cons_of_mem a ha')) htail,
        eq_of_nameBefore hlegible (hargs a List.mem_cons_self) hi hhead.symm]

theorem zip_map_bindings (bindings : List Binding) : bindings =
    ((bindings.map Binding.name).zip (bindings.map Binding.type)).map fun (name, type) ↦
      Binding.mk name type := by
  rw [List.zip_map', List.map_map]
  exact (List.map_id _).symm

/-- An instantiation has the arguments that it was made with. -/
theorem Orderly.args_makeInstance (h : r.Orderly) (hlegible : r.Legible) {args : List TypeId}
    {u : TypeId} (hopen : r.Alone (r.openOf t)) (hargs : ∀ a ∈ args, r.Alone a)
    (hok : makeInstance t args r = .ok u r') (hne : args ≠ []) :
    (r'.type u).definition = some (r.openOf t) ∧
      (r'.type u).args = ((r.type (r.openOf t)).generics.zip args).map fun (name, type) ↦
        Binding.mk name type := by
  obtain ⟨harity, hintern⟩ := makeInstance_ok hok
  obtain ⟨u', r₁, hok', ⟨hknown, rfl⟩ | hnew⟩ := intern_ok (r.instanceOf (r.openOf t) args) r
  · cases hok'.symm.trans hintern
    set g := r'.openOf t with hg
    have hgenerics : (r'.type g).generics ≠ [] := by
      rw [← List.length_pos_iff_ne_nil, harity]
      exact List.length_pos_iff_ne_nil.mpr hne
    have hgnone := h.definition_openOf hlegible hopen.1
    have hplain := isPlain_of_legible (hlegible _ _ (getElem?_of_has hopen.1)) hgnone
      (element?_of_generics hgenerics)
    obtain ⟨ns, hns, hnames⟩ := exists_names hlegible fun a ha ↦ (hargs a ha).1
    have hnsne : ns ≠ [] := by
      rintro rfl
      exact hne (List.map_eq_nil_iff.mp hnames.symm)
    have hcanonical : (TypeName.generic (.simple (r'.typeName g) none) ns).canonical =
        (r'.instanceOf g args).name := by
      rw [TypeName.canonical, TypeName.canonicals_eq_map, canonical_simple, hnames]
      rfl
    have hslash : '/' ∉ (TypeName.generic (.simple (r'.typeName g) none) ns).canonical.toList := by
      obtain ⟨n, -, hname, hgslash, -⟩ := exists_name hlegible hopen.1
      refine slash_notMem_generic.mpr ⟨?_, fun n hn ↦ (hns n hn).2⟩
      rwa [canonical_simple, hname]
    rw [← hcanonical] at hknown
    obtain ⟨hthere, huname, hfits⟩ := h.fits hlegible
      (.generic hplain hnsne fun n hn ↦ (hns n hn).1) hslash hknown
    obtain ⟨g', hg'⟩ := Option.isSome_iff_exists.mp hfits
    have hbuilt := h.types _ _ (getElem?_of_has hthere)
    have hi := Nat.le_of_lt hthere
    have hnamesBalanced (p : String) (hp : p ∈ args.map r'.typeName) :
        TypeName.Balanced false p.toList ∧ p.toList ≠ [] := by
      obtain ⟨a, ha, rfl⟩ := List.mem_map.mp hp
      obtain ⟨n, hwell, hname, -⟩ := exists_name hlegible (hargs a ha).1
      exact ⟨hname ▸ hwell.balanced, typeName_ne_empty hlegible (hargs a ha).1⟩
    have hbeforeBalanced (q : String)
        (hq : q ∈ (r'.type u).args.map fun b ↦ r'.nameBefore u.index b.type) :
        TypeName.Balanced false q.toList := by
      obtain ⟨b, -, rfl⟩ := List.mem_map.mp hq
      exact balanced_nameBefore hlegible hi b.type
    obtain ⟨hhead, hlists⟩ := generic_text_inj (fun p hp ↦ (hnamesBalanced p hp).1) hbeforeBalanced
      (hcanonical.symm.trans (huname.symm.trans (hbuilt.instance_ g' hg')))
    rw [eq_of_nameBefore hlegible hopen hi hhead.symm] at hg' hhead
    have hearlier : g.index < u.index := by
      by_contra hlate
      rw [nameBefore, if_neg hlate] at hhead
      exact typeName_ne_empty hlegible hopen.1 (congrArg String.toList hhead)
    have hsame := intercalate_inj (by simpa using hne)
      (fun cs hcs ↦ by
        obtain ⟨p, hp, rfl⟩ := List.mem_map.mp hcs
        exact hnamesBalanced p hp)
      (fun cs hcs ↦ by
        obtain ⟨q, hq, rfl⟩ := List.mem_map.mp hcs
        exact hbeforeBalanced q hq) hlists
    have htypes := types_of_nameBefore hlegible hargs hi
      (List.map_injective_iff.mpr (fun _ _ ↦ String.toList_inj.mp) hsame)
    refine ⟨hg', ?_⟩
    rw [← hbuilt.bindings g hg' hearlier, ← htypes]
    exact zip_map_bindings _
  · cases hok'.symm.trans hintern
    rw [hnew]
    exact ⟨rfl, rfl⟩

/-! ### One type per name -/

/-- In every registry two types of one name are the same, unless one of them is a latecomer. If all
names can be read, what is made from types whose names no other type has is made of these types. -/
theorem one_type_per_name (h : r.Reached) :
    (∀ t u, r.Has t → r.Has u → r.typeName t = r.typeName u →
      t = u ∨ r.Latecomer t ∨ r.Latecomer u) ∧
    (r.Legible → ∀ e, r.Alone e →
      (∀ rank, ∃ t r', makeArray e rank r = .ok t r' ∧
        (r'.type t).shape = .array e (if rank = 0 then 1 else rank)) ∧
      ∃ t r', makeByRef e r = .ok t r' ∧ (r'.type t).shape = .byRef e) ∧
    (r.Legible → ∀ t args, r.Alone (r.openOf t) → (∀ a ∈ args, r.Alone a) →
      (r.type (r.openOf t)).generics.length = args.length →
      ∃ u r', makeInstance t args r = .ok u r' ∧
        ∀ (i : Nat) name a, (r.type (r.openOf t)).generics[i]? = some name → args[i]? = some a →
          (r'.type u).args[i]? = some ⟨name, a⟩) := by
  have ho := h.orderly
  refine ⟨fun t u ht hu ↦ ho.eq_of_typeName ht hu, fun hlegible e he ↦
    ⟨ho.shape_makeArray hlegible he, ho.shape_makeByRef hlegible he⟩,
    fun hlegible t args hopen hargs harity ↦ ?_⟩
  obtain ⟨u, r', hok, -⟩ := intern_ok (r.instanceOf (r.openOf t) args) r
  have hmade := (makeInstance_of_arity harity).trans hok
  refine ⟨u, r', hmade, fun i name a hname ha ↦ ?_⟩
  have hne : args ≠ [] := by
    rintro rfl
    cases ha
  rw [(ho.args_makeInstance hlegible hopen hargs hmade hne).2, List.getElem?_map,
    (List.getElem?_zip_eq_some (z := (name, a))).mpr ⟨hname, ha⟩]
  rfl

/-- A type with one parameter, of some host module. -/
def cell (moduleName : String) : HostType :=
  { HostType.plain .class_ "N" "Cell" with moduleName, generics := ["T"] }

/-- The registry in which cells are in use. -/
def withCell : Registry := endState (ofHostType (cell "A")) empty

theorem scoped_empty (type : HostType) : empty.scoped_[type.scopedName]? = none :=
  Std.HashMap.getElem?_empty

theorem types_withCell : withCell.types = #[⟨"N.Cell", .native (cell "A"), [], none⟩] := by
  obtain ⟨r', hok, backed, rfl⟩ := ofHostType_of_new (scoped_empty (cell "A"))
  rw [withCell, endState_ok hok]
  rfl

theorem alone_withCell : withCell.Alone ⟨0⟩ := by
  refine ⟨by simp [Has, types_withCell], fun u hu _ ↦ ?_⟩
  simp only [Has, types_withCell, List.size_toArray, List.length_singleton, Nat.lt_one_iff] at hu
  exact congrArg TypeId.mk hu

theorem legible_withCell : withCell.Legible := by
  intro i d hd
  rw [types_withCell] at hd
  obtain rfl := List.mem_singleton.mp (Array.mem_toList_iff.mpr (Array.mem_of_getElem? hd))
  exact ⟨.simple "N.Cell" none, .simple (by decide +kernel), (canonical_simple _ _).symm, by
    decide, rfl, rfl⟩

/-- Tables of cells, and cells of cells. -/
theorem one_type_per_name_withCell : withCell.Reached ∧
    (∃ t r', makeArray ⟨0⟩ 2 withCell = .ok t r' ∧ (r'.type t).shape = .array ⟨0⟩ 2) ∧
    ∃ u r', makeInstance ⟨0⟩ [⟨0⟩] withCell = .ok u r' ∧
      (r'.type u).args[0]? = some ⟨"T", ⟨0⟩⟩ := by
  have hreached : withCell.Reached := Reached.empty.step (.ofHostType (cell "A"))
  obtain ⟨-, hmade, hinstance⟩ := one_type_per_name hreached
  have htype : withCell.type ⟨0⟩ = ⟨"N.Cell", .native (cell "A"), [], none⟩ := by
    rw [Registry.type, types_withCell]
    rfl
  have hopen : withCell.openOf ⟨0⟩ = ⟨0⟩ := by
    rw [openOf, htype]
    rfl
  have hgenerics : (withCell.type (withCell.openOf ⟨0⟩)).generics = ["T"] := by
    rw [hopen, htype]
    rfl
  obtain ⟨u, r', hok, hbindings⟩ := hinstance legible_withCell ⟨0⟩ [⟨0⟩]
    (hopen.symm ▸ alone_withCell) (fun a ha ↦ List.mem_singleton.mp ha ▸ alone_withCell)
    (by rw [hgenerics]; rfl)
  refine ⟨hreached, (hmade legible_withCell ⟨0⟩ alone_withCell).1 2, u, r', hok, ?_⟩
  exact hbindings 0 "T" ⟨0⟩ (by rw [hgenerics]; rfl) rfl

/-- What is made from a type is what was made from another one of its name. -/
theorem makeArray_of_typeName {u : TypeId} {rank : UInt8} (h : makeArray t rank r = .ok e r')
    (hu : r.Has u) (heq : r.typeName u = r.typeName t) :
    makeArray u rank r' = .ok e r' := by
  have hextends : r.Extends r' := Keeps.ok (Building.makeArray t rank) h
  have hname : (r'.arrayOf u rank).name = (r.arrayOf t rank).name := by
    rw [arrayOf, arrayOf, hextends.typeName_eq hu, heq]
  rw [makeArray_eq] at h ⊢
  exact intern_of_known (hname ▸ names_of_intern h)

/-- Host types of one full name and different modules share it, and the type of tables of the second
is that of tables of the first. -/
theorem cells_of_two_modules : ∃ r, Reached r ∧
    (∃ t u, r.Has t ∧ r.Has u ∧ r.typeName t = r.typeName u ∧ t ≠ u) ∧
    ∃ e t r', r.Has e ∧ makeArray e 1 r = .ok t r' ∧ (r'.type t).shape ≠ .array e 1 := by
  obtain ⟨r₂, hreached, htypes, hnone⟩ : ∃ r₂, Reached r₂ ∧
      r₂.types =
        #[⟨"N.Cell", .native (cell "A"), [], none⟩, ⟨"N.Cell", .native (cell "B"), [], none⟩] ∧
      r₂.names["N.Cell[]"]? = none := by
    obtain ⟨r₁, hok₁, backed₁, hr₁⟩ := ofHostType_of_new (scoped_empty (cell "A"))
    have hscoped : r₁.scoped_[(cell "B").scopedName]? = none := by
      rw [hr₁, Std.HashMap.getElem?_insert, if_neg (by decide)]
      exact Std.HashMap.getElem?_empty
    obtain ⟨r₂, hok₂, backed₂, rfl⟩ := ofHostType_of_new hscoped
    have hreached := (Reached.empty.step (.ofHostType (cell "A"))).step (.ofHostType (cell "B"))
    rw [endState_ok hok₁, endState_ok hok₂] at hreached
    refine ⟨_, hreached, by rw [hr₁]; rfl, ?_⟩
    rw [hr₁, Std.HashMap.getElem?_insertIfNew, if_neg fun h ↦ absurd h.1 (by decide),
      Std.HashMap.getElem?_insertIfNew, if_neg fun h ↦ absurd h.1 (by decide)]
    exact Std.HashMap.getElem?_empty
  have hhas : r₂.Has ⟨0⟩ ∧ r₂.Has ⟨1⟩ := by simp [Has, htypes]
  have hname : r₂.typeName ⟨1⟩ = r₂.typeName ⟨0⟩ := by simp [typeName, Registry.type, htypes]
  obtain ⟨t, r₃, hok, ⟨hknown, -⟩ | hnew⟩ := intern_ok (r₂.arrayOf ⟨0⟩ 1) r₂
  · have harray : (r₂.arrayOf ⟨0⟩ 1).name = "N.Cell[]" := by
      rw [arrayOf, typeName, Registry.type, htypes]
      rfl
    rw [harray, hnone] at hknown
    cases hknown
  · have hextends : r₂.Extends r₃ := Keeps.ok (Building.makeArray ⟨0⟩ 1) hok
    have hreached₃ := hreached.step (.makeArray ⟨0⟩ 1)
    rw [endState_ok (x := makeArray ⟨0⟩ 1) hok] at hreached₃
    refine ⟨r₃, hreached₃, ⟨⟨0⟩, ⟨1⟩, hextends.has hhas.1, hextends.has hhas.2, ?_, by decide⟩,
      ⟨1⟩, t, r₃, hextends.has hhas.2, makeArray_of_typeName hok hhas.2 hname, ?_⟩
    · rw [hextends.typeName_eq hhas.1, hextends.typeName_eq hhas.2, hname]
    · rw [hnew]
      simp [arrayOf]

end Registry

end ManagedMachine
