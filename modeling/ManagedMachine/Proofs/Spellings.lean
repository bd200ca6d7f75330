import ManagedMachine.Proofs.ResolvedNames

/-!
# Spellings of a name

A type whose name reads as the names of its parts is what resolving that name yields, and nothing
comes into being on the way: its parts are there, and if no two types have the same name each of
them is found under its own. So all spellings of a name find the type that one of them has found.

The text that was resolved keeps its meaning for another reason: it is told of the type. It comes
too late only if something that came into being on the way is named like the whole text. As names
grow with what they are made of, this takes a host type whose name is longer than the text that
found it, and such a name has a comma in it (`Registry.resolve_unsettled`).
-/

set_option autoImplicit false
set_option relaxedAutoImplicit false

namespace ManagedMachine

namespace Registry

open ManagedMachine.TypeName (nested)

variable {r r' : Registry} {d : Descriptor} {t e : TypeId} {i : Nat} {name : String}
  {n : TypeName}

/-- No two types have the same name. -/
def Distinct (r : Registry) : Prop :=
  ∀ t u, r.Has t → r.Has u → r.typeName t = r.typeName u → t = u

/-! ### The parts of a type -/

theorem of_nameBefore (h : r.nameBefore i e = name) (hne : name.toList ≠ []) :
    e.index < i ∧ r.typeName e = name := by
  unfold nameBefore at h
  split at h
  · next he => exact ⟨he, h⟩
  · exact absurd (congrArg String.toList h).symm hne

theorem Orderly.fits_of_name (hlegible : r.Legible) (ht : r.Has t) (hwell : n.WellFormed)
    (hname : r.typeName t = n.canonical) : n.Fits (r.type t) := by
  obtain ⟨m, hm, hmname, -, hfits⟩ := exists_name hlegible ht
  rwa [hm.canonical_inj hwell (hmname.symm.trans hname)] at hfits

/-- An instantiation whose name reads as that of one has parts that go by the names in it. -/
theorem Orderly.instance_of_name (ho : r.Orderly) (hlegible : r.Legible) (ht : r.Has t)
    {args : List TypeName} (hplain : TypeName.IsPlain name.toList) (hne : args ≠ [])
    (hargs : ∀ a ∈ args, a.WellFormed)
    (hname : r.typeName t = (TypeName.generic (.simple name none) args).canonical) :
    ∃ g, (r.type t).definition = some g ∧ g.index < t.index ∧ r.typeName g = name ∧
      (r.type t).args.map Binding.name = (r.type g).generics ∧
      List.Forall₂ (fun a (b : Binding) ↦ r.Has b.type ∧ r.typeName b.type = a.canonical) args
        (r.type t).args := by
  have hfits := Orderly.fits_of_name hlegible ht (.generic hplain hne hargs) hname
  obtain ⟨g, hg⟩ := Option.isSome_iff_exists.mp hfits
  have hbuilt := ho.types _ _ (getElem?_of_has ht)
  have hi := Nat.le_of_lt ht
  have hcanonical := hname.symm.trans (hbuilt.instance_ g hg)
  rw [TypeName.canonical, TypeName.canonicals_eq_map, canonical_simple] at hcanonical
  have hnames (p : String) (hp : p ∈ args.map TypeName.canonical) :
      TypeName.Balanced false p.toList ∧ p.toList ≠ [] := by
    obtain ⟨a, ha, rfl⟩ := List.mem_map.mp hp
    exact ⟨(hargs a ha).balanced, (hargs a ha).text_trimmed.1⟩
  have hbefore (q : String) (hq : q ∈ (r.type t).args.map fun b ↦ r.nameBefore t.index b.type) :
      TypeName.Balanced false q.toList := by
    obtain ⟨b, -, rfl⟩ := List.mem_map.mp hq
    exact balanced_nameBefore hlegible hi b.type
  obtain ⟨hhead, hlists⟩ := generic_text_inj (fun p hp ↦ (hnames p hp).1) hbefore hcanonical
  obtain ⟨hearlier, hgname⟩ := of_nameBefore hhead.symm hplain.ne_nil
  have hsame := intercalate_inj (by simpa using hne)
    (fun cs hcs ↦ by
      obtain ⟨p, hp, rfl⟩ := List.mem_map.mp hcs
      exact hnames p hp)
    (fun cs hcs ↦ by
      obtain ⟨q, hq, rfl⟩ := List.mem_map.mp hcs
      exact hbefore q hq) hlists
  have heach : List.Forall₂ (fun (a : TypeName) (b : Binding) ↦
      a.canonical = r.nameBefore t.index b.type) args (r.type t).args := by
    rw [← List.forall₂_map_right_iff (f := fun b : Binding ↦ r.nameBefore t.index b.type),
      ← List.forall₂_map_left_iff, List.forall₂_eq_eq_eq]
    exact List.map_injective_iff.mpr (fun _ _ ↦ String.toList_inj.mp) hsame
  refine ⟨g, hg, hearlier, hgname, hbuilt.bindings g hg hearlier, ?_⟩
  refine ((List.forall₂_and_left _ _).mpr ⟨fun a ha ↦ ha, heach⟩).imp fun a b h ↦ ?_
  obtain ⟨hb, hbname⟩ := of_nameBefore h.2.symm (hargs a h.1).text_trimmed.1
  exact ⟨Nat.lt_trans hb ht, hbname⟩

/-- So does an array or a reference. -/
theorem Orderly.array_of_name (ho : r.Orderly) (hlegible : r.Legible) (ht : r.Has t) {rank : UInt8}
    (hwell : n.WellFormed) (hrank : rank ≠ 0)
    (hname : r.typeName t = (TypeName.array n rank).canonical) :
    ∃ e, r.Has e ∧ r.typeName e = n.canonical := by
  obtain ⟨hnone, hisArray⟩ := Orderly.fits_of_name hlegible ht (.array hwell hrank) hname
  obtain ⟨e, k, hshape⟩ : ∃ e k, (r.type t).shape = .array e k := by
    unfold Descriptor.isArray at hisArray
    split at hisArray
    · next hshape => exact ⟨_, _, hshape⟩
    · cases hisArray
  obtain ⟨hbuilt, hk⟩ := (ho.types _ _ (getElem?_of_has ht)).array hnone e k hshape
  rw [TypeName.canonical] at hname
  obtain ⟨hsame, -⟩ := array_text_inj hk hrank (hbuilt.symm.trans hname)
  obtain ⟨hearlier, hename⟩ := of_nameBefore hsame hwell.text_trimmed.1
  exact ⟨e, Nat.lt_trans hearlier ht, hename⟩

/-- A type with the name of a reference is a reference to a type with the name of its part. -/
theorem Orderly.byRef_of_name (ho : r.Orderly) (hlegible : r.Legible) (ht : r.Has t)
    (hwell : n.WellFormed) (hname : r.typeName t = (TypeName.byRef n).canonical) :
    ∃ e, r.Has e ∧ r.typeName e = n.canonical := by
  obtain ⟨hnone, hisByRef⟩ := Orderly.fits_of_name hlegible ht (.byRef hwell) hname
  obtain ⟨e, hshape⟩ : ∃ e, (r.type t).shape = .byRef e := by
    unfold Descriptor.isByRef at hisByRef
    split at hisByRef
    · next hshape => exact ⟨_, hshape⟩
    · cases hisByRef
  have hbuilt := (ho.types _ _ (getElem?_of_has ht)).byRef hnone e hshape
  rw [TypeName.canonical] at hname
  have hsame : r.nameBefore t.index e = n.canonical := by
    have hlists := congrArg String.toList (hbuilt.symm.trans hname)
    rw [String.toList_append, String.toList_append] at hlists
    exact String.toList_inj.mp (List.append_cancel_right hlists)
  obtain ⟨hearlier, hename⟩ := of_nameBefore hsame hwell.text_trimmed.1
  exact ⟨e, Nat.lt_trans hearlier ht, hename⟩

/-- Names that can be read have no commas, and instantiations are named after types that are
there. -/
theorem Orderly.regular (ho : r.Orderly) (hlegible : r.Legible) : r.Regular where
  commas i d hd hnative hnone := by
    refine comma_notMem_of_isPlain (isPlain_of_legible (hlegible _ _ hd) hnone ?_)
    unfold Descriptor.isNative Descriptor.native? at hnative
    unfold Descriptor.element?
    cases hshape : d.shape <;> simp_all
  earlier i d g hd hg := by
    have ht : r.Has ⟨i⟩ := (Array.getElem?_eq_some_iff.mp hd).1
    have htype : r.type ⟨i⟩ = d := type_eq_of_getElem? (t := ⟨i⟩) hd
    obtain ⟨n, hwell, hname, -, hfits⟩ := exists_name hlegible ht
    rw [htype] at hfits
    cases hwell with
    | simple _ => exact absurd hfits.1 (by simp [hg])
    | array _ _ => exact absurd hfits.1 (by simp [hg])
    | byRef _ => exact absurd hfits.1 (by simp [hg])
    | generic hplain hne hargs =>
      obtain ⟨g', hg', hearlier, -⟩ := ho.instance_of_name hlegible ht hplain hne hargs hname
      rw [htype, hg] at hg'
      cases hg'
      exact hearlier

/-! ### Resolving the name of a type -/

/-- Every name in the registry reads as what it names, and names one type. -/
structure Lucid (r : Registry) : Prop where
  orderly : r.Orderly
  listed : r.Listed
  legible : r.Legible
  distinct : r.Distinct

/-- Each type is known under its own name. -/
theorem Lucid.names_typeName (h : r.Lucid) (ht : r.Has t) : r.names[r.typeName t]? = some t := by
  obtain ⟨n, hwell, hname, hslash, -⟩ := exists_name h.legible ht
  obtain ⟨u, hu⟩ := h.listed.known _ _ (getElem?_of_has ht)
  change r.names[r.typeName t]? = some u at hu
  have hcanonical : Canonical (r.typeName t) := hname ▸ canonical_of_wellFormed hwell hslash
  have hsame := h.orderly.spelled h.legible _ u hu hcanonical
  rw [hu, h.distinct u t (h.orderly.present _ _ hu) ht hsame]

theorem Lucid.intern_of_typeName (h : r.Lucid) (ht : r.Has t) (hname : d.name = r.typeName t) :
    intern d r = .ok t r :=
  intern_of_known (hname ▸ h.names_typeName ht)

mutual

/-- Along the name: the parts that the name spells out are there, so each step finds its part and
leaves the registry as it is. -/
theorem Lucid.resolveParsed_of_typeName (h : r.Lucid) :
    (n : TypeName) → {t : TypeId} → n.WellFormed →
    '/' ∉ n.canonical.toList → r.Has t → r.typeName t = n.canonical →
    resolveParsed n r = .ok t r
  | .simple name scope, t, hwell, hslash, ht, hname => by
    cases hwell with
    | simple hplain =>
      rw [canonical_simple] at hname
      have hknown : (r.inScope? name none <|> r.names[name]?) = some t := by
        rw [inScope?, Option.bind_none, ← hname]
        exact h.names_typeName ht
      rw [resolveParsed]
      exact resolveIn_of_some (lookup?_of_known hknown)
  | .array element rank, t, hwell, hslash, ht, hname => by
    cases hwell with
    | array helement hrank =>
      obtain ⟨e, he, hename⟩ := h.orderly.array_of_name h.legible ht helement hrank hname
      have hparts := h.resolveParsed_of_typeName element helement
        (fun hmem ↦ hslash (by simp [TypeName.canonical, hmem])) he hename
      rw [resolveParsed, bind_of_ok hparts, makeArray_eq]
      refine h.intern_of_typeName ht ?_
      rw [arrayOf, hename, hname, TypeName.canonical]
  | .byRef inner, t, hwell, hslash, ht, hname => by
    cases hwell with
    | byRef hinner =>
      obtain ⟨e, he, hename⟩ := h.orderly.byRef_of_name h.legible ht hinner hname
      have hparts := h.resolveParsed_of_typeName inner hinner
        (fun hmem ↦ hslash (by simp [TypeName.canonical, hmem])) he hename
      rw [resolveParsed, bind_of_ok hparts, makeByRef_eq]
      refine h.intern_of_typeName ht ?_
      rw [byRefOf, hename, hname, TypeName.canonical]
  | .generic head args, t, hwell, hslash, ht, hname => by
    cases hwell with
    | @generic name _ hplain hne hargs =>
      obtain ⟨hslashHead, hslashArgs⟩ := slash_notMem_generic.mp hslash
      obtain ⟨g, hg, hearlier, hgname, hbindings, hparts⟩ :=
        h.orderly.instance_of_name h.legible ht hplain hne hargs hname
      have hthere : r.Has g := Nat.lt_trans hearlier ht
      have hhead :=
        h.resolveParsed_of_typeName (.simple name none) (.simple hplain) hslashHead hthere
        (hgname.trans (canonical_simple name none).symm)
      have hall := h.resolveAllParsed_of_typeName args hargs hslashArgs
        (List.forall₂_map_right_iff.mpr hparts)
      have hopen : r.openOf g = g := openOf_of_isPlain h.legible hthere (hgname ▸ hplain)
      have harity : (r.type (r.openOf g)).generics.length =
          ((r.type t).args.map Binding.type).length := by
        rw [hopen, ← hbindings, List.length_map, List.length_map]
      rw [resolveParsed, bind_of_ok hhead, bind_of_ok hall, makeInstance_of_arity harity, hopen]
      refine h.intern_of_typeName ht ?_
      have hnames : (r.type t).args.map (fun b ↦ r.typeName b.type) = args.map TypeName.canonical :=
        (List.forall₂_eq_eq_eq ▸ List.forall₂_map_left_iff.mpr
          (List.forall₂_map_right_iff.mpr (hparts.imp fun _ _ ha ↦ ha.2.symm)) :
          args.map TypeName.canonical = _).symm
      rw [instanceOf, List.map_map]
      change _ ++ "<" ++
        String.intercalate "," ((r.type t).args.map fun b ↦ r.typeName b.type) ++ ">"
        = _
      rw [hnames, hname, hgname, TypeName.canonical, TypeName.canonicals_eq_map, canonical_simple]

/-- Types that are there are found by the names that they have. -/
theorem Lucid.resolveAllParsed_of_typeName (h : r.Lucid) :
    (ns : List TypeName) → {ts : List TypeId} →
    (∀ n ∈ ns, n.WellFormed) → (∀ n ∈ ns, '/' ∉ n.canonical.toList) →
    List.Forall₂ (fun n t ↦ r.Has t ∧ r.typeName t = n.canonical) ns ts →
    resolveAllParsed ns r = .ok ts r
  | [], ts, _, _, hts => by
    cases hts
    rw [resolveAllParsed]
    rfl
  | n :: ns, ts, hwell, hslash, hts => by
    cases hts with
    | @cons _ t _ ts ht hrest =>
      have hhead := h.resolveParsed_of_typeName n (hwell n List.mem_cons_self)
        (hslash n List.mem_cons_self) ht.1 ht.2
      have htail := h.resolveAllParsed_of_typeName ns
        (fun m hm ↦ hwell m (List.mem_cons_of_mem n hm))
        (fun m hm ↦ hslash m (List.mem_cons_of_mem n hm)) hrest
      rw [resolveAllParsed, bind_of_ok hhead, bind_of_ok htail]
      rfl

end

/-- A type that a name reads as is what the name is resolved to, and nothing is added. -/
theorem Lucid.resolve_of_typeName (h : r.Lucid) (ht : r.Has t)
    (hparse : TypeName.parse? name = some n)
    (hwell : n.WellFormed) (hslash : '/' ∉ n.canonical.toList)
    (hname : r.typeName t = n.canonical) :
    ∃ r', resolve name r = .ok t r' ∧ r'.types = r.types := by
  cases hknown : r.names[name]? with
  | some u =>
    obtain ⟨m, hm, hmname⟩ := h.listed.read h.legible _ _ hknown
    cases hparse.symm.trans hm
    rw [TypeName.nested_of_no_slash hslash] at hmname
    obtain rfl := h.distinct u t (h.orderly.present _ _ hknown) ht (hmname.trans hname.symm)
    exact ⟨r, resolve_of_known hknown, rfl⟩
  | none =>
    have hparsed := h.resolveParsed_of_typeName n hwell hslash ht hname
    exact ⟨_, (resolve_of_parse hknown hparse).trans (bind_of_ok hparsed), rfl⟩

/-- What a name was resolved to reads as the name. -/
theorem typeName_of_resolve (ho : r.Orderly) (h : r.Listed) (hx : resolve name r = .ok t r')
    (hlegible : r'.Legible) : r'.Has t ∧
      ∃ n : TypeName, TypeName.parse? name = some n ∧ r'.typeName t = nested n.canonical := by
  cases hknown : r.names[name]? with
  | some u =>
    rw [resolve_of_known hknown] at hx
    cases hx
    exact ⟨ho.present _ _ hknown, h.read hlegible _ _ hknown⟩
  | none =>
    cases hparse : TypeName.parse? name with
    | none =>
      rw [resolve_of_unreadable hknown hparse] at hx
      cases hx
    | some n =>
      rw [resolve_of_parse hknown hparse] at hx
      obtain ⟨u, r₁, hn, hrest⟩ := exists_of_bind hx
      cases hrest
      have hfound := reads_of_resolveParsed n (TypeName.readable_of_parse? hparse) ho h hn
      exact ⟨hfound.has, n, rfl, hfound.name hlegible⟩

/-- A name keeps what it was resolved to, whatever is loaded and resolved later, if no host type has
a comma in its name. So does every other spelling of a name without scope and slashes, if the names
in the registry can be read and each is that of one type. Nothing is added in either case. -/
theorem resolve_settles (h : r.Reached) (hx : resolve name r = .ok t r') {s : Registry}
    (hs : r'.Since s) :
    (r'.Regular → resolve name s = .ok t s) ∧
    (s.Legible → s.Distinct → ∀ n other, TypeName.parse? name = some n →
      TypeName.parse? other = some n → n.WellFormed → '/' ∉ n.canonical.toList →
      ∃ s', resolve other s = .ok t s' ∧ s'.types = s.types) := by
  have hlists := hs.lists
  have hextends := hlists.upholds.1
  have hstep : r.Lists r' := Keeps.ok (R := Lists) (grows_resolve name) hx
  have ho := hstep.upholds.2 h.orderly
  refine ⟨fun hregular ↦ ?_, fun hlegible hdistinct n other hparse hother hwell hslash ↦ ?_⟩
  · have hknown := names_of_resolve h.orderly h.listed hx hregular
    exact resolve_of_known (hextends.names _ _ hknown)
  · obtain ⟨hhas, m, hm, hname⟩ := typeName_of_resolve h.orderly h.listed hx
      (hlegible.of_extends hextends)
    cases hparse.symm.trans hm
    rw [TypeName.nested_of_no_slash hslash] at hname
    have hlucid : s.Lucid :=
      ⟨hlists.upholds.2 ho, hlists.listed ho (hstep.listed h.orderly h.listed),
      hlegible, hdistinct⟩
    exact hlucid.resolve_of_typeName (hextends.has hhas) hother hwell hslash
      ((hextends.typeName_eq hhas).trans hname)

/-! ### Cells and tables of cells -/

theorem names_withCell : withCell.names["N.Cell"]? = some ⟨0⟩ ∧
    ∀ s, "N.Cell" ≠ s → withCell.names[s]? = none := by
  obtain ⟨r, hok, backed, hr⟩ := ofHostType_of_new (scoped_empty (cell "A"))
  have hname : (cell "A").fullName = "N.Cell" := rfl
  rw [withCell, endState_ok hok, hr, hname]
  exact ⟨getElem?_insertIfNew_of_none Std.HashMap.getElem?_empty,
    fun s hs ↦ (getElem?_insertIfNew_of_ne hs).trans Std.HashMap.getElem?_empty⟩

/-- The registry after the type of cells was named with a blank before the name. -/
def withSpelling : Registry :=
  { withCell with names := withCell.names.insertIfNew " N.Cell" ⟨0⟩ }

theorem resolve_withCell : resolve " N.Cell" withCell = .ok ⟨0⟩ withSpelling := by
  have hparse : TypeName.parse? " N.Cell" = some (.simple "N.Cell" none) := by cbv
  have hfound : resolveParsed (.simple "N.Cell" none) withCell = .ok ⟨0⟩ withCell := by
    rw [resolveParsed]
    exact resolveIn_of_some (lookup?_of_known names_withCell.1)
  exact (resolve_of_parse (names_withCell.2 _ (by decide)) hparse).trans (bind_of_ok hfound)

/-- The type of tables of cells. -/
def cellTable : Descriptor := ⟨"N.Cell[]", .array ⟨0⟩ 1, [], none⟩

/-- The registry after a table of cells was made as well. -/
def withTable : Registry :=
  { withSpelling with
    types := withSpelling.types.push cellTable
    names := withSpelling.names.insertIfNew "N.Cell[]" ⟨1⟩ }

theorem types_withTable :
    withTable.types = #[⟨"N.Cell", .native (cell "A"), [], none⟩, cellTable] := by
  show withCell.types.push _ = _
  rw [types_withCell]
  rfl

/-- The steps between the two registries of the sample. -/
theorem since_withTable : withSpelling.Since withTable := by
  have hcell : withSpelling.typeName ⟨0⟩ = "N.Cell" := by
    refine typeName_of_getElem? (d := ⟨"N.Cell", .native (cell "A"), [], none⟩) ?_
    show withCell.types[0]? = _
    rw [types_withCell]
    rfl
  have htable : withSpelling.arrayOf ⟨0⟩ 1 = cellTable := by
    rw [arrayOf, hcell]
    rfl
  have hnew : withSpelling.names[cellTable.name]? = none :=
    (getElem?_insertIfNew_of_ne (by decide)).trans (names_withCell.2 _ (by decide))
  have hsize : withSpelling.types.size = 1 := by
    show withCell.types.size = 1
    rw [types_withCell]
    rfl
  have hmade : makeArray ⟨0⟩ 1 withSpelling = .ok ⟨1⟩ withTable := by
    rw [makeArray_eq, htable, intern_of_new hnew, hsize]
    rfl
  rw [← endState_ok hmade]
  exact Since.refl.step (.makeArray ⟨0⟩ 1)

theorem legible_withTable : withTable.Legible := by
  have hplain : TypeName.IsPlain "N.Cell".toList := by decide +kernel
  intro i d hd
  rw [types_withTable] at hd
  obtain rfl | rfl : d = ⟨"N.Cell", .native (cell "A"), [], none⟩ ∨ d = cellTable := by
    simpa using Array.mem_of_getElem? hd
  · exact ⟨.simple "N.Cell" none, .simple hplain, (canonical_simple _ _).symm, by decide, rfl, rfl⟩
  · exact ⟨.array (.simple "N.Cell" none) 1, .array (.simple hplain) (by decide), rfl,
      by decide, rfl, rfl⟩

/-- No two types of the sample share a name. -/
theorem distinct_withTable : withTable.Distinct := by
  have hcell : withTable.typeName ⟨0⟩ = "N.Cell" := by
    rw [typeName, Registry.type, types_withTable]; rfl
  have htable : withTable.typeName ⟨1⟩ = "N.Cell[]" := by
    rw [typeName, Registry.type, types_withTable]
    rfl
  have hcases (t : TypeId) (ht : withTable.Has t) : t = ⟨0⟩ ∨ t = ⟨1⟩ := by
    rw [Has, types_withTable] at ht
    obtain ⟨i⟩ := t
    have hi : i < 2 := ht
    interval_cases i
    · exact .inl rfl
    · exact .inr rfl
  intro t u ht hu heq
  obtain rfl | rfl := hcases t ht <;> obtain rfl | rfl := hcases u hu
  · rfl
  · rw [hcell, htable] at heq
    exact absurd heq (by decide)
  · rw [hcell, htable] at heq
    exact absurd heq (by decide)
  · rfl

/-- The type of cells, by a name with a blank before it and, after tables of cells have come into
being, by the same name and by one with a blank after it. -/
theorem resolve_settles_withCell : withCell.Reached ∧
    resolve " N.Cell" withCell = .ok ⟨0⟩ withSpelling ∧ withSpelling.Since withTable ∧
    resolve " N.Cell" withTable = .ok ⟨0⟩ withTable ∧
    ∃ r, resolve "N.Cell " withTable = .ok ⟨0⟩ r ∧ r.types = withTable.types := by
  have hreached : withCell.Reached := Reached.empty.step (.ofHostType (cell "A"))
  have hbefore : TypeName.parse? " N.Cell" = some (.simple "N.Cell" none) := by cbv
  have hafter : TypeName.parse? "N.Cell " = some (.simple "N.Cell" none) := by cbv
  have hregular := hreached.orderly.regular legible_withCell
  obtain ⟨hagain, hother⟩ := resolve_settles hreached resolve_withCell since_withTable
  exact ⟨hreached, resolve_withCell, since_withTable, hagain ⟨hregular.commas, hregular.earlier⟩,
    hother legible_withTable distinct_withTable _ _ hbefore hafter (.simple (by decide +kernel))
      (by decide)⟩

/-! ### Names with commas -/

/-- A host class of some name and module. -/
def hostClass (name moduleName : String) (generics : List String) : HostType :=
  { HostType.plain .class_ "" name with moduleName, generics }

def longClass : HostType := hostClass "A, G>&, <" "m" []

def shortClass : HostType := hostClass "A" "G>&, <, m" []

def openClass : HostType := hostClass "G" "N" ["P", "Q"]

/-- Two host classes are in use, and a third one, which is not, goes by the same name as the first
with its module behind it. -/
structure Collision (r : Registry) : Prop where
  types : r.types = #[longClass.descriptor, openClass.descriptor]
  found : HostLibrary.find? r.host.toList "A" none = some shortClass
  taken : r.scoped_[shortClass.scopedName]? = some ⟨0⟩
  unscoped : r.inScope? "G" (some "<,G>") = none
  known : r.names["G"]? = some ⟨1⟩
  unknown : ∀ s, longClass.fullName ≠ s → "G" ≠ s → r.names[s]? = none

/-- A history that leads to the sample: two types of the host come into use, and no name is
resolved. -/
theorem exists_collision : ∃ r, Reached r ∧ r.Collision := by
  let r₀ : Registry := endState (addHostModule ⟨"G>&, <, m", [shortClass]⟩) empty
  have hunused : r₀.scoped_[longClass.scopedName]? = none := Std.HashMap.getElem?_empty
  obtain ⟨r₁, hok₁, backed₁, hr₁⟩ := ofHostType_of_new hunused
  have hnew : r₁.scoped_[openClass.scopedName]? = none := by
    rw [hr₁]
    exact (getElem?_insert_of_ne (by decide)).trans Std.HashMap.getElem?_empty
  obtain ⟨r₂, hok₂, backed₂, hr₂⟩ := ofHostType_of_new hnew
  have hreached : r₂.Reached := by
    rw [← endState_ok hok₂, ← endState_ok hok₁]
    exact ((Reached.empty.step (.addHostModule _)).step (.ofHostType _)).step (.ofHostType _)
  have hopen : openClass.fullName = "G" := by decide
  rw [hr₁] at hr₂
  refine ⟨r₂, hreached, ?_⟩
  rw [hr₂]
  exact
    { types := rfl
      found := by
        show HostLibrary.find? (empty.host.push ⟨"G>&, <, m", [shortClass]⟩).toList "A" none = _
        cbv
      taken := by
        have hsame : shortClass.scopedName = longClass.scopedName := by decide
        rw [hsame]
        exact (getElem?_insert_of_ne (by decide)).trans Std.HashMap.getElem?_insert_self
      unscoped := (getElem?_insert_of_ne (by decide)).trans
        ((getElem?_insert_of_ne (by decide)).trans Std.HashMap.getElem?_empty)
      known := by
        rw [hopen]
        exact getElem?_insertIfNew_of_none
          ((getElem?_insertIfNew_of_ne (by decide)).trans Std.HashMap.getElem?_empty)
      unknown := fun s hlong hshort ↦ (getElem?_insertIfNew_of_ne (hopen ▸ hshort)).trans
        ((getElem?_insertIfNew_of_ne hlong).trans Std.HashMap.getElem?_empty) }

/-- The registry with the instantiation that `A` and `G` lead to. -/
def withInstance (r : Registry) : Registry :=
  { r with
    types := r.types.push (r.instanceOf ⟨1⟩ [⟨0⟩, ⟨1⟩])
    names := r.names.insertIfNew "G<A, G>&, <,G>" ⟨2⟩ }

namespace Collision

theorem resolveParsed_open (h : r.Collision) (scope : Option String)
    (hscope : r.inScope? "G" scope = none) : resolveParsed (.simple "G" scope) r = .ok ⟨1⟩ r := by
  rw [resolveParsed]
  exact resolveIn_of_some (lookup?_of_known (by rw [hscope]; exact h.known))

/-- The class that is not in use is taken for the one that is. -/
theorem resolveParsed_short (h : r.Collision) :
    resolveParsed (.simple "A" none) r = .ok ⟨0⟩ r := by
  have hnone : (r.inScope? "A" none <|> r.names["A"]?) = none :=
    h.unknown "A" (by decide) (by decide)
  rw [resolveParsed]
  exact resolveIn_of_some (lookup?_of_host hnone h.found (ofHostType_of_known h.taken))

theorem name_instanceOf (h : r.Collision) :
    (r.instanceOf ⟨1⟩ [⟨0⟩, ⟨1⟩]).name = "G<A, G>&, <,G>" := by
  have hlong : r.typeName ⟨0⟩ = "A, G>&, <" := by rw [typeName, Registry.type, h.types]; decide
  have hopen : r.typeName ⟨1⟩ = "G" := by rw [typeName, Registry.type, h.types]; decide
  rw [instanceOf, List.map_cons, List.map_cons, List.map_nil, hlong, hopen]
  rfl

theorem makeInstance_eq (h : r.Collision) :
    makeInstance ⟨1⟩ [⟨0⟩, ⟨1⟩] r = .ok ⟨2⟩ r.withInstance := by
  have htype : r.type ⟨1⟩ = openClass.descriptor := by rw [Registry.type, h.types]; rfl
  have hself : r.openOf ⟨1⟩ = ⟨1⟩ := by rw [openOf, htype]; rfl
  have hnew : r.names[(r.instanceOf ⟨1⟩ [⟨0⟩, ⟨1⟩]).name]? = none := by
    rw [h.name_instanceOf]
    exact h.unknown _ (by decide) (by decide)
  have hsize : r.types.size = 2 := by rw [h.types]; rfl
  rw [makeInstance_of_arity (by rw [hself, htype]; rfl), hself, intern_of_new hnew, hsize,
    h.name_instanceOf]
  rfl

/-- The text of the sample is read as an instantiation, which is made. -/
theorem resolveParsed_generic (h : r.Collision) :
    resolveParsed (.generic (.simple "G" (some "<,G>")) [.simple "A" none, .simple "G" none]) r =
      .ok ⟨2⟩ r.withInstance := by
  have hlast : resolveAllParsed [.simple "G" none] r = .ok [⟨1⟩] r := by
    rw [resolveAllParsed, bind_of_ok (h.resolveParsed_open none rfl), resolveAllParsed]
    rfl
  have hargs : resolveAllParsed [.simple "A" none, .simple "G" none] r = .ok [⟨0⟩, ⟨1⟩] r := by
    rw [resolveAllParsed, bind_of_ok h.resolveParsed_short, bind_of_ok hlast]
    rfl
  rw [resolveParsed, bind_of_ok (h.resolveParsed_open _ h.unscoped), bind_of_ok hargs,
    h.makeInstance_eq]

end Collision

/-- A text may come to mean something else if a host type has a comma in its name. Here `A` finds
the class `A, G>&, <` of the module `m`, as the class `A` of the module `G>&, <, m` goes by the same
name with its module behind it. On the way to the reference type that the text stands for, `G` is
instantiated with that class and with itself, and the name of this instantiation is the whole
text. -/
theorem resolve_unsettled : ¬∀ (r : Registry) (name : String) (t : TypeId) (r' : Registry),
    r.Reached → resolve name r = .ok t r' → resolve name r' = .ok t r' := by
  intro h
  obtain ⟨r, hreached, hr⟩ := exists_collision
  have hnone : r.names["G<A, G>&, <,G>"]? = none := hr.unknown _ (by decide) (by decide)
  have hparse : TypeName.parse? "G<A, G>&, <,G>" = some (.byRef
      (.generic (.simple "G" (some "<,G>")) [.simple "A" none, .simple "G" none])) := by cbv
  have htype : r.withInstance.typeName ⟨2⟩ = "G<A, G>&, <,G>" := by
    have hlast : r.withInstance.types[2]? = some (r.instanceOf ⟨1⟩ [⟨0⟩, ⟨1⟩]) := by
      show (r.types.push _)[2]? = _
      rw [hr.types]
      rfl
    exact (typeName_of_getElem? hlast).trans hr.name_instanceOf
  have hnew : r.withInstance.names[(r.withInstance.byRefOf ⟨2⟩).name]? = none := by
    rw [byRefOf, htype]
    exact (getElem?_insertIfNew_of_ne (by decide)).trans (hr.unknown _ (by decide) (by decide))
  have hsize : r.withInstance.types.size = 3 := by
    show (r.types.push _).size = 3
    rw [hr.types]
    rfl
  have hknown : r.withInstance.names["G<A, G>&, <,G>"]? = some ⟨2⟩ :=
    getElem?_insertIfNew_of_none hnone
  -- the text is taken when it is told of the reference type
  obtain ⟨r', hmade, htaken⟩ : ∃ r', makeByRef ⟨2⟩ r.withInstance = .ok ⟨3⟩ r' ∧
      r'.names["G<A, G>&, <,G>"]? = some ⟨2⟩ := by
    rw [makeByRef_eq, intern_of_new hnew, hsize]
    exact ⟨_, rfl, getElem?_insertIfNew_of_some hknown⟩
  have hparsed : resolveParsed (.byRef
      (.generic (.simple "G" (some "<,G>")) [.simple "A" none, .simple "G" none])) r =
      .ok ⟨3⟩ r' := by
    rw [resolveParsed, bind_of_ok hr.resolveParsed_generic, hmade]
  have hx := (resolve_of_parse hnone hparse).trans (bind_of_ok hparsed)
  have hagain := (resolve_of_known (getElem?_insertIfNew_of_some htaken)).symm.trans
    (h r _ _ _ hreached hx)
  injection hagain with heq
  cases heq

/-- A registry with two host types of one full name, which means the first. -/
theorem exists_namesakes {a b : HostType} (hname : b.fullName = a.fullName)
    (hscoped : a.scopedName ≠ b.scopedName) : ∃ r, Reached r ∧
      r.types = #[a.descriptor, b.descriptor] ∧ r.names[a.fullName]? = some ⟨0⟩ ∧
      ∀ s, s ≠ a.fullName → r.names[s]? = none := by
  obtain ⟨r₁, hok₁, backed₁, hr₁⟩ := ofHostType_of_new (scoped_empty a)
  have hnew : r₁.scoped_[b.scopedName]? = none := by
    rw [hr₁, Std.HashMap.getElem?_insert, if_neg (by simpa using hscoped)]
    exact Std.HashMap.getElem?_empty
  obtain ⟨r₂, hok₂, backed₂, hr₂⟩ := ofHostType_of_new hnew
  have hreached := (Reached.empty.step (.ofHostType a)).step (.ofHostType b)
  rw [endState_ok hok₁, endState_ok hok₂] at hreached
  refine ⟨r₂, hreached, by rw [hr₂, hr₁]; rfl, ?_, fun s hs ↦ ?_⟩
  · rw [hr₂, hr₁]
    exact getElem?_insertIfNew_of_some (getElem?_insertIfNew_of_none Std.HashMap.getElem?_empty)
  · rw [Option.eq_none_iff_forall_not_mem]
    intro u hu
    rw [hr₂] at hu
    rcases names_insertIfNew_cases hu with hold | ⟨rfl, -⟩
    · rw [hr₁] at hold
      rcases names_insertIfNew_cases hold with hold | ⟨rfl, -⟩
      · exact nomatch Std.HashMap.getElem?_empty.symm.trans hold
      · exact hs rfl
    · exact hs hname

/-- A type of pairs with the parameters given, of some host module. -/
def pair (moduleName : String) (generics : List String) : HostType :=
  { HostType.plain .class_ "N" "Pair" with moduleName, generics }

/-- Host types of one full name and different modules share it, and an instantiation of the second
is only found under the spelling of its own name. -/
theorem pairs_of_two_modules : ∃ r, Reached r ∧ ∃ name other n t,
    TypeName.parse? name = some n ∧ TypeName.parse? other = some n ∧ n.WellFormed ∧
      '/' ∉ n.canonical.toList ∧ resolve name r = .ok t r ∧ ∃ e, resolve other r = .error e r := by
  obtain ⟨r₂, hreached, htypes, hpair, hnames⟩ :=
    exists_namesakes (a := pair "A" ["T"]) (b := pair "B" ["K", "V"]) rfl (by decide)
  have hnative (i : Nat) (type : HostType) (hi : r₂.types[i]? = some type.descriptor) :
      r₂.openOf ⟨i⟩ = ⟨i⟩ ∧ (r₂.type ⟨i⟩).generics = type.generics ∧
        r₂.typeName ⟨i⟩ = type.fullName := by
    have htype : r₂.type ⟨i⟩ = type.descriptor := type_eq_of_getElem? (t := ⟨i⟩) hi
    rw [openOf, typeName, htype]
    exact ⟨rfl, rfl, rfl⟩
  obtain ⟨hopenA, hgenericsA, hnameA⟩ := hnative 0 (pair "A" ["T"]) (by rw [htypes]; rfl)
  obtain ⟨hopenB, hgenericsB, hnameB⟩ := hnative 1 (pair "B" ["K", "V"]) (by rw [htypes]; rfl)
  -- an instantiation of the second
  obtain ⟨t, r₃, hok, -⟩ := intern_ok (r₂.instanceOf ⟨1⟩ [⟨0⟩, ⟨0⟩]) r₂
  have hmade : makeInstance ⟨1⟩ [⟨0⟩, ⟨0⟩] r₂ = .ok t r₃ := by
    rw [makeInstance_of_arity (by rw [hopenB, hgenericsB]; rfl), hopenB, hok]
  have hname : (r₂.instanceOf ⟨1⟩ [⟨0⟩, ⟨0⟩]).name = "N.Pair<N.Pair,N.Pair>" := by
    rw [instanceOf, List.map_cons, List.map_cons, List.map_nil, hnameA, hnameB]
    rfl
  have hextends : r₂.Extends r₃ := Keeps.ok (Building.makeInstance ⟨1⟩ [⟨0⟩, ⟨0⟩]) hmade
  have hreached₃ := hreached.step (.makeInstance ⟨1⟩ [⟨0⟩, ⟨0⟩])
  rw [endState_ok (x := makeInstance ⟨1⟩ [⟨0⟩, ⟨0⟩]) hmade] at hreached₃
  have hnone : r₃.names["N.Pair<N.Pair, N.Pair>"]? = none := by
    rw [Option.eq_none_iff_forall_not_mem]
    intro u hu
    rcases names_of_intern_cases hok hu with hold | ⟨hsame, -⟩
    · rw [hnames _ (by decide)] at hold
      cases hold
    · exact absurd (hsame.trans hname) (by decide)
  -- the head of the other spelling means the first
  have hhead : resolveParsed (.simple "N.Pair" none) r₃ = .ok ⟨0⟩ r₃ := by
    rw [resolveParsed]
    exact resolveIn_of_some (lookup?_of_known (by
      rw [inScope?, Option.bind_none]
      exact hextends.names _ _ hpair))
  have hthere : r₂.Has ⟨0⟩ := by simp [Has, htypes]
  have htype : r₃.type ⟨0⟩ = r₂.type ⟨0⟩ := hextends.type_eq hthere
  have hopen : r₃.openOf ⟨0⟩ = ⟨0⟩ := by
    rw [openOf, htype]
    exact hopenA
  have harity : (r₃.type (r₃.openOf ⟨0⟩)).generics.length ≠ [(⟨0⟩ : TypeId), ⟨0⟩].length := by
    rw [hopen, htype, hgenericsA]
    decide
  obtain ⟨e, he⟩ := makeInstance_of_mismatch harity
  let n : TypeName :=
    .generic (.simple "N.Pair" none) [.simple "N.Pair" none, .simple "N.Pair" none]
  have hparse : TypeName.parse? "N.Pair<N.Pair,N.Pair>" = some n := by cbv
  have hother : TypeName.parse? "N.Pair<N.Pair, N.Pair>" = some n := by cbv
  have hplain : TypeName.IsPlain "N.Pair".toList := by decide +kernel
  have hlast : resolveAllParsed [.simple "N.Pair" none] r₃ = .ok [⟨0⟩] r₃ := by
    rw [resolveAllParsed, bind_of_ok hhead, resolveAllParsed]
    rfl
  have hargs : resolveAllParsed [.simple "N.Pair" none, .simple "N.Pair" none] r₃ =
      .ok [⟨0⟩, ⟨0⟩] r₃ := by
    rw [resolveAllParsed, bind_of_ok hhead, bind_of_ok hlast]
    rfl
  refine ⟨r₃, hreached₃, "N.Pair<N.Pair,N.Pair>", "N.Pair<N.Pair, N.Pair>", n, t, hparse, hother,
    .generic hplain (by simp) fun m hm ↦ ?_, by decide,
    resolve_of_known (hname ▸ names_of_intern hok), e, ?_⟩
  · obtain rfl | rfl := by simpa using hm
    · exact .simple hplain
  · rw [resolve_of_parse hnone hother]
    refine bind_of_error ?_
    rw [resolveParsed, bind_of_ok hhead, bind_of_ok hargs, he]

end Registry

end ManagedMachine
