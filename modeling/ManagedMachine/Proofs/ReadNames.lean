import ManagedMachine.Proofs.TypeNames

/-!
# Names as they are read

What is read from a text is no longer than the text, and it is well formed apart from a scope at its
base name. With every slash read as the plus of a nested type it is the name of a type: `nested`
does this to a text, and the result is again the canonical text of a well-formed name.

Reading undoes writing, up to blanks and slashes, so the lemmas come in pairs: what the text of a
name is like (`Readable`), and what a text that was read must have been like. Slashes are dealt with
by `unslash`, which is a map on characters that no step of the reader tells from the identity,
except at the base names.
-/

set_option autoImplicit false
set_option relaxedAutoImplicit false

namespace ManagedMachine.TypeName

open Text

/-! ### Lengths -/

theorem length_squeeze_le (cs : List Char) : (squeeze cs).length ≤ cs.length :=
  List.length_filter_le _ _

theorem length_intercalate_le {parts parts' : List (List Char)}
    (h : List.Forall₂ (fun p q ↦ p.length ≤ q.length) parts parts') :
    (List.intercalate [','] parts).length ≤ (List.intercalate [','] parts').length := by
  induction h with
  | nil => exact Nat.le_refl _
  | @cons p q ps qs hpq hrest ih =>
    cases hrest with
    | nil => simpa [List.intercalate_singleton] using hpq
    | cons _ _ =>
      rw [List.intercalate_cons_cons, List.intercalate_cons_cons]
      simp only [List.length_append]
      omega

/-- A part of a list is no longer than the list with its commas. -/
theorem length_le_intercalate {parts : List (List Char)} {p : List Char} (h : p ∈ parts) :
    p.length ≤ (List.intercalate [','] parts).length := by
  induction parts with
  | nil => cases h
  | cons q ps ih =>
    cases ps with
    | nil => rw [List.mem_singleton.mp h, List.intercalate_singleton]
    | cons q' ps =>
      rw [List.intercalate_cons_cons]
      simp only [List.length_append]
      rcases List.mem_cons.mp h with rfl | h
      · omega
      · exact (ih h).trans (by omega)

/-- The parts of an instantiation are shorter than it. -/
theorem length_lt_generic (head : TypeName) (args : List TypeName) :
    (text head).length < (text (.generic head args)).length ∧
      ∀ t ∈ args, (text t).length < (text (.generic head args)).length := by
  rw [text_generic]
  simp only [List.length_append, List.length_cons, List.length_nil]
  refine ⟨by omega, fun t ht ↦ ?_⟩
  have hle : (text t).length ≤ _ := length_le_intercalate (List.mem_map_of_mem ht)
  omega

/-- By induction along the reader: the marks that it cuts off are those that are written. -/
theorem length_text_le {cs : List Char} {t : TypeName} (h : parseBody? cs = some t) :
    (text t).length ≤ cs.length := by
  induction cs using parseBody?.induct generalizing t with
  | case1 cs rest hr ih =>
    obtain rfl : rest.reverse ++ ['&'] = cs := by
      rw [← List.reverse_cons, ← hr, List.reverse_reverse]
    rw [parseBody?_concat_and] at h
    obtain ⟨u, hu, rfl⟩ := Option.map_eq_some_iff.mp h
    have hlength := (ih hu).trans (length_trimEnd_le _)
    simpa [text_byRef] using hlength
  | case2 cs rest hr hs =>
    obtain rfl : rest.reverse ++ [']'] = cs := by
      rw [← List.reverse_cons, ← hr, List.reverse_reverse]
    rw [parseBody?_concat_square, List.reverse_reverse, hs] at h
    cases h
  | case3 cs rest hr before dimensions hs ih =>
    obtain rfl : rest.reverse ++ [']'] = cs := by
      rw [← List.reverse_cons, ← hr, List.reverse_reverse]
    rw [parseBody?_concat_square, List.reverse_reverse, hs, Option.bind_some] at h
    obtain ⟨rank, hrank, h⟩ := Option.bind_eq_some_iff.mp h
    obtain ⟨u, hu, rfl⟩ := Option.map_eq_some_iff.mp h
    have hlength := (ih hu).trans (length_trimEnd_le _)
    have hcommas := congrArg List.length (squeeze_dimensions hrank)
    have hdimensions := length_squeeze_le dimensions
    rw [text_array, splitBracket_some hs]
    simp only [List.length_append, List.length_cons, List.length_replicate] at hcommas ⊢
    omega
  | case4 cs rest hr hs =>
    obtain rfl : rest.reverse ++ ['>'] = cs := by
      rw [← List.reverse_cons, ← hr, List.reverse_reverse]
    rw [parseBody?_concat_angle, List.reverse_reverse, hs] at h
    cases h
  | case5 cs rest hr before within hs ihhead ihargs =>
    obtain rfl : rest.reverse ++ ['>'] = cs := by
      rw [← List.reverse_cons, ← hr, List.reverse_reverse]
    rw [parseBody?_concat_angle, List.reverse_reverse, hs, Option.bind_some] at h
    obtain ⟨head, hhead, h⟩ := Option.bind_eq_some_iff.mp h
    have hlength := (ihhead hhead).trans (length_trimEnd_le _)
    split at h
    · obtain ⟨args, hargs, rfl⟩ := Option.map_eq_some_iff.mp h
      have hpieces : List.Forall₂ (fun t piece ↦ (text t).length ≤ piece.length) args
          (cutCommas 0 within) := by
        have heach := (List.forall₂_and_left _ _).mpr ⟨fun piece hp ↦ hp, forall₂_of_mapM hargs⟩
        refine (heach.imp fun piece t h ↦ ?_).flip
        exact (ihargs ⟨piece, h.1⟩ h.2).trans (length_trim_le piece)
      have hwithin := length_intercalate_le (List.forall₂_map_left_iff.mpr hpieces)
      rw [intercalate_cutCommas] at hwithin
      rw [text_generic, splitBracket_some hs]
      simp only [List.length_append, List.length_cons, List.length_nil]
      omega
    · cases h
  | case6 cs hbad hand hsquare hangle =>
    rw [parseBody?_of_unmarked_end hand hsquare hangle, if_pos hbad] at h
    cases h
  | case7 cs hplain hand hsquare hangle =>
    rw [parseBody?_of_unmarked_end hand hsquare hangle, if_neg hplain] at h
    obtain rfl : TypeName.simple (String.ofList cs) none = t := Option.some.inj h
    rw [text_simple, String.toList_ofList]

theorem text_withScope (scope : String) (t : TypeName) : text (t.withScope scope) = text t :=
  congrArg String.toList (canonical_withScope scope t)

/-- What is read is written without blanks and scope, so it is no longer than the text. -/
theorem length_text_le_of_parse? {s : String} {t : TypeName} (h : parse? s = some t) :
    (text t).length ≤ s.toList.length := by
  have hpieces := congrArg List.length (intercalate_cutCommas 0 (trim s.toList))
  have htrim := length_trim_le s.toList
  rw [parse?] at h
  split at h
  · next body hcut =>
    rw [hcut, List.intercalate_singleton] at hpieces
    have hlength := (length_text_le h).trans (length_trim_le body)
    omega
  · next body scope hcut =>
    rw [hcut, List.intercalate_cons_cons, List.intercalate_singleton] at hpieces
    dsimp only at h
    split at h
    · cases h
    · obtain ⟨u, hu, rfl⟩ := Option.map_eq_some_iff.mp h
      have hlength := (length_text_le hu).trans (length_trim_le body)
      rw [text_withScope]
      simp only [List.length_append] at hpieces
      omega
  · cases h

/-! ### Names with a scope -/

/-- A well-formed name that may have a scope at its base name. -/
inductive Readable : TypeName → Prop
  | simple {name : String} (scope : Option String) (h : IsPlain name.toList) :
      Readable (.simple name scope)
  | generic {name : String} (scope : Option String) {args : List TypeName}
      (h : IsPlain name.toList) (hne : args ≠ []) (hargs : ∀ t ∈ args, t.WellFormed) :
      Readable (.generic (.simple name scope) args)
  | array {t : TypeName} {rank : UInt8} (h : Readable t) (hrank : rank ≠ 0) :
      Readable (.array t rank)
  | byRef {t : TypeName} (h : Readable t) : Readable (.byRef t)

/-- A well-formed name may be read. -/
theorem WellFormed.readable {t : TypeName} (h : t.WellFormed) : Readable t := by
  induction h with
  | simple h => exact .simple none h
  | generic h hne hargs _ => exact .generic none h hne hargs
  | array _ hrank ih => exact .array ih hrank
  | byRef _ ih => exact .byRef ih

theorem WellFormed.readable_withScope {t : TypeName} (h : t.WellFormed) (scope : String) :
    Readable (t.withScope scope) := by
  induction h with
  | simple h => exact .simple _ h
  | generic h hne hargs _ => exact .generic _ h hne hargs
  | array _ hrank ih => exact .array ih hrank
  | byRef _ ih => exact .byRef ih

theorem readable_of_parse? {s : String} {t : TypeName} (h : parse? s = some t) : Readable t := by
  obtain ⟨u, body, rest, hwell, -, -, ⟨rfl, -⟩ | ⟨scope, w, rfl, -⟩⟩ := parse?_some h
  · exact hwell.readable
  · exact hwell.readable_withScope _

/-! ### Nested names -/

/-- A slash is read as the plus of a nested type. -/
def unslash (c : Char) : Char := if c = '/' then '+' else c

/-- The text with all slashes read as the plus of a nested type. -/
def nested (s : String) : String := s.map unslash

@[simp] theorem toList_nested (s : String) : (nested s).toList = s.toList.map unslash := by
  simp [nested]

theorem nested_append (a b : String) : nested (a ++ b) = nested a ++ nested b :=
  String.toList_inj.mp (by simp)

theorem nested_intercalate (ss : List String) :
    nested (String.intercalate "," ss) = String.intercalate "," (ss.map nested) := by
  refine String.toList_inj.mp ?_
  rw [toList_nested, String.toList_intercalate, String.toList_intercalate]
  induction ss with
  | nil => rfl
  | cons s ss ih =>
    cases ss with
    | nil => simp
    | cons s' ss => simpa [List.intercalate_cons_cons, unslash] using ih

/-- Without a slash there is nothing to change. -/
theorem nested_of_no_slash {s : String} (h : '/' ∉ s.toList) : nested s = s := by
  have hkept : ∀ c ∈ s.toList, unslash c = id c := fun c hc ↦ by
    have hne : c ≠ '/' := fun heq ↦ h (heq ▸ hc)
    rw [unslash, if_neg hne, id]
  exact String.toList_inj.mp (by rw [toList_nested, List.map_congr_left hkept, List.map_id])

theorem slash_notMem_nested (s : String) : '/' ∉ (nested s).toList := by
  rw [toList_nested, List.mem_map]
  rintro ⟨c, -, hc⟩
  unfold unslash at hc
  split at hc
  · exact absurd hc (by decide)
  · next hne => exact hne hc

theorem nested_nested (s : String) : nested (nested s) = nested s :=
  nested_of_no_slash (slash_notMem_nested s)

theorem nested_arraySuffix (rank : UInt8) : nested (arraySuffix rank) = arraySuffix rank := by
  refine nested_of_no_slash ?_
  simp [arraySuffix]

theorem isMark_unslash (c : Char) : isMark (unslash c) = isMark c := by
  unfold unslash
  split
  · next h => subst h; decide
  · rfl

theorem isBlank_unslash (c : Char) : isBlank (unslash c) = isBlank c := by
  unfold unslash
  split
  · next h => subst h; decide
  · rfl

theorem trim_map_unslash (cs : List Char) : trim (cs.map unslash) = (trim cs).map unslash := by
  have hblank : isBlank ∘ unslash = isBlank := funext isBlank_unslash
  simp only [trim, trimStart, trimEnd, List.dropWhile_map, ← List.map_reverse, hblank]

/-- A plain name stays plain. -/
theorem IsPlain.nested {s : String} (h : IsPlain s.toList) :
    IsPlain (TypeName.nested s).toList := by
  rw [toList_nested]
  refine ⟨by simpa using h.ne_nil, by rw [trim_map_unslash, h.trim], fun c hc ↦ ?_⟩
  obtain ⟨c', hc', rfl⟩ := List.mem_map.mp hc
  rw [isMark_unslash]
  exact h.unmarked c' hc'

theorem nested_array (t : TypeName) (rank : UInt8) :
    nested (TypeName.array t rank).canonical = nested t.canonical ++ arraySuffix rank := by
  rw [canonical, nested_append, nested_arraySuffix]

theorem nested_byRef (t : TypeName) :
    nested (TypeName.byRef t).canonical = nested t.canonical ++ "&" := by
  have hmark : nested "&" = "&" := nested_of_no_slash (by decide)
  rw [canonical, nested_append, hmark]

theorem nested_generic (head : TypeName) (args : List TypeName) :
    nested (TypeName.generic head args).canonical = nested head.canonical ++ "<" ++
      String.intercalate "," (args.map fun t ↦ nested t.canonical) ++ ">" := by
  have hopen : nested "<" = "<" := nested_of_no_slash (by decide)
  have hclose : nested ">" = ">" := nested_of_no_slash (by decide)
  simp only [canonical, canonicals_eq_map, nested_append, nested_intercalate, List.map_map, hopen,
    hclose]
  rfl

/-- The nested form of a well-formed name is one as well. -/
theorem WellFormed.nested {t : TypeName} (h : t.WellFormed) :
    ∃ u : TypeName, u.WellFormed ∧ u.canonical = TypeName.nested t.canonical := by
  induction h with
  | @simple name h =>
    exact ⟨.simple (TypeName.nested name) none, .simple h.nested, by rw [canonical, canonical]⟩
  | @generic name args h hne hargs ih =>
    choose u hwell hcanonical using ih
    refine ⟨.generic (.simple (TypeName.nested name) none) (args.pmap u fun _ ht ↦ ht),
      .generic h.nested (by simpa using hne) ?_, ?_⟩
    · intro t ht
      obtain ⟨a, ha, rfl⟩ := List.mem_pmap.mp ht
      exact hwell a ha
    · have hpieces : (args.pmap u fun _ ht ↦ ht).map canonical =
          args.map fun a ↦ TypeName.nested a.canonical := by
        rw [List.map_pmap, ← List.pmap_eq_map (p := fun a ↦ a ∈ args) (H := fun _ ha ↦ ha)]
        exact List.pmap_congr_left args fun a ha _ _ ↦ hcanonical a ha
      rw [nested_generic]
      simp only [canonical, canonicals_eq_map, hpieces]
  | @array t rank _ hrank ih =>
    obtain ⟨u, hwell, hcanonical⟩ := ih
    exact ⟨.array u rank, .array hwell hrank, by rw [nested_array, canonical, hcanonical]⟩
  | @byRef t _ ih =>
    obtain ⟨u, hwell, hcanonical⟩ := ih
    exact ⟨.byRef u, .byRef hwell, by rw [nested_byRef, canonical, hcanonical]⟩

/-- So is that of a name with a scope. -/
theorem Readable.nested {t : TypeName} (h : t.Readable) :
    ∃ u : TypeName, u.WellFormed ∧ u.canonical = TypeName.nested t.canonical := by
  induction h with
  | @simple name scope h =>
    exact ⟨.simple (TypeName.nested name) none, .simple h.nested, by rw [canonical, canonical]⟩
  | @generic name scope args h hne hargs =>
    obtain ⟨u, hwell, hcanonical⟩ := WellFormed.nested (.generic h hne hargs)
    refine ⟨u, hwell, hcanonical.trans ?_⟩
    rw [canonical, canonical, canonical, canonical]
  | @array t rank _ hrank ih =>
    obtain ⟨u, hwell, hcanonical⟩ := ih
    exact ⟨.array u rank, .array hwell hrank, by rw [nested_array, canonical, hcanonical]⟩
  | @byRef t _ ih =>
    obtain ⟨u, hwell, hcanonical⟩ := ih
    exact ⟨.byRef u, .byRef hwell, by rw [nested_byRef, canonical, hcanonical]⟩

/-! ### Reading nested names -/

theorem unslash_eq_iff {c m : Char} (hslash : m ≠ '/') (hplus : m ≠ '+') :
    unslash c = m ↔ c = m := by
  unfold unslash
  split
  · next h =>
    subst h
    exact iff_of_false hplus.symm hslash.symm
  · rfl

theorem nesting_unslash (c : Char) : nesting (unslash c) = nesting c := by
  unfold unslash
  split
  · next h => subst h; decide
  · rfl

theorem trimEnd_map_unslash (cs : List Char) :
    trimEnd (cs.map unslash) = (trimEnd cs).map unslash := by
  have hblank : isBlank ∘ unslash = isBlank := funext isBlank_unslash
  simp only [trimEnd, List.dropWhile_map, ← List.map_reverse, hblank]

/-- Cutting at commas does not see slashes. -/
theorem cutCommas_map_unslash (depth : Int) (cs : List Char) :
    cutCommas depth (cs.map unslash) = (cutCommas depth cs).map (List.map unslash) := by
  induction cs generalizing depth with
  | nil => rfl
  | cons c cs ih =>
    have hcomma : unslash c = ',' ↔ c = ',' := unslash_eq_iff (by decide) (by decide)
    rw [List.map_cons]
    by_cases h : c = ',' ∧ depth = 0
    · obtain ⟨rfl, rfl⟩ := h
      rw [hcomma.mpr rfl, cutCommas_comma, cutCommas_comma, ih]
      rfl
    · rw [cutCommas_cons depth cs h, cutCommas_cons depth _ (by rwa [hcomma]), ih, nesting_unslash]
      cases cutCommas (depth + nesting c) cs <;> rfl

/-- Nor does looking for the bracket that matches the last one. -/
theorem seekOpening_map_unslash {opening closing : Char} (h : Matching opening closing)
    (depth : Int)
    (inside cs : List Char) :
    seekOpening opening closing depth (inside.map unslash) (cs.map unslash) =
      (seekOpening opening closing depth inside cs).map
        (Prod.map (List.map unslash) (List.map unslash)) := by
  have hkept {m : Char} (hm : m = opening ∨ m = closing) (c : Char) : unslash c = m ↔ c = m := by
    have hne : m ≠ '/' ∧ m ≠ '+' := by
      rcases h with ⟨rfl, rfl⟩ | ⟨rfl, rfl⟩ <;> rcases hm with rfl | rfl <;> decide
    exact unslash_eq_iff hne.1 hne.2
  induction cs generalizing depth inside with
  | nil => rfl
  | cons c cs ih =>
    have hinside : (c :: inside).map unslash = unslash c :: inside.map unslash := rfl
    rw [List.map_cons, seekOpening, seekOpening]
    simp only [hkept (.inl rfl) c, hkept (.inr rfl) c, ← hinside, ih]
    split
    · rfl
    · split
      · split <;> rfl
      · rfl

theorem splitBracket_map_unslash {opening closing : Char} (h : Matching opening closing)
    {cs before within : List Char} (hs : splitBracket opening closing cs = some (before, within)) :
    splitBracket opening closing (cs.map unslash) =
      some (before.map unslash, within.map unslash) := by
  unfold splitBracket at hs ⊢
  obtain ⟨⟨b, w⟩, hseek, hbw⟩ := Option.map_eq_some_iff.mp hs
  cases hbw
  have hmapped := seekOpening_map_unslash h 1 [] cs
  rw [List.map_nil, hseek] at hmapped
  rw [hmapped]
  simp

/-- Dimensions have no slashes. -/
theorem rank?_map_unslash {dimensions : List Char} {rank : UInt8}
    (h : rank? dimensions = some rank) :
    rank? (dimensions.map unslash) = some rank := by
  have hall := (rank?_eq_some_iff.mp h).1
  have hkept : ∀ c ∈ dimensions, unslash c = id c := fun c hc ↦ by
    have hne : c ≠ '/' := by
      rintro rfl
      rcases hall _ hc with hcomma | hblank
      · exact absurd hcomma (by decide)
      · exact absurd hblank (by decide)
    rw [unslash, if_neg hne, id]
  rwa [List.map_congr_left hkept, List.map_id]

theorem mapM_of_forall₂ {α β : Type} {f : α → Option β} {as : List α} {bs : List β}
    (h : List.Forall₂ (fun a b ↦ f a = some b) as bs) : as.mapM f = some bs := by
  induction h with
  | nil => rfl
  | @cons a b as bs hab _ ih =>
    rw [List.mapM_cons, hab, ih]
    rfl

/-- Pieces that are each read in nested form are read so one after the other. -/
theorem exists_nested {pieces : List (List Char)} {args : List TypeName}
    (h : List.Forall₂ (fun piece t ↦ parseBody? (trim piece) = some t) pieces args)
    (hreads : ∀ piece ∈ pieces, ∀ t, parseBody? (trim piece) = some t →
      ∃ u, parseBody? (trim (piece.map unslash)) = some u ∧ u.canonical = nested t.canonical) :
    ∃ us : List TypeName,
      List.Forall₂ (fun piece u ↦ parseBody? (trim (piece.map unslash)) = some u) pieces us ∧
      us.map canonical = args.map fun t ↦ nested t.canonical := by
  induction h with
  | nil => exact ⟨[], .nil, rfl⟩
  | @cons piece t pieces args ht hrest ih =>
    obtain ⟨u, hu, hcanonical⟩ := hreads piece List.mem_cons_self t ht
    obtain ⟨us, hus, hcanonicals⟩ := ih fun piece hmem ↦ hreads piece (List.mem_cons_of_mem _ hmem)
    exact ⟨u :: us, .cons hu hus, by rw [List.map_cons, List.map_cons, hcanonical, hcanonicals]⟩

/-- A text without marks is a simple name, and has none afterwards either. -/
theorem parseBody?_map_unslash_of_unmarked {cs : List Char}
    (h : ¬(cs.isEmpty || cs.any isMark) = true) :
    parseBody? (cs.map unslash) = some (.simple (String.ofList (cs.map unslash)) none) := by
  have hsame : ¬((cs.map unslash).isEmpty || (cs.map unslash).any isMark) = true := by
    simpa [Function.comp_def, isMark_unslash] using h
  have hlast {m : Char} (hm : isMark m = true) (rest : List Char) :
      (cs.map unslash).reverse ≠ m :: rest := by
    intro heq
    have hmem : m ∈ cs.map unslash := List.mem_reverse.mp (heq ▸ List.mem_cons_self)
    refine hsame (Bool.or_eq_true_iff.mpr (.inr (List.any_eq_true.mpr ⟨m, hmem, hm⟩)))
  rw [parseBody?_of_unmarked_end (hlast rfl) (hlast rfl) (hlast rfl), if_neg hsame]

/-- By induction along the reader: no mark is a slash, so the cuts are where they were. -/
theorem parseBody?_nested {cs : List Char} {t : TypeName} (h : parseBody? cs = some t) :
    ∃ u, parseBody? (cs.map unslash) = some u ∧ u.canonical = nested t.canonical ∧
      u.isSimple = t.isSimple := by
  induction cs using parseBody?.induct generalizing t with
  | case1 cs rest hr ih =>
    obtain rfl : rest.reverse ++ ['&'] = cs := by
      rw [← List.reverse_cons, ← hr, List.reverse_reverse]
    rw [parseBody?_concat_and] at h
    obtain ⟨t, ht, rfl⟩ := Option.map_eq_some_iff.mp h
    obtain ⟨u, hu, hcanonical, -⟩ := ih ht
    have hmark : ['&'].map unslash = ['&'] := by decide
    rw [List.map_append, hmark, parseBody?_concat_and, trimEnd_map_unslash, hu]
    exact ⟨.byRef u, rfl, by rw [nested_byRef, canonical, hcanonical], rfl⟩
  | case2 cs rest hr hs =>
    obtain rfl : rest.reverse ++ [']'] = cs := by
      rw [← List.reverse_cons, ← hr, List.reverse_reverse]
    rw [parseBody?_concat_square, List.reverse_reverse, hs] at h
    cases h
  | case3 cs rest hr before dimensions hs ih =>
    obtain rfl : rest.reverse ++ [']'] = cs := by
      rw [← List.reverse_cons, ← hr, List.reverse_reverse]
    rw [parseBody?_concat_square, List.reverse_reverse, hs, Option.bind_some] at h
    obtain ⟨rank, hrank, h⟩ := Option.bind_eq_some_iff.mp h
    obtain ⟨t, ht, rfl⟩ := Option.map_eq_some_iff.mp h
    obtain ⟨u, hu, hcanonical, -⟩ := ih ht
    have hmark : [']'].map unslash = [']'] := by decide
    have hsplit := splitBracket_map_unslash (.inr ⟨rfl, rfl⟩) hs
    rw [List.map_append, hmark, parseBody?_concat_square, List.map_reverse, List.reverse_reverse,
      hsplit, Option.bind_some, rank?_map_unslash hrank, Option.bind_some, trimEnd_map_unslash, hu]
    exact ⟨.array u rank, rfl, by rw [nested_array, canonical, hcanonical], rfl⟩
  | case4 cs rest hr hs =>
    obtain rfl : rest.reverse ++ ['>'] = cs := by
      rw [← List.reverse_cons, ← hr, List.reverse_reverse]
    rw [parseBody?_concat_angle, List.reverse_reverse, hs] at h
    cases h
  | case5 cs rest hr before within hs ihhead ihargs =>
    obtain rfl : rest.reverse ++ ['>'] = cs := by
      rw [← List.reverse_cons, ← hr, List.reverse_reverse]
    rw [parseBody?_concat_angle, List.reverse_reverse, hs, Option.bind_some] at h
    obtain ⟨head, hhead, h⟩ := Option.bind_eq_some_iff.mp h
    obtain ⟨uhead, huhead, hcanonical, hsimple⟩ := ihhead hhead
    cases hisSimple : head.isSimple with
    | false =>
      rw [hisSimple] at h
      cases h
    | true =>
      rw [hisSimple, if_pos rfl] at h
      obtain ⟨args, hargs, rfl⟩ := Option.map_eq_some_iff.mp h
      obtain ⟨uargs, huargs, hpieces⟩ :=
        exists_nested (forall₂_of_mapM hargs) fun piece hmem t ht ↦ by
        obtain ⟨u, hu, hcanonical, -⟩ := ihargs ⟨piece, hmem⟩ ht
        rw [← trim_map_unslash] at hu
        exact ⟨u, hu, hcanonical⟩
      have hmark : ['>'].map unslash = ['>'] := by decide
      have hsplit := splitBracket_map_unslash (.inl ⟨rfl, rfl⟩) hs
      have hread := mapM_of_forall₂ (f := fun piece ↦ parseBody? (trim piece))
        (List.forall₂_map_left_iff.mpr huargs)
      rw [List.map_append, hmark, parseBody?_concat_angle, List.map_reverse, List.reverse_reverse,
        hsplit, Option.bind_some, trimEnd_map_unslash, huhead, Option.bind_some, hsimple, hisSimple,
        if_pos rfl, cutCommas_map_unslash, hread]
      refine ⟨.generic uhead uargs, rfl, ?_, rfl⟩
      rw [nested_generic, canonical, canonicals_eq_map, hcanonical, hpieces]
  | case6 cs hbad hand hsquare hangle =>
    rw [parseBody?_of_unmarked_end hand hsquare hangle, if_pos hbad] at h
    cases h
  | case7 cs hplain hand hsquare hangle =>
    rw [parseBody?_of_unmarked_end hand hsquare hangle, if_neg hplain] at h
    obtain rfl : TypeName.simple (String.ofList cs) none = t := Option.some.inj h
    refine ⟨_, parseBody?_map_unslash_of_unmarked hplain, String.toList_inj.mp ?_, rfl⟩
    rw [canonical, canonical, toList_nested, String.toList_ofList, String.toList_ofList]

/-- With pluses for its slashes a text is read as the nested form of the name. -/
theorem parse?_nested {s : String} {t : TypeName} (h : parse? s = some t) :
    ∃ u, parse? (TypeName.nested s) = some u ∧ u.canonical = TypeName.nested t.canonical := by
  rw [parse?, toList_nested, trim_map_unslash, cutCommas_map_unslash]
  rw [parse?] at h
  split at h
  · next body hcut =>
    obtain ⟨u, hu, hcanonical, -⟩ := parseBody?_nested h
    rw [← trim_map_unslash] at hu
    rw [hcut]
    exact ⟨u, hu, hcanonical⟩
  · next body scope hcut =>
    dsimp only at h
    split at h
    · cases h
    · next hscope =>
      obtain ⟨t, ht, rfl⟩ := Option.map_eq_some_iff.mp h
      obtain ⟨u, hu, hcanonical, -⟩ := parseBody?_nested ht
      rw [← trim_map_unslash] at hu
      have hscope' : ¬(trim (scope.map unslash)).isEmpty = true := by
        rw [trim_map_unslash]
        simpa using hscope
      rw [hcut]
      refine ⟨u.withScope _, (if_neg hscope').trans (by rw [hu]; rfl), ?_⟩
      rw [canonical_withScope, canonical_withScope, hcanonical]
  · cases h

end ManagedMachine.TypeName
