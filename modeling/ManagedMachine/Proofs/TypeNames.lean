import ManagedMachine.TypeName
import Mathlib.Data.List.Forall2
import Mathlib.Data.List.TakeWhile
import Mathlib.Data.Set.Function

/-!
# Type names and their text

Writing and reading a type name are inverse to each other. What `canonical` writes is balanced:
brackets match, and commas stand within brackets only. So the comma splitter and the two bracket
matchers of the reader, which count different brackets, all find the place that was meant. In the
other direction, every part that the reader cuts off is a mark, and what it trims is blank, so the
text that was read and the canonical one differ by blanks.

The last character decides what a text is, so the reader is taken apart by what a text ends in
(`parseBody?_concat_square` and its siblings), and both directions are inductions over these cases.
What was read is compared through `squeeze`, which takes the blanks out.
-/

set_option autoImplicit false
set_option relaxedAutoImplicit false

namespace ManagedMachine

/-! ### Blanks -/

namespace Text

/-- The text without its blanks. -/
def squeeze (cs : List Char) : List Char := cs.filter fun c ↦ !isBlank c

/-- There are no blanks at the ends of the text. -/
structure Trimmed (cs : List Char) : Prop where
  start : trimStart cs = cs
  stop : trimEnd cs = cs

theorem squeeze_append (as bs : List Char) : squeeze (as ++ bs) = squeeze as ++ squeeze bs :=
  List.filter_append as bs

theorem squeeze_cons {c : Char} (cs : List Char) (h : isBlank c = false) :
    squeeze (c :: cs) = c :: squeeze cs :=
  List.filter_cons_of_pos (by simp [h])

theorem squeeze_of_blank {cs : List Char} (h : ∀ c ∈ cs, isBlank c = true) : squeeze cs = [] :=
  List.filter_eq_nil_iff.mpr fun c hc ↦ by simp [h c hc]

/-- What is trimmed at the start is blank. -/
theorem exists_trimStart (cs : List Char) :
    ∃ lead, cs = lead ++ trimStart cs ∧ ∀ c ∈ lead, isBlank c = true :=
  ⟨cs.takeWhile isBlank, List.takeWhile_append_dropWhile.symm, fun _ hc ↦
    List.mem_takeWhile_imp hc⟩

/-- What is trimmed at the end is blank. -/
theorem exists_trimEnd (cs : List Char) :
    ∃ trail, cs = trimEnd cs ++ trail ∧ ∀ c ∈ trail, isBlank c = true := by
  obtain ⟨lead, hlead, hblank⟩ := exists_trimStart cs.reverse
  refine ⟨lead.reverse, ?_, fun c hc ↦ hblank c (List.mem_reverse.mp hc)⟩
  rw [trimEnd, ← List.reverse_append]
  exact List.reverse_eq_iff.mp hlead

theorem squeeze_trimStart (cs : List Char) : squeeze (trimStart cs) = squeeze cs := by
  obtain ⟨lead, hlead, hblank⟩ := exists_trimStart cs
  conv_rhs => rw [hlead, squeeze_append, squeeze_of_blank hblank]
  rfl

theorem squeeze_trimEnd (cs : List Char) : squeeze (trimEnd cs) = squeeze cs := by
  obtain ⟨trail, htrail, hblank⟩ := exists_trimEnd cs
  conv_rhs => rw [htrail, squeeze_append, squeeze_of_blank hblank]
  exact (List.append_nil _).symm

theorem squeeze_trim (cs : List Char) : squeeze (trim cs) = squeeze cs :=
  (squeeze_trimEnd _).trans (squeeze_trimStart cs)

theorem trimStart_cons_of_not_blank {c : Char} (cs : List Char) (h : isBlank c = false) :
    trimStart (c :: cs) = c :: cs := by
  simp [trimStart, h]

theorem trimEnd_concat_of_not_blank {c : Char} (cs : List Char) (h : isBlank c = false) :
    trimEnd (cs ++ [c]) = cs ++ [c] := by
  simp [trimEnd, h]

/-- Whatever a text without leading blanks starts with has none. -/
theorem trimStart_prefix {as bs : List Char} (h : trimStart (as ++ bs) = as ++ bs) :
    trimStart as = as := by
  cases as with
  | nil => rfl
  | cons c as =>
    cases hc : isBlank c with
    | false => exact trimStart_cons_of_not_blank as hc
    | true =>
      have hlength := congrArg List.length h
      have hle := length_trimStart_le (as ++ bs)
      simp only [trimStart, List.cons_append, List.dropWhile_cons, hc, if_true,
        List.length_cons] at hlength hle
      omega

theorem trimStart_trimStart (cs : List Char) : trimStart (trimStart cs) = trimStart cs := by
  induction cs with
  | nil => rfl
  | cons c cs ih =>
    cases hc : isBlank c with
    | false => rw [trimStart_cons_of_not_blank cs hc, trimStart_cons_of_not_blank cs hc]
    | true =>
      have hskip : trimStart (c :: cs) = trimStart cs := by simp [trimStart, hc]
      rw [hskip, ih]

theorem trimEnd_trimEnd (cs : List Char) : trimEnd (trimEnd cs) = trimEnd cs := by
  have h := trimStart_trimStart cs.reverse
  unfold trimStart at h
  simp only [trimEnd, List.reverse_reverse, h]

/-- Trimming the end of a prefix leaves no blanks at either end. -/
theorem trimmed_trimEnd {as bs : List Char} (h : trimStart (as ++ bs) = as ++ bs) :
    Trimmed (trimEnd as) := by
  refine ⟨?_, trimEnd_trimEnd as⟩
  obtain ⟨trail, htrail, -⟩ := exists_trimEnd as
  have has := trimStart_prefix h
  rw [htrail] at has
  exact trimStart_prefix has

theorem trimmed_trim (cs : List Char) : Trimmed (trim cs) := by
  have h : trimStart (trimStart cs ++ []) = trimStart cs ++ [] := by
    rw [List.append_nil, trimStart_trimStart]
  exact trimmed_trimEnd h

theorem Trimmed.trim {cs : List Char} (h : Trimmed cs) : trim cs = cs := by
  rw [Text.trim, h.start, h.stop]

/-- Blanks at the end do not survive trimming. -/
theorem trim_append_blank (cs : List Char) {trail : List Char} (h : ∀ c ∈ trail, isBlank c = true) :
    Text.trim (cs ++ trail) = Text.trim cs := by
  have hend (as : List Char) : trimEnd (as ++ trail) = trimEnd as := by
    unfold trimEnd
    rw [List.reverse_append, List.dropWhile_append_of_pos]
    exact fun c hc ↦ h c (List.mem_reverse.mp hc)
  by_cases hcs : ∀ c ∈ cs, isBlank c = true
  · have hnil {as : List Char} (has : ∀ c ∈ as, isBlank c = true) : trimStart as = [] :=
      List.dropWhile_eq_nil_iff.mpr has
    have hall : ∀ c ∈ cs ++ trail, isBlank c = true := by
      intro c hc
      exact (List.mem_append.mp hc).elim (hcs c) (h c)
    rw [Text.trim, Text.trim, hnil hcs, hnil hall]
  · have hstart : trimStart (cs ++ trail) = trimStart cs ++ trail := by
      unfold trimStart
      rw [List.dropWhile_append, if_neg]
      rw [List.isEmpty_iff, List.dropWhile_eq_nil_iff]
      exact hcs
    rw [Text.trim, Text.trim, hstart, hend]

end Text

namespace TypeName

open Text

/-! ### Well-formed names -/

/-- The text of a single name. -/
structure IsPlain (cs : List Char) : Prop where
  ne_nil : cs ≠ []
  trim : trim cs = cs
  unmarked : ∀ c ∈ cs, isMark c = false

instance : DecidablePred IsPlain := fun cs ↦
  decidable_of_iff (cs ≠ [] ∧ Text.trim cs = cs ∧ cs.all (!isMark ·) = true)
    ⟨fun ⟨hne, htrim, hmarks⟩ ↦ ⟨hne, htrim, by simpa using hmarks⟩,
      fun h ↦ ⟨h.ne_nil, h.trim, by simpa using h.unmarked⟩⟩

theorem IsPlain.trimmed {cs : List Char} (h : IsPlain cs) : Trimmed cs := h.trim ▸ trimmed_trim cs

/-- A name without scopes that has a text: its simple names are plain, a generic head is a simple
name with at least one argument, and ranks start at one. -/
inductive WellFormed : TypeName → Prop
  | simple {name : String} (h : IsPlain name.toList) : WellFormed (.simple name none)
  | generic {name : String} {args : List TypeName} (h : IsPlain name.toList) (hne : args ≠ [])
      (hargs : ∀ t ∈ args, WellFormed t) : WellFormed (.generic (.simple name none) args)
  | array {t : TypeName} {rank : UInt8} (h : WellFormed t) (hrank : rank ≠ 0) :
      WellFormed (.array t rank)
  | byRef {t : TypeName} (h : WellFormed t) : WellFormed (.byRef t)

/-- The canonical spelling as characters. -/
def text (t : TypeName) : List Char := t.canonical.toList

theorem text_simple (name : String) (scope : Option String) :
    text (.simple name scope) = name.toList := by
  simp [text, canonical]

theorem text_generic (head : TypeName) (args : List TypeName) :
    text (.generic head args) =
      text head ++ '<' :: List.intercalate [','] (args.map text) ++ ['>'] := by
  have hargs : args.map (String.toList ∘ canonical) = args.map text := rfl
  simp [text, canonical, String.toList_intercalate, hargs]

theorem text_array (t : TypeName) (rank : UInt8) :
    text (.array t rank) = text t ++ '[' :: List.replicate (rank.toNat - 1) ',' ++ [']'] := by
  simp [text, canonical, arraySuffix]

theorem text_byRef (t : TypeName) : text (.byRef t) = text t ++ ['&'] := by
  simp [text, canonical]

/-! ### Balanced text -/

/-- Whether the character is one that the reader matches. -/
def isBracket (c : Char) : Bool := c ∈ ['<', '>', '[', ']']

/-- An opening bracket with the closing one that matches it. -/
def Matching (opening closing : Char) : Prop :=
  (opening = '<' ∧ closing = '>') ∨ (opening = '[' ∧ closing = ']')

/-- Text in which brackets match. Commas stand within brackets, and outside of them if `commas` says
so. -/
inductive Balanced : (commas : Bool) → List Char → Prop
  | nil {commas : Bool} : Balanced commas []
  | char {commas : Bool} {c : Char} (h : isBracket c = false) (hcomma : c = ',' → commas = true) :
      Balanced commas [c]
  | append {commas : Bool} {as bs : List Char} (ha : Balanced commas as) (hb : Balanced commas bs) :
      Balanced commas (as ++ bs)
  | enclosed {commas : Bool} {opening closing : Char} {cs : List Char}
      (h : Matching opening closing) (hcs : Balanced true cs) :
      Balanced commas (opening :: cs ++ [closing])

namespace Balanced

theorem withCommas {commas : Bool} {cs : List Char} (h : Balanced commas cs) :
    Balanced true cs := by
  induction h with
  | nil => exact .nil
  | char h _ => exact .char h fun _ ↦ rfl
  | append _ _ iha ihb => exact .append iha ihb
  | enclosed h hcs _ => exact .enclosed h hcs

theorem of_chars {commas : Bool} : {cs : List Char} →
    (∀ c ∈ cs, isBracket c = false ∧ (c = ',' → commas = true)) → Balanced commas cs
  | [], _ => .nil
  | c :: cs, h => by
    have hc := h c List.mem_cons_self
    have hcs : Balanced commas cs := of_chars fun c' hc' ↦ h c' (List.mem_cons_of_mem c hc')
    have hfirst : Balanced commas [c] := .char hc.1 hc.2
    exact hfirst.append hcs

theorem intercalate : {parts : List (List Char)} → (∀ p ∈ parts, Balanced false p) →
    Balanced true (List.intercalate [','] parts)
  | [], _ => .nil
  | [p], h => by
    rw [List.intercalate_singleton]
    exact (h p List.mem_cons_self).withCommas
  | p :: q :: rest, h => by
    rw [List.intercalate_cons_cons]
    have hrest : Balanced true (List.intercalate [','] (q :: rest)) :=
      intercalate fun p' hp' ↦ h p' (List.mem_cons_of_mem p hp')
    exact .append (.append (h p List.mem_cons_self).withCommas (.char rfl fun _ ↦ rfl)) hrest

end Balanced

theorem balanced_of_isPlain {cs : List Char} (h : IsPlain cs) : Balanced false cs := by
  refine .of_chars fun c hc ↦ ?_
  have hmark := h.unmarked c hc
  simp only [isMark, isBracket, decide_eq_false_iff_not, List.mem_cons, List.not_mem_nil, or_false,
    not_or] at hmark ⊢
  exact ⟨⟨hmark.1, hmark.2.1, hmark.2.2.1, hmark.2.2.2.1⟩,
    fun hcomma ↦ absurd hcomma hmark.2.2.2.2.2⟩

/-- What a well-formed name is written as is balanced. -/
theorem WellFormed.balanced {t : TypeName} (h : t.WellFormed) : Balanced false (text t) := by
  induction h with
  | simple h =>
    rw [text_simple]
    exact balanced_of_isPlain h
  | generic h _ _ ih =>
    rw [text_generic, text_simple, List.append_assoc]
    refine .append (balanced_of_isPlain h)
      (.enclosed (.inl ⟨rfl, rfl⟩) (.intercalate fun p hp ↦ ?_))
    obtain ⟨t, ht, rfl⟩ := List.mem_map.mp hp
    exact ih t ht
  | array _ _ ih =>
    rw [text_array, List.append_assoc]
    refine .append ih (.enclosed (.inr ⟨rfl, rfl⟩) (.of_chars fun c hc ↦ ?_))
    rw [List.eq_of_mem_replicate hc]
    exact ⟨rfl, fun _ ↦ rfl⟩
  | byRef _ ih =>
    rw [text_byRef]
    exact .append ih (.char rfl nofun)

/-! ### Cutting at commas -/

/-- Puts text in front of the first piece. -/
def glue (cs : List Char) : List (List Char) → List (List Char)
  | [] => [cs]
  | p :: ps => (cs ++ p) :: ps

theorem glue_append (as bs : List Char) (ps : List (List Char)) :
    glue (as ++ bs) ps = glue as (glue bs ps) := by
  cases ps <;> simp [glue]

theorem cutCommas_cons {c : Char} (depth : Int) (cs : List Char) (h : ¬(c = ',' ∧ depth = 0)) :
    cutCommas depth (c :: cs) = glue [c] (cutCommas (depth + nesting c) cs) := by
  rw [cutCommas, if_neg (by simpa using h)]
  cases cutCommas (depth + nesting c) cs <;> rfl

theorem cutCommas_comma (cs : List Char) : cutCommas 0 (',' :: cs) = [] :: cutCommas 0 cs := by
  rw [cutCommas, if_pos (by simp)]

theorem glue_nil_cutCommas (depth : Int) (cs : List Char) :
    glue [] (cutCommas depth cs) = cutCommas depth cs := by
  cases cs with
  | nil => rfl
  | cons c cs =>
    by_cases h : c = ',' ∧ depth = 0
    · obtain ⟨rfl, rfl⟩ := h
      rw [cutCommas_comma]
      rfl
    · rw [cutCommas_cons _ cs h, ← glue_append]
      rfl

theorem nesting_of_not_bracket {c : Char} (h : isBracket c = false) : nesting c = 0 := by
  simp only [isBracket, decide_eq_false_iff_not, List.mem_cons, List.not_mem_nil, or_false,
    not_or] at h
  simp [nesting, h]

theorem Matching.nesting {opening closing : Char} (h : Matching opening closing) :
    nesting opening = 1 ∧ nesting closing = -1 ∧ opening ≠ ',' ∧ closing ≠ ',' := by
  rcases h with ⟨rfl, rfl⟩ | ⟨rfl, rfl⟩ <;> decide

/-- Balanced text belongs to one piece; that it has commas is only right within brackets. -/
theorem Balanced.cutCommas {commas : Bool} {cs : List Char} (h : Balanced commas cs) (depth : Int)
    (hdepth : 0 ≤ depth) (hcommas : commas = true → 1 ≤ depth) (rest : List Char) :
    cutCommas depth (cs ++ rest) = glue cs (TypeName.cutCommas depth rest) := by
  induction h generalizing depth rest with
  | nil => exact (glue_nil_cutCommas depth rest).symm
  | @char commas c h hcomma =>
    have hkeep : ¬(c = ',' ∧ depth = 0) := by
      rintro ⟨rfl, rfl⟩
      exact absurd (hcommas (hcomma rfl)) (by decide)
    rw [List.singleton_append, cutCommas_cons _ rest hkeep, nesting_of_not_bracket h, Int.add_zero]
  | append _ _ iha ihb =>
    rw [List.append_assoc, iha depth hdepth hcommas, ihb depth hdepth hcommas, glue_append]
  | @enclosed commas opening closing cs h _ ih =>
    obtain ⟨hup, hdown, hopening, hclosing⟩ := h.nesting
    have hback : depth + 1 + -1 = depth := by omega
    have hopen := cutCommas_cons depth (cs ++ closing :: rest) fun h ↦ hopening h.1
    have hinside := ih (depth + 1) (by omega) (fun _ ↦ by omega) (closing :: rest)
    have hclose := cutCommas_cons (depth + 1) rest fun h ↦ hclosing h.1
    rw [hup] at hopen
    rw [hdown, hback] at hclose
    calc TypeName.cutCommas depth (opening :: cs ++ [closing] ++ rest)
        = TypeName.cutCommas depth (opening :: (cs ++ closing :: rest)) := by simp
      _ = glue [opening] (glue cs (glue [closing] (TypeName.cutCommas depth rest))) := by
        rw [hopen, hinside, hclose]
      _ = glue (opening :: cs ++ [closing]) (TypeName.cutCommas depth rest) := by
        rw [← glue_append, ← glue_append]
        simp

/-- Joined pieces come apart where they were joined. -/
theorem cutCommas_intercalate : {parts : List (List Char)} → parts ≠ [] →
    (∀ p ∈ parts, Balanced false p) → cutCommas 0 (List.intercalate [','] parts) = parts
  | [], hne, _ => absurd rfl hne
  | [p], _, h => by
    have hp := (h p List.mem_cons_self).cutCommas 0 (Int.le_refl 0) nofun []
    rw [List.append_nil] at hp
    rw [List.intercalate_singleton, hp]
    simp [cutCommas, glue]
  | p :: q :: rest, _, h => by
    have hrest : cutCommas 0 (List.intercalate [','] (q :: rest)) = q :: rest :=
      cutCommas_intercalate (List.cons_ne_nil q rest) fun p' hp' ↦ h p' (List.mem_cons_of_mem p hp')
    rw [List.intercalate_cons_cons, List.append_assoc, List.singleton_append,
      (h p List.mem_cons_self).cutCommas 0 (Int.le_refl 0) nofun, cutCommas_comma, hrest]
    simp [glue]

theorem cutCommas_ne_nil (depth : Int) (cs : List Char) : cutCommas depth cs ≠ [] := by
  rw [← glue_nil_cutCommas]
  cases cutCommas depth cs <;> simp [glue]

/-- Pieces are joined with commas. -/
theorem intercalate_cutCommas (depth : Int) (cs : List Char) :
    List.intercalate [','] (cutCommas depth cs) = cs := by
  have hglue (as : List Char) (ps : List (List Char)) (hps : ps ≠ []) :
      List.intercalate [','] (glue as ps) = as ++ List.intercalate [','] ps := by
    match ps with
    | [] => exact absurd rfl hps
    | [p] => simp [glue]
    | p :: q :: rest => simp [glue, List.intercalate_cons_cons]
  induction cs generalizing depth with
  | nil => simp [cutCommas]
  | cons c cs ih =>
    by_cases h : c = ',' ∧ depth = 0
    · obtain ⟨rfl, rfl⟩ := h
      obtain ⟨p, ps, hps⟩ := List.exists_cons_of_ne_nil (cutCommas_ne_nil 0 cs)
      have hcs := ih 0
      rw [hps] at hcs
      rw [cutCommas_comma, hps, List.intercalate_cons_cons, hcs]
      rfl
    · rw [cutCommas_cons _ cs h, hglue _ _ (cutCommas_ne_nil _ cs), ih]
      rfl

/-! ### Finding the bracket that matches -/

/-- Balanced text is passed over, whichever bracket is looked for. -/
theorem Balanced.seekOpening {commas : Bool} {cs : List Char} (h : Balanced commas cs)
    {opening closing : Char} (hpair : Matching opening closing) (depth : Int) (hdepth : 1 ≤ depth)
    (inside rest : List Char) : seekOpening opening closing depth inside (cs.reverse ++ rest) =
      TypeName.seekOpening opening closing depth (cs ++ inside) rest := by
  induction h generalizing depth inside rest with
  | nil => rfl
  | @char commas c h hcomma =>
    have hne : c ≠ closing ∧ c ≠ opening := by
      rcases hpair with ⟨rfl, rfl⟩ | ⟨rfl, rfl⟩ <;>
        exact ⟨fun heq ↦ by simp [heq, isBracket] at h, fun heq ↦ by simp [heq, isBracket] at h⟩
    simp only [List.reverse_singleton, List.singleton_append]
    rw [TypeName.seekOpening, if_neg hne.1, if_neg hne.2]
  | append _ _ iha ihb =>
    rw [List.reverse_append, List.append_assoc, ihb depth hdepth, iha depth hdepth,
      List.append_assoc]
  | @enclosed commas opening' closing' cs h _ ih =>
    have htext : (opening' :: cs ++ [closing']).reverse ++ rest =
        closing' :: (cs.reverse ++ opening' :: rest) := by simp
    rw [htext, TypeName.seekOpening]
    by_cases hsame : closing' = closing
    · have hopening : opening' = opening ∧ opening ≠ closing := by
        rcases h with ⟨rfl, rfl⟩ | ⟨rfl, rfl⟩ <;> rcases hpair with ⟨rfl, rfl⟩ | ⟨rfl, rfl⟩ <;>
          first | exact ⟨rfl, by decide⟩ | exact absurd hsame (by decide)
      have hback : depth + 1 - 1 = depth := by omega
      rw [if_pos hsame, ih (depth + 1) (by omega), hopening.1, TypeName.seekOpening,
        if_neg hopening.2, if_pos rfl, if_neg (by omega), hback]
      simp
    · have hopening : opening' ≠ opening ∧ opening' ≠ closing ∧ closing' ≠ opening := by
        rcases h with ⟨rfl, rfl⟩ | ⟨rfl, rfl⟩ <;> rcases hpair with ⟨rfl, rfl⟩ | ⟨rfl, rfl⟩ <;>
          first | decide | exact absurd rfl hsame
      rw [if_neg hsame, if_neg hopening.2.2, ih depth hdepth, TypeName.seekOpening,
        if_neg hopening.2.1, if_neg hopening.1]
      simp

theorem splitBracket_of_balanced {opening closing : Char} (hpair : Matching opening closing)
    (before : List Char) {within : List Char} (h : Balanced true within) :
    splitBracket opening closing (before ++ opening :: within).reverse = some (before, within) := by
  have hne : opening ≠ closing := by rcases hpair with ⟨rfl, rfl⟩ | ⟨rfl, rfl⟩ <;> decide
  have hreverse : (before ++ opening :: within).reverse =
      within.reverse ++ opening :: before.reverse := by simp
  rw [splitBracket, hreverse, h.seekOpening hpair 1 (Int.le_refl 1), seekOpening, if_neg hne,
    if_pos rfl, if_pos rfl]
  simp

theorem seekOpening_some {opening closing : Char} {depth : Int}
    {inside cs before within : List Char}
    (h : seekOpening opening closing depth inside cs = some (before, within)) :
    before.reverse ++ opening :: within = cs.reverse ++ inside := by
  induction cs generalizing depth inside with
  | nil => simp [seekOpening] at h
  | cons c cs ih =>
    rw [seekOpening] at h
    split at h
    · rw [ih h]
      simp
    · split at h
      · next hopening =>
        split at h
        · cases h
          simp [hopening]
        · rw [ih h]
          simp
      · rw [ih h]
        simp

/-- What is split at a bracket is the text around it. -/
theorem splitBracket_some {opening closing : Char} {reversed before within : List Char}
    (h : splitBracket opening closing reversed = some (before, within)) :
    reversed.reverse = before ++ opening :: within := by
  simp only [splitBracket, Option.map_eq_some_iff, Prod.exists, Prod.mk.injEq] at h
  obtain ⟨b, w, hs, rfl, rfl⟩ := h
  rw [seekOpening_some hs, List.append_nil]

/-! ### Reading what was written -/

theorem parseBody?_concat_and (cs : List Char) :
    parseBody? (cs ++ ['&']) = (parseBody? (trimEnd cs)).map .byRef := by
  rw [parseBody?]
  split
  · next rest h =>
    obtain rfl : rest.reverse = cs := by simpa [List.reverse_eq_iff] using h.symm
    rfl
  all_goals simp_all

/-- A text that ends in a square bracket is that of an array. -/
theorem parseBody?_concat_square (cs : List Char) :
    parseBody? (cs ++ [']']) = (splitBracket '[' ']' cs.reverse).bind fun p ↦
      (rank? p.2).bind fun rank ↦ (parseBody? (trimEnd p.1)).map (.array · rank) := by
  rw [parseBody?]
  split
  case h_2 rest hr =>
    obtain rfl : cs.reverse = rest := by simpa using hr
    split
    · next hs =>
      rw [hs]
      rfl
    · next before dimensions hs =>
      rw [hs, Option.bind_some]
      dsimp only
      cases rank? dimensions <;> cases parseBody? (trimEnd before) <;> rfl
  all_goals simp_all

/-- A text that ends in an angle bracket is that of an instantiation. -/
theorem parseBody?_concat_angle (cs : List Char) :
    parseBody? (cs ++ ['>']) = (splitBracket '<' '>' cs.reverse).bind fun p ↦
      (parseBody? (trimEnd p.1)).bind fun head ↦
        if head.isSimple then
          ((cutCommas 0 p.2).mapM fun piece ↦ parseBody? (trim piece)).map (.generic head)
        else none := by
  rw [parseBody?]
  split
  case h_3 rest hr =>
    obtain rfl : cs.reverse = rest := by simpa using hr
    split
    · next hs =>
      rw [hs]
      rfl
    · next before within hs =>
      have hpieces : (cutCommas 0 within).attach.mapM (fun piece ↦ parseBody? (trim piece.1)) =
          (cutCommas 0 within).mapM fun piece ↦ parseBody? (trim piece) := by
        rw [List.mapM_subtype (g := fun piece ↦ parseBody? (trim piece)) fun _ _ ↦ rfl,
          List.unattach_attach]
      rw [hs, Option.bind_some, hpieces]
      dsimp only
      cases parseBody? (trimEnd before) with
      | none => rfl
      | some head =>
        rw [Option.bind_some]
        change (if (!head.isSimple) = true then none else _) = _
        cases head.isSimple with
        | false => rfl
        | true => cases (cutCommas 0 within).mapM fun piece ↦ parseBody? (trim piece) <;> rfl
  all_goals simp_all

theorem parseBody?_of_unmarked_end {cs : List Char} (hand : ∀ rest, cs.reverse ≠ '&' :: rest)
    (hsquare : ∀ rest, cs.reverse ≠ ']' :: rest) (hangle : ∀ rest, cs.reverse ≠ '>' :: rest) :
    parseBody? cs =
      if cs.isEmpty || cs.any isMark then none else some (.simple (String.ofList cs) none) := by
  rw [parseBody?]
  split
  · next heq => exact absurd heq (hand _)
  · next heq => exact absurd heq (hsquare _)
  · next heq => exact absurd heq (hangle _)
  · rfl

theorem parseBody?_of_isPlain {cs : List Char} (h : IsPlain cs) :
    parseBody? cs = some (.simple (String.ofList cs) none) := by
  have hlast {c : Char} {rest : List Char} (hc : isMark c = true) : cs.reverse ≠ c :: rest := by
    intro heq
    have hmem : c ∈ cs := List.mem_reverse.mp (heq ▸ List.mem_cons_self)
    exact absurd (h.unmarked c hmem) (by simp [hc])
  have hplain : ¬(cs.isEmpty || cs.any isMark) = true := by
    simpa [h.ne_nil] using h.unmarked
  rw [parseBody?_of_unmarked_end (fun _ ↦ hlast rfl) (fun _ ↦ hlast rfl) (fun _ ↦ hlast rfl),
    if_neg hplain]

/-- Between the brackets of an array there are commas and blanks, one comma less than the rank. -/
theorem rank?_eq_some_iff {dimensions : List Char} {rank : UInt8} : rank? dimensions = some rank ↔
    (∀ c ∈ dimensions, c = ',' ∨ isBlank c = true) ∧
      dimensions.countP (· == ',') + 1 = rank.toNat := by
  have hall : dimensions.all (fun c ↦ c == ',' || isBlank c) = true ↔
      ∀ c ∈ dimensions, c = ',' ∨ isBlank c = true := by
    simp
  have hrank : (dimensions.countP (· == ',') + 1 < 256 ∧
      UInt8.ofNat (dimensions.countP (· == ',') + 1) = rank) ↔
      dimensions.countP (· == ',') + 1 = rank.toNat := by
    refine ⟨fun ⟨hlt, heq⟩ ↦ ?_, fun h ↦ ⟨h ▸ rank.toNat_lt, by rw [h, UInt8.ofNat_toNat]⟩⟩
    rw [← heq, UInt8.toNat_ofNat', Nat.mod_eq_of_lt hlt]
  rw [rank?, ← hall, ← hrank]
  by_cases h : dimensions.all (fun c ↦ c == ',' || isBlank c) = true
  · rw [if_pos h]
    simp [h]
  · rw [if_neg h]
    simp [h]

theorem rank?_replicate {rank : UInt8} (h : rank ≠ 0) :
    rank? (List.replicate (rank.toNat - 1) ',') = some rank := by
  have hpos : 0 < rank.toNat := Nat.pos_of_ne_zero fun hzero ↦ h (UInt8.toNat_inj.mp hzero)
  refine rank?_eq_some_iff.mpr ⟨fun c hc ↦ .inl (List.eq_of_mem_replicate hc), ?_⟩
  rw [List.countP_replicate, if_pos (beq_self_eq_true ',')]
  omega

/-- A name that is written does not begin or end with a blank. -/
theorem WellFormed.text_trimmed {t : TypeName} (h : t.WellFormed) :
    text t ≠ [] ∧ Trimmed (text t) := by
  have hstart {as : List Char} (bs : List Char) (hne : as ≠ []) (has : trimStart as = as) :
      trimStart (as ++ bs) = as ++ bs := by
    cases as with
    | nil => exact absurd rfl hne
    | cons c as =>
      have hc : isBlank c = false := by
        simpa [trimStart, List.dropWhile_eq_self_iff] using has
      exact trimStart_cons_of_not_blank (as ++ bs) hc
  induction h with
  | simple h =>
    rw [text_simple]
    exact ⟨h.ne_nil, h.trimmed⟩
  | generic h _ _ _ =>
    rw [text_generic, text_simple]
    refine ⟨by simp, ?_, trimEnd_concat_of_not_blank _ rfl⟩
    rw [List.append_assoc]
    exact hstart _ h.ne_nil h.trimmed.start
  | array _ _ ih =>
    rw [text_array]
    refine ⟨by simp, ?_, trimEnd_concat_of_not_blank _ rfl⟩
    rw [List.append_assoc]
    exact hstart _ ih.1 ih.2.start
  | byRef _ ih =>
    rw [text_byRef]
    exact ⟨by simp, hstart _ ih.1 ih.2.start, trimEnd_concat_of_not_blank _ rfl⟩

/-- By induction on the name: the mark at the end of its text is the one that was written last. -/
theorem WellFormed.parseBody?_text {t : TypeName} (h : t.WellFormed) :
    parseBody? (text t) = some t := by
  induction h with
  | @simple name h =>
    rw [text_simple, parseBody?_of_isPlain h, String.ofList_toList]
  | @generic name args h hne hargs ih =>
    have hwithin : ∀ p ∈ args.map text, Balanced false p := by
      intro p hp
      obtain ⟨t, ht, rfl⟩ := List.mem_map.mp hp
      exact (hargs t ht).balanced
    have hpieces : cutCommas 0 (List.intercalate [','] (args.map text)) = args.map text :=
      cutCommas_intercalate (by simpa using hne) hwithin
    have hread : (args.map text).mapM (fun p ↦ parseBody? (trim p)) = some args := by
      have heach : ∀ t ∈ args, parseBody? (trim (text t)) = some t := by
        intro t ht
        rw [(hargs t ht).text_trimmed.2.trim, ih t ht]
      clear hpieces hwithin hne hargs ih
      induction args with
      | nil => rfl
      | cons t args iht =>
        rw [List.map_cons, List.mapM_cons, heach t List.mem_cons_self,
          iht fun t' ht' ↦ heach t' (List.mem_cons_of_mem t ht')]
        rfl
    have hhead : parseBody? (trimEnd name.toList) = some (.simple name none) := by
      rw [h.trimmed.stop, parseBody?_of_isPlain h, String.ofList_toList]
    rw [text_generic, text_simple, parseBody?_concat_angle,
      splitBracket_of_balanced (.inl ⟨rfl, rfl⟩) _ (.intercalate hwithin), Option.bind_some, hhead,
      Option.bind_some, if_pos (show (TypeName.simple name none).isSimple = true from rfl), hpieces,
      hread]
    rfl
  | @array t rank h hrank ih =>
    have hdimensions : Balanced true (List.replicate (rank.toNat - 1) ',') := by
      refine .of_chars fun c hc ↦ ?_
      rw [List.eq_of_mem_replicate hc]
      exact ⟨rfl, fun _ ↦ rfl⟩
    rw [text_array, parseBody?_concat_square,
      splitBracket_of_balanced (.inr ⟨rfl, rfl⟩) _ hdimensions, Option.bind_some,
      rank?_replicate hrank, Option.bind_some, h.text_trimmed.2.stop, ih]
    rfl
  | byRef h ih =>
    rw [text_byRef, parseBody?_concat_and, h.text_trimmed.2.stop, ih]
    rfl

theorem WellFormed.parse?_canonical {t : TypeName} (h : t.WellFormed) :
    parse? t.canonical = some t := by
  have htrim : trim t.canonical.toList = text t := h.text_trimmed.2.trim
  have hcut : cutCommas 0 (text t) = [text t] := by
    have := h.balanced.cutCommas 0 (Int.le_refl 0) nofun []
    simpa [cutCommas, glue] using this
  rw [parse?, htrim, hcut]
  simp only
  rw [h.text_trimmed.2.trim, h.parseBody?_text]

theorem WellFormed.canonical_inj {t u : TypeName} (ht : t.WellFormed) (hu : u.WellFormed)
    (h : t.canonical = u.canonical) : t = u := by
  have hread : parse? t.canonical = some u := h ▸ hu.parse?_canonical
  exact Option.some.inj (ht.parse?_canonical.symm.trans hread)

/-! ### Writing what was read -/

theorem rank_ne_zero {dimensions : List Char} {rank : UInt8} (h : rank? dimensions = some rank) :
    rank ≠ 0 := by
  rintro rfl
  exact absurd (rank?_eq_some_iff.mp h).2 (Nat.succ_ne_zero _)

theorem squeeze_dimensions {dimensions : List Char} {rank : UInt8}
    (h : rank? dimensions = some rank) :
    squeeze dimensions = List.replicate (rank.toNat - 1) ',' := by
  obtain ⟨hall, hrank⟩ := rank?_eq_some_iff.mp h
  rw [← hrank, Nat.add_sub_cancel]
  clear h hrank
  induction dimensions with
  | nil => rfl
  | cons c cs ih =>
    have hcs := ih fun c' hc' ↦ hall c' (List.mem_cons_of_mem c hc')
    by_cases hc : c = ','
    · subst hc
      rw [List.countP_cons_of_pos rfl, List.replicate_succ, ← hcs]
      rfl
    · have hblank : isBlank c = true := (hall c List.mem_cons_self).resolve_left hc
      rw [List.countP_cons_of_neg (by simpa using hc), ← hcs]
      simp [squeeze, hblank]

theorem squeeze_intercalate {parts parts' : List (List Char)}
    (h : List.Forall₂ (fun p q ↦ squeeze p = squeeze q) parts parts') :
    squeeze (List.intercalate [','] parts) = squeeze (List.intercalate [','] parts') := by
  induction h with
  | nil => rfl
  | @cons p q ps qs hpq hrest ih =>
    cases hrest with
    | nil => simpa [List.intercalate_singleton] using hpq
    | cons _ _ =>
      rw [List.intercalate_cons_cons, List.intercalate_cons_cons]
      simp only [squeeze_append, hpq, ih]

theorem forall₂_of_mapM {α β : Type} {f : α → Option β} : {as : List α} → {bs : List β} →
    as.mapM f = some bs → List.Forall₂ (fun a b ↦ f a = some b) as bs
  | [], bs, h => by
    obtain rfl : [] = bs := by simpa using h
    exact .nil
  | a :: as, bs, h => by
    rw [List.mapM_cons] at h
    obtain ⟨b, hb, h⟩ := Option.bind_eq_some_iff.mp h
    obtain ⟨bs', hbs', h⟩ := Option.bind_eq_some_iff.mp h
    obtain rfl : b :: bs' = bs := Option.some.inj h
    exact .cons hb (forall₂_of_mapM hbs')

/-- By induction along the reader: what it cuts off comes back as a mark of the canonical text. -/
theorem parseBody?_some {cs : List Char} {t : TypeName} (hcs : Trimmed cs)
    (h : parseBody? cs = some t) : t.WellFormed ∧ squeeze (text t) = squeeze cs := by
  induction cs using parseBody?.induct generalizing t with
  | case1 cs rest hr ih =>
    obtain rfl : rest.reverse ++ ['&'] = cs := by
      rw [← List.reverse_cons, ← hr, List.reverse_reverse]
    rw [parseBody?_concat_and] at h
    obtain ⟨u, hu, rfl⟩ := Option.map_eq_some_iff.mp h
    obtain ⟨hwell, htext⟩ := ih (trimmed_trimEnd hcs.start) hu
    rw [text_byRef, squeeze_append, squeeze_append, htext, squeeze_trimEnd]
    exact ⟨.byRef hwell, rfl⟩
  | case2 cs rest hr hs =>
    obtain rfl : rest.reverse ++ [']'] = cs := by
      rw [← List.reverse_cons, ← hr, List.reverse_reverse]
    rw [parseBody?_concat_square, List.reverse_reverse, hs] at h
    cases h
  | case3 cs rest hr before dimensions hs ih =>
    obtain rfl : rest.reverse ++ [']'] = cs := by
      rw [← List.reverse_cons, ← hr, List.reverse_reverse]
    rw [parseBody?_concat_square, List.reverse_reverse, hs, Option.bind_some] at h
    obtain ⟨rank, hrank, h⟩ := Option.bind_eq_some_iff.mp h
    obtain ⟨u, hu, rfl⟩ := Option.map_eq_some_iff.mp h
    have hsplit := splitBracket_some hs
    rw [hsplit, List.append_assoc] at hcs
    obtain ⟨hwell, htext⟩ := ih (trimmed_trimEnd hcs.start) hu
    refine ⟨.array hwell (rank_ne_zero hrank), ?_⟩
    have hcommas : squeeze (List.replicate (rank.toNat - 1) ',') = squeeze dimensions := by
      rw [squeeze_dimensions hrank, squeeze, List.filter_replicate_of_pos rfl]
    rw [text_array, hsplit]
    simp only [squeeze_append, squeeze_cons (c := '[') _ rfl, hcommas, htext, squeeze_trimEnd]
  | case4 cs rest hr hs =>
    obtain rfl : rest.reverse ++ ['>'] = cs := by
      rw [← List.reverse_cons, ← hr, List.reverse_reverse]
    rw [parseBody?_concat_angle, List.reverse_reverse, hs] at h
    cases h
  | case5 cs rest hr before within hs ihhead ihargs =>
    obtain rfl : rest.reverse ++ ['>'] = cs := by
      rw [← List.reverse_cons, ← hr, List.reverse_reverse]
    rw [parseBody?_concat_angle, List.reverse_reverse, hs, Option.bind_some] at h
    obtain ⟨head, hhead, h⟩ := Option.bind_eq_some_iff.mp h
    have hsplit := splitBracket_some hs
    rw [hsplit, List.append_assoc] at hcs
    obtain ⟨hwell, htext⟩ := ihhead (trimmed_trimEnd hcs.start) hhead
    cases hwell with
    | @simple name hname =>
      obtain ⟨args, hargs, rfl⟩ := Option.map_eq_some_iff.mp h
      -- every piece is in the reach of the induction, so every argument has its text
      have hpieces : List.Forall₂ (fun t piece ↦ t.WellFormed ∧ squeeze (text t) = squeeze piece)
          args (cutCommas 0 within) := by
        have heach := (List.forall₂_and_left _ _).mpr ⟨fun piece hp ↦ hp, forall₂_of_mapM hargs⟩
        refine (heach.imp fun piece t ⟨hmem, ht⟩ ↦ ?_).flip
        obtain ⟨hwell, htext⟩ := ihargs ⟨piece, hmem⟩ (trimmed_trim piece) ht
        exact ⟨hwell, htext.trans (squeeze_trim piece)⟩
      obtain ⟨hwells, htexts⟩ := (List.forall₂_and_left _ _).mp hpieces
      have hne : args ≠ [] := by
        rintro rfl
        exact cutCommas_ne_nil 0 within (List.forall₂_nil_left_iff.mp hpieces)
      have hwithin : squeeze (List.intercalate [','] (args.map text)) = squeeze within := by
        rw [squeeze_intercalate (List.forall₂_map_left_iff.mpr htexts), intercalate_cutCommas]
      refine ⟨.generic hname hne hwells, ?_⟩
      rw [text_generic, hsplit]
      simp only [squeeze_append, squeeze_cons (c := '<') _ rfl, hwithin, htext, squeeze_trimEnd]
    | generic _ _ _ => cases h
    | array _ _ => cases h
    | byRef _ => cases h
  | case6 cs hbad hand hsquare hangle =>
    rw [parseBody?_of_unmarked_end hand hsquare hangle, if_pos hbad] at h
    cases h
  | case7 cs hplain hand hsquare hangle =>
    rw [parseBody?_of_unmarked_end hand hsquare hangle, if_neg hplain] at h
    obtain rfl : TypeName.simple (String.ofList cs) none = t := Option.some.inj h
    rw [text_simple, String.toList_ofList]
    have hunmarked : cs ≠ [] ∧ ∀ c ∈ cs, isMark c = false := by simpa using hplain
    refine ⟨.simple ?_, rfl⟩
    rw [String.toList_ofList]
    exact ⟨hunmarked.1, hcs.trim, hunmarked.2⟩

theorem canonical_withScope (scope : String) (t : TypeName) :
    (t.withScope scope).canonical = t.canonical := by
  induction t using withScope.induct with
  | case1 => rfl
  | case2 head args ih => rw [withScope, canonical, canonical, ih]
  | case3 element rank ih => rw [withScope, canonical, canonical, ih]
  | case4 inner ih => rw [withScope, canonical, canonical, ih]

/-- The text is, up to blanks, the canonical text of a well-formed name. It may go on with a comma
and a scope, which the name has at its base name only. -/
def IsTextOf (s : String) (t : TypeName) : Prop :=
  ∃ (u : TypeName) (body rest : List Char), u.WellFormed ∧ s.toList = body ++ rest ∧
    squeeze body = squeeze t.canonical.toList ∧
    ((t = u ∧ rest = []) ∨ ∃ scope w, t = u.withScope (String.ofList scope) ∧ scope ≠ [] ∧
      rest = ',' :: w ∧ trim w = scope)

/-- What is read from a text is written as that text, up to blanks. -/
theorem parse?_some {s : String} {t : TypeName} (h : parse? s = some t) : IsTextOf s t := by
  obtain ⟨lead, hlead, hleading⟩ := exists_trimStart s.toList
  obtain ⟨trail, htrail, htrailing⟩ := exists_trimEnd (trimStart s.toList)
  have hs : s.toList = lead ++ trim s.toList ++ trail := by
    conv_lhs => rw [hlead, htrail]
    rw [List.append_assoc]
    rfl
  have hpieces := intercalate_cutCommas 0 (trim s.toList)
  rw [parse?] at h
  split at h
  · next body hcut =>
    rw [hcut, List.intercalate_singleton] at hpieces
    obtain ⟨hwell, htext⟩ := parseBody?_some (trimmed_trim body) h
    refine ⟨t, s.toList, [], hwell, (List.append_nil _).symm, ?_, .inl ⟨rfl, rfl⟩⟩
    rw [← squeeze_trim, ← hpieces, ← squeeze_trim, ← htext]
    rfl
  · next body scope hcut =>
    rw [hcut, List.intercalate_cons_cons, List.intercalate_singleton] at hpieces
    dsimp only at h
    split at h
    · cases h
    · next hscope =>
      obtain ⟨u, hu, rfl⟩ := Option.map_eq_some_iff.mp h
      obtain ⟨hwell, htext⟩ := parseBody?_some (trimmed_trim body) hu
      refine ⟨u, lead ++ body, ',' :: (scope ++ trail), hwell, ?_, ?_,
        .inr ⟨trim scope, scope ++ trail, rfl, by simpa using hscope, rfl, ?_⟩⟩
      · rw [hs, ← hpieces]
        simp
      · rw [squeeze_append, squeeze_of_blank hleading, canonical_withScope, ← squeeze_trim body,
          ← htext]
        rfl
      · exact trim_append_blank scope htrailing
  · cases h

/-- Names and their texts correspond: a well-formed name is read back from its canonical text, and
a text that is read as a name is a text of that name. So well-formed names with the same canonical
text are the same. -/
theorem parse?_canonical_correspond :
    (∀ t : TypeName, t.WellFormed → parse? t.canonical = some t) ∧
    (∀ (s : String) (t : TypeName), parse? s = some t → IsTextOf s t) ∧
    Set.InjOn canonical {t | t.WellFormed} :=
  ⟨fun _ h ↦ h.parse?_canonical, fun _ _ h ↦ parse?_some h, fun _ ht _ hu heq ↦
    WellFormed.canonical_inj ht hu heq⟩

/-- A reference to a table of rank two of pairs of a name and a row. -/
def tableOfPairs : TypeName :=
  .byRef (.array (.generic (.simple "N.Pair" none) [.simple "N.Key" none,
    .array (.simple "My Row" none) 1]) 2)

theorem wellFormed_tableOfPairs : tableOfPairs.WellFormed := by
  refine .byRef (.array (.generic (by decide +kernel) (List.cons_ne_nil _ _) fun t ht ↦ ?_)
    (by decide))
  rcases List.mem_cons.mp ht with rfl | ht
  · exact .simple (by decide +kernel)
  · obtain rfl := List.mem_singleton.mp ht
    exact .array (.simple (by decide +kernel)) (by decide)

/-- The same reference with blanks in it and the module that defines the pair. -/
theorem parse?_tableOfPairs : parse? tableOfPairs.canonical = some tableOfPairs ∧
    parse? " N.Pair < N.Key, My Row[ ] > [,] & , lib " = some (tableOfPairs.withScope "lib") ∧
    IsTextOf " N.Pair < N.Key, My Row[ ] > [,] & , lib " (tableOfPairs.withScope "lib") := by
  have hread : parse? " N.Pair < N.Key, My Row[ ] > [,] & , lib " =
      some (tableOfPairs.withScope "lib") := by
    cbv
  exact ⟨parse?_canonical_correspond.1 _ wellFormed_tableOfPairs, hread,
    parse?_canonical_correspond.2.1 _ _ hread⟩

end TypeName

end ManagedMachine
