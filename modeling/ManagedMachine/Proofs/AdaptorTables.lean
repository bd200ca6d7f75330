import ManagedMachine.Adaptor
import Mathlib

/-!
# Registering adaptors

An adaptor is entered for one host type after the other, after a look at whether any of them has an
adaptor already. That look comes first and changes nothing, so an adaptor for a host type that is
taken is refused as a whole. It does not see a name that the list gives twice: the second time the
adaptor is in its own way, and it stays registered for the names before that.

The look and the entering are told apart: `register_of_taken` is about the look, and `Entered` says
what the entering comes to, as a split of the list of names into those that were entered and the
one, if any, that was refused. The outcome for every table and every list of names
(`register_outcome`) is put together of the two.
-/

set_option autoImplicit false
set_option relaxedAutoImplicit false

namespace ManagedMachine.AdaptorTable

variable {t t' : AdaptorTable} {a : Adaptor} {base : String} {names entered : List String}
  {result : Except Error Unit}

/-- The second table has the adaptor for exactly these names, and for all others what the first one
has. -/
def Adds (t : AdaptorTable) (a : Adaptor) (names : List String) (t' : AdaptorTable) : Prop :=
  ∀ base, t'.find? base = if base ∈ names then some a else t.find? base

/-- Adding nothing. -/
theorem Adds.nil (t : AdaptorTable) (a : Adaptor) : t.Adds a [] t := by
  intro base
  rw [if_neg List.not_mem_nil]

theorem adds_cons (t : AdaptorTable) (a : Adaptor) (base : String) :
    t.Adds a [base] ⟨(base, a) :: t.entries⟩ := by
  intro other
  show List.lookup other ((base, a) :: t.entries) = _
  by_cases h : other = base
  · simp [h]
  · have hne : (other == base) = false := beq_eq_false_iff_ne.mpr h
    simp [hne, h, List.lookup, find?]

/-- Names that are added in two goes are added in one. -/
theorem Adds.trans {t₁ t₂ t₃ : AdaptorTable} {first second : List String}
    (h : t₁.Adds a first t₂) (h' : t₂.Adds a second t₃) : t₁.Adds a (first ++ second) t₃ := by
  intro base
  rw [h' base, h base]
  by_cases hfirst : base ∈ first <;> by_cases hsecond : base ∈ second <;> simp [hfirst, hsecond]

/-- A name is free after some names were added if it is none of them and was free before. -/
theorem Adds.find?_eq_none_iff (h : t.Adds a names t') :
    t'.find? base = none ↔ base ∉ names ∧ t.find? base = none := by
  rw [h base]
  by_cases hbase : base ∈ names <;> simp [hbase]

/-! ### Entering one name after the other -/

/-- What has become of a list of names: the adaptor was entered for the first ones, which were free
and differ, and either these are all, or the next name is one of them or was not free. -/
structure Entered (t : AdaptorTable) (a : Adaptor) (names entered : List String)
    (result : Except Error Unit) (t' : AdaptorTable) : Prop where
  distinct : entered.Nodup
  free : ∀ base ∈ entered, t.find? base = none
  adds : t.Adds a entered t'
  ending : (result = .ok () ∧ names = entered) ∨
    ∃ base rest, result = .error (.adaptorRegistered base) ∧ names = entered ++ base :: rest ∧
      (base ∈ entered ∨ t.find? base ≠ none)

/-- A name that is free is entered, and the rest of the list meets a table in which it is taken. -/
theorem Entered.cons (hfree : t.find? base = none)
    (h : Entered ⟨(base, a) :: t.entries⟩ a names entered result t') :
    Entered t a (base :: names) (base :: entered) result t' := by
  have hadds := adds_cons t a base
  -- what is free with the new entry is another name, and was free without it
  have hother : ∀ other, find? ⟨(base, a) :: t.entries⟩ other = none ↔
      other ≠ base ∧ t.find? other = none := by
    intro other
    rw [hadds.find?_eq_none_iff, List.mem_singleton]
  constructor
  · refine List.nodup_cons.mpr ⟨fun hmem ↦ ?_, h.distinct⟩
    exact ((hother base).mp (h.free base hmem)).1 rfl
  · intro other hmem
    rcases List.mem_cons.mp hmem with rfl | hmem
    · exact hfree
    · exact ((hother other).mp (h.free other hmem)).2
  · exact hadds.trans h.adds
  · rcases h.ending with ⟨hok, rfl⟩ | ⟨next, rest, herror, rfl, hnext⟩
    · exact Or.inl ⟨hok, rfl⟩
    · refine Or.inr ⟨next, rest, herror, rfl, ?_⟩
      by_cases heq : next = base
      · exact Or.inl (heq ▸ List.mem_cons_self)
      · rcases hnext with hmem | htaken
        · exact Or.inl (List.mem_cons_of_mem base hmem)
        · exact Or.inr fun hnone ↦ htaken ((hother next).mpr ⟨heq, hnone⟩)

/-- Entering a list gets some way down it, and what stops it is the first name that is taken by
then. -/
theorem exists_entered (a : Adaptor) (names : List String) (t : AdaptorTable) :
    ∃ entered, Entered t a names entered (enter a names t).1 (enter a names t).2 := by
  induction names generalizing t with
  | nil => exact ⟨[], List.nodup_nil, List.forall_mem_nil _, Adds.nil t a, Or.inl ⟨rfl, rfl⟩⟩
  | cons base rest ih =>
    cases hbase : t.find? base with
    | some other =>
      simp only [enter, hbase]
      refine ⟨[], List.nodup_nil, List.forall_mem_nil _, Adds.nil t a, Or.inr ?_⟩
      exact ⟨base, rest, rfl, rfl, Or.inr (by simp [hbase])⟩
    | none =>
      simp only [enter, hbase]
      obtain ⟨entered, h⟩ := ih ⟨(base, a) :: t.entries⟩
      exact ⟨base :: entered, h.cons hbase⟩

/-! ### Registering -/

/-- A host type that has an adaptor is found before anything is entered. -/
theorem register_of_taken (h : ∃ base ∈ a.bases, t.find? base ≠ none) :
    ∃ base ∈ a.bases, t.register a = (.error (.adaptorRegistered base), t) := by
  obtain ⟨base, hmem, htaken⟩ := h
  cases hfound : a.bases.find? fun base ↦ (t.find? base).isSome with
  | none =>
    exact absurd (List.find?_eq_none.mp hfound base hmem) (by simpa [Option.isSome_iff_ne_none])
  | some first =>
    refine ⟨first, List.mem_of_find?_eq_some hfound, ?_⟩
    rw [register, hfound]

/-- Without a name that is taken beforehand, registering is entering. -/
theorem register_of_free (h : ∀ base ∈ a.bases, t.find? base = none) :
    t.register a = enter a a.bases t := by
  have hnone : (a.bases.find? fun base ↦ (t.find? base).isSome) = none := by
    rw [List.find?_eq_none]
    intro base hmem
    simp [h base hmem]
  rw [register, hnone]

/-- Registering succeeds exactly for distinct names that are all free, and then adds the adaptor for
these names. It fails without a trace if a name is taken. What remains are free names of which one
comes twice: the adaptor stays registered for the names before the second place. -/
theorem register_outcome (t : AdaptorTable) (a : Adaptor) :
    ((t.register a).1 = .ok () ↔ a.bases.Nodup ∧ ∀ base ∈ a.bases, t.find? base = none) ∧
    ((t.register a).1 = .ok () → t.Adds a a.bases (t.register a).2) ∧
    ((∃ base ∈ a.bases, t.find? base ≠ none) →
      ∃ base ∈ a.bases, t.register a = (.error (.adaptorRegistered base), t)) ∧
    ((∀ base ∈ a.bases, t.find? base = none) → ¬a.bases.Nodup →
      ∃ entered base rest, a.bases = entered ++ base :: rest ∧ entered.Nodup ∧ base ∈ entered ∧
        (t.register a).1 = .error (.adaptorRegistered base) ∧
        t.Adds a entered (t.register a).2) := by
  by_cases hfree : ∀ base ∈ a.bases, t.find? base = none
  · obtain ⟨entered, h⟩ := exists_entered a a.bases t
    rw [register_of_free hfree]
    have hnottaken : ¬∃ base ∈ a.bases, t.find? base ≠ none := by
      rintro ⟨base, hmem, htaken⟩
      exact htaken (hfree base hmem)
    rcases h.ending with ⟨hok, heq⟩ | ⟨base, rest, herror, heq, hbase⟩
    · have hdistinct : a.bases.Nodup := heq ▸ h.distinct
      refine ⟨⟨fun _ ↦ ⟨hdistinct, hfree⟩, fun _ ↦ hok⟩, fun _ ↦ heq ▸ h.adds,
        fun htaken ↦ absurd htaken hnottaken, fun _ htwice ↦ absurd hdistinct htwice⟩
    · have hmem : base ∈ entered := by
        refine hbase.resolve_right fun htaken ↦ htaken (hfree base ?_)
        rw [heq]
        exact List.mem_append_right entered List.mem_cons_self
      have htwice : ¬a.bases.Nodup := by
        rw [heq]
        exact fun hnodup ↦ (List.nodup_append.mp hnodup).2.2 base hmem base List.mem_cons_self rfl
      have hfails : (enter a a.bases t).1 ≠ .ok () := by
        rw [herror]
        exact nofun
      refine ⟨⟨fun hok ↦ absurd hok hfails, fun hall ↦ absurd hall.1 htwice⟩,
        fun hok ↦ absurd hok hfails, fun htaken ↦ absurd htaken hnottaken, fun _ _ ↦ ?_⟩
      exact ⟨entered, base, rest, heq, h.distinct, hmem, herror, h.adds⟩
  · have htaken : ∃ base ∈ a.bases, t.find? base ≠ none := by
      simpa only [not_forall, exists_prop] using hfree
    obtain ⟨base, hmem, hrefused⟩ := register_of_taken htaken
    have hfails : (t.register a).1 ≠ .ok () := by
      rw [hrefused]
      exact nofun
    exact ⟨⟨fun hok ↦ absurd hok hfails, fun hall ↦ absurd hall.2 hfree⟩,
      fun hok ↦ absurd hok hfails, fun _ ↦ ⟨base, hmem, hrefused⟩,
      fun hall ↦ absurd hall hfree⟩

/-- An adaptor that names a host type twice is refused, and yet registered for it. -/
theorem register_leaves_adaptor : ¬∀ (t : AdaptorTable) (a : Adaptor) (base : String),
    (t.register a).1 ≠ .ok () → (t.register a).2.find? base = t.find? base := by
  intro h
  have hkept :=
    h .empty ⟨["N.Base", "N.Base"], .plain .class_ "N" "Stand", none⟩ "N.Base" (by decide)
  exact absurd (congrArg Option.isSome hkept) (by decide)

end ManagedMachine.AdaptorTable
