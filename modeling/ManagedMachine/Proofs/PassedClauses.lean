import Mathlib.Order.Interval.Set.Basic
import ManagedMachine.Proofs.CatchSelection

/-!
# The clauses that an exception or a leave passes

An exception on its way to a catch clause, an exception on its way out of the frame and a leave each
pass a list of clauses. Every list holds the clauses that it is about once each, and holds a clause
before all those whose ranges strictly enclose its own. Where the ranges around an address nest with
that of a catch clause, the finally clauses that an exception passes on its way to the clause are
those that a leave to its handler passes, in the same order: the two lists are filtered by different
conditions, and sorting keeps to the table where clauses have one range.
-/

set_option autoImplicit false
set_option relaxedAutoImplicit false

namespace ManagedMachine

namespace Clause

/-- The protected addresses. -/
def range (c : Clause) : Set Nat := Set.Icc c.tryStart c.tryEnd

variable {c d : Clause} {addr : Nat}

/-- An address is in the range of a clause if the clause protects it. -/
theorem mem_range : addr ∈ c.range ↔ c.protects addr = true := by simp [range, protects]

theorem tryStart_le_tryEnd (h : c.protects addr = true) : c.tryStart ≤ c.tryEnd :=
  (mem_range.mpr h).1.trans (mem_range.mpr h).2

theorem range_subset_iff (h : c.protects addr = true) :
    c.range ⊆ d.range ↔ d.encloses c = true := by
  rw [range, range, Set.Icc_subset_Icc_iff (tryStart_le_tryEnd h)]
  simp [encloses]

theorem isFinally_or_isFault_iff : c.isFinally = true ∨ c.isFault = true ↔ c.isCatch = false := by
  cases h : c.kind <;> simp [isFinally, isFault, isCatch, h]

end Clause

/-! ### Sorting -/

/-- The order that clauses which protect `addr` are sorted by. -/
def notBehind (addr : Nat) (p q : Nat × Clause) : Bool :=
  addr - p.2.tryStart < addr - q.2.tryStart ||
    (addr - p.2.tryStart == addr - q.2.tryStart &&
      p.2.tryEnd - p.2.tryStart ≤ q.2.tryEnd - q.2.tryStart)

/-- The first clause starts nearer to `addr`, or both start there and it is the shorter one, or both
have one range and the table lists it first. -/
def Precedes (addr : Nat) (p q : Nat × Clause) : Prop :=
  notBehind addr p q = true ∧ (notBehind addr q p = true → p.1 < q.1)

variable {addr : Nat} {p q : Nat × Clause} {selected : List (Nat × Clause)}

theorem innermostFirst_eq (addr : Nat) (selected : List (Nat × Clause)) :
    innermostFirst addr selected = (selected.mergeSort (notBehind addr)).map Prod.fst := rfl

theorem notBehind_trans (addr : Nat) (p q r : Nat × Clause) (h : notBehind addr p q = true)
    (h' : notBehind addr q r = true) : notBehind addr p r = true := by
  simp only [notBehind, Bool.or_eq_true, Bool.and_eq_true, decide_eq_true_eq, beq_iff_eq] at *
  omega

theorem notBehind_total (addr : Nat) (p q : Nat × Clause) :
    (notBehind addr p q || notBehind addr q p) = true := by
  simp only [notBehind, Bool.or_eq_true, Bool.and_eq_true, decide_eq_true_eq, beq_iff_eq]
  omega

theorem Precedes.asymm (h : Precedes addr p q) : ¬Precedes addr q p := fun h' ↦
  (h.2 h'.1).asymm (h'.2 h.1)

/-- Sorting keeps to the table where clauses have one range. -/
theorem precedes_mergeSort (h : selected.Pairwise fun p q ↦ p.1 < q.1) :
    (selected.mergeSort (notBehind addr)).Pairwise (Precedes addr) := by
  induction selected with
  | nil => simp
  | cons p rest ih =>
    obtain ⟨hp, hrest⟩ := List.pairwise_cons.mp h
    obtain ⟨before, behind, hcons, heq, hbefore⟩ :=
      List.mergeSort_cons (notBehind_trans addr) (notBehind_total addr) p rest
    have hsorted :=
      List.pairwise_mergeSort (notBehind_trans addr) (notBehind_total addr) (p :: rest)
    have hothers := ih hrest
    rw [hcons] at hsorted ⊢
    rw [heq] at hothers
    obtain ⟨-, hbehind, -⟩ := List.pairwise_append.mp hsorted
    obtain ⟨hl₁, hl₂, hcross⟩ := List.pairwise_append.mp hothers
    have hmem (q : Nat × Clause) (hq : q ∈ behind) : q ∈ rest :=
      List.mem_mergeSort.mp (heq ▸ List.mem_append_right before hq)
    refine List.pairwise_append.mpr
      ⟨hl₁, List.pairwise_cons.mpr ⟨fun q hq ↦ ?_, hl₂⟩, fun q hq r hr ↦ ?_⟩
    · exact ⟨(List.pairwise_cons.mp hbehind).1 q hq, fun _ ↦ hp q (hmem q hq)⟩
    · rcases List.mem_cons.mp hr with rfl | hr
      · -- The clauses that end up before the first one of the table are strictly nearer.
        have hnot : notBehind addr r q = false := by simpa using hbefore q hq
        have htotal := notBehind_total addr q r
        rw [hnot, Bool.or_false] at htotal
        exact ⟨htotal, fun h ↦ absurd h (by simp [hnot])⟩
      · exact hcross q hq r hr

/-- Leaving clauses out before sorting or after it is the same. -/
theorem filter_mergeSort (keep : Nat × Clause → Bool) (h : selected.Pairwise fun p q ↦ p.1 < q.1) :
    (selected.mergeSort (notBehind addr)).filter keep =
      (selected.filter keep).mergeSort (notBehind addr) := by
  have hunique (p q : Nat × Clause) (hpq : Precedes addr p q) (hqp : Precedes addr q p) : p = q :=
    absurd hqp hpq.asymm
  exact List.Perm.eq_of_pairwise (fun p q _ _ ↦ hunique p q) ((precedes_mergeSort h).filter keep)
    (precedes_mergeSort (h.filter keep))
    (((List.mergeSort_perm _ _).filter keep).trans (List.mergeSort_perm _ _).symm)

/-! ### The lists -/

/-- The positions of the clauses with a property, each once, and each before those of clauses whose
ranges strictly enclose its own. -/
structure ListsOutwards (clauses : List Clause) (P : Clause → Prop) (found : List Nat) : Prop where
  nodup : found.Nodup
  mem_iff : ∀ i, i ∈ found ↔ ∃ c, clauses[i]? = some c ∧ P c
  outwards : ∀ i j c d, i ∈ found → j ∈ found → clauses[i]? = some c → clauses[j]? = some d →
    c.range ⊂ d.range → found.idxOf i < found.idxOf j

variable {clauses : List Clause} {c d : Clause}

/-- A list is about the clauses that satisfy a condition, however the condition is put. -/
theorem ListsOutwards.congr {P Q : Clause → Prop} {found : List Nat}
    (h : ListsOutwards clauses P found) (hPQ : ∀ c, P c ↔ Q c) :
    ListsOutwards clauses Q found := by
  rwa [← funext fun c ↦ propext (hPQ c)]

/-- A clause does not precede one whose range it strictly encloses. -/
theorem not_precedes_of_ssubset {i j : Nat} (hc : c.protects addr = true)
    (hd : d.protects addr = true) (h : c.range ⊂ d.range) : ¬Precedes addr (j, d) (i, c) := by
  intro hdc
  obtain ⟨hsubset, hnot⟩ := h
  rw [Clause.range_subset_iff hc] at hsubset
  rw [Clause.range_subset_iff hd] at hnot
  have hbehind := hdc.1
  simp only [Clause.encloses, Clause.protects, notBehind, Bool.or_eq_true, Bool.and_eq_true,
    decide_eq_true_eq, beq_iff_eq] at *
  omega

/-- Sorting puts nearer clauses first, and keeps to the table where two are equally near. -/
theorem precedes_innermostFirst (hclauses : ∀ p ∈ selected, clauses[p.1]? = some p.2)
    (h : selected.Pairwise fun p q ↦ p.1 < q.1) :
    (innermostFirst addr selected).Pairwise fun i j ↦ ∀ c d, clauses[i]? = some c →
      clauses[j]? = some d → Precedes addr (i, c) (j, d) := by
  rw [innermostFirst_eq, List.pairwise_map]
  refine (precedes_mergeSort h).imp_of_mem fun {p q} hp hq hpq c d hc hd ↦ ?_
  rw [hclauses p (List.mem_mergeSort.mp hp)] at hc
  rw [hclauses q (List.mem_mergeSort.mp hq)] at hd
  cases hc
  cases hd
  exact hpq

/-- Every list that a frame makes of its clauses holds the clauses it is about and goes outwards. -/
theorem listsOutwards (keep : Clause → Bool) (hkeep : ∀ c, keep c = true → c.protects addr = true) :
    ListsOutwards clauses (keep · = true)
      (innermostFirst addr ((numbered clauses).filter fun p ↦ keep p.2)) := by
  have hselected := (numbered_sorted clauses).filter fun p ↦ keep p.2
  set selected := (numbered clauses).filter fun p ↦ keep p.2 with hdef
  have hmem (i : Nat) : i ∈ innermostFirst addr selected ↔
      ∃ c, clauses[i]? = some c ∧ keep c = true := by
    simp [innermostFirst_eq, hdef, mem_numbered]
  have hnodup : (innermostFirst addr selected).Nodup := by
    rw [innermostFirst_eq, ((List.mergeSort_perm _ _).map Prod.fst).nodup_iff]
    exact List.pairwise_map.mpr (hselected.imp fun h ↦ h.ne)
  refine ⟨hnodup, hmem, fun i j c d hi hj hc hd hcd ↦ ?_⟩
  obtain ⟨c', hc', hkeepc⟩ := (hmem i).mp hi
  obtain ⟨d', hd', hkeepd⟩ := (hmem j).mp hj
  obtain rfl : c = c' := Option.some.inj (hc.symm.trans hc')
  obtain rfl : d = d' := Option.some.inj (hd.symm.trans hd')
  have hsorted : (innermostFirst addr selected).Pairwise fun i j ↦ ∀ c d, clauses[i]? = some c →
      clauses[j]? = some d → Precedes addr (i, c) (j, d) :=
    precedes_innermostFirst (fun p hp ↦ mem_numbered.mp (List.mem_of_mem_filter hp)) hselected
  rcases Nat.lt_trichotomy ((innermostFirst addr selected).idxOf i)
    ((innermostFirst addr selected).idxOf j) with hlt | heq | hgt
  · exact hlt
  · obtain rfl := (List.idxOf_inj hi).mp heq
    obtain rfl : c = d := Option.some.inj (hc.symm.trans hd)
    exact absurd rfl hcd.ne
  · have hji := List.pairwise_iff_getElem.mp hsorted _ _ (List.idxOf_lt_length_of_mem hj)
      (List.idxOf_lt_length_of_mem hi) hgt
    rw [List.getElem_idxOf, List.getElem_idxOf] at hji
    exact absurd (hji d c hd hc) (not_precedes_of_ssubset (hkeep c hkeepc) (hkeep d hkeepd) hcd)

/-- The finally clauses among clauses that were listed. -/
theorem filter_innermostFirst (keep : Clause → Bool) (addr : Nat) :
    (innermostFirst addr ((numbered clauses).filter fun p ↦ keep p.2)).filter
        (fun i ↦ clauses[i]?.any Clause.isFinally) =
      innermostFirst addr ((numbered clauses).filter fun p ↦ keep p.2 && p.2.isFinally) := by
  have hselected := (numbered_sorted clauses).filter fun p ↦ keep p.2
  rw [innermostFirst_eq, innermostFirst_eq, List.filter_map]
  congr 1
  calc (((numbered clauses).filter fun p ↦ keep p.2).mergeSort (notBehind addr)).filter
        ((fun i ↦ clauses[i]?.any Clause.isFinally) ∘ Prod.fst)
      = (((numbered clauses).filter fun p ↦ keep p.2).mergeSort (notBehind addr)).filter
        fun p ↦ p.2.isFinally := by
        refine List.filter_congr fun p hp ↦ ?_
        have hp' := List.mem_of_mem_filter (List.mem_mergeSort.mp hp)
        simp [mem_numbered.mp hp']
    _ = ((numbered clauses).filter fun p ↦ keep p.2 && p.2.isFinally).mergeSort
        (notBehind addr) := by
        rw [filter_mergeSort _ hselected, List.filter_filter]
        simp only [Bool.and_comm]

/-! ### Both ways out -/

/-- The clauses that an exception passes on its way to a catch clause, or out of the frame. -/
def passed (addr : Nat) (catcher : Option Clause) (h : Clause) : Bool :=
  !h.isCatch && h.protects addr &&
    match catcher with
    | none => true
    | some catcher => catcher.encloses h && h != catcher

theorem unwindClauses_eq (clauses : List Clause) (addr : Nat) (catcher : Option Clause) :
    unwindClauses clauses addr catcher =
      innermostFirst addr ((numbered clauses).filter fun p ↦ passed addr catcher p.2) := rfl

theorem passed_none {h : Clause} : passed addr none h = true ↔
    (h.isFinally = true ∨ h.isFault = true) ∧ addr ∈ h.range := by
  simp [passed, Clause.isFinally_or_isFault_iff, Clause.mem_range]

/-- A finally or fault clause is no catch clause, so enclosure decides. -/
theorem passed_some {h : Clause} (hcatch : c.isCatch = true) : passed addr (some c) h = true ↔
    (h.isFinally = true ∨ h.isFault = true) ∧ addr ∈ h.range ∧ h.range ⊆ c.range := by
  rw [Clause.isFinally_or_isFault_iff, Clause.mem_range]
  have hne (hh : h.isCatch = false) : h ≠ c := by
    rintro rfl
    exact absurd (hcatch.symm.trans hh) (by decide)
  have hsubset (haddr : h.protects addr = true) := Clause.range_subset_iff (d := c) haddr
  simp only [passed, Bool.and_eq_true, Bool.not_eq_true', bne_iff_ne]
  grind

/-- Every finally or fault clause around `addr` lies inside the range of `c` and leaves the handler
of `c` out, or strictly encloses the range and covers the handler. -/
def Clause.NestedAround (c : Clause) (clauses : List Clause) (addr : Nat) : Prop :=
  ∀ h ∈ clauses, h.isFinally = true ∨ h.isFault = true → addr ∈ h.range →
    h.range ⊆ c.range ∧ c.handlerStart ∉ h.range ∨ c.range ⊂ h.range ∧ c.handlerStart ∈ h.range

/-- Where the protected ranges nest around that of a catch clause, the finally clauses that an
exception passes on its way to the clause are those that a leave to its handler passes, in the same
order. These lists, and that of an exception which leaves the frame, hold each of their clauses once
and before all those whose ranges strictly enclose its own. -/
theorem exception_passes_as_leave (hcatch : c.isCatch = true)
    (hnested : c.NestedAround clauses addr) :
    (unwindClauses clauses addr (some c)).filter (fun i ↦ clauses[i]?.any Clause.isFinally) =
        leaveClauses clauses addr c.handlerStart ∧
      ListsOutwards clauses
        (fun h ↦ (h.isFinally = true ∨ h.isFault = true) ∧ addr ∈ h.range ∧ h.range ⊆ c.range)
        (unwindClauses clauses addr (some c)) ∧
      ListsOutwards clauses
        (fun h ↦ h.isFinally = true ∧ addr ∈ h.range ∧ c.handlerStart ∉ h.range)
        (leaveClauses clauses addr c.handlerStart) ∧
      ListsOutwards clauses (fun h ↦ (h.isFinally = true ∨ h.isFault = true) ∧ addr ∈ h.range)
        (unwindClauses clauses addr none) := by
  have hleave {h : Clause} : (h.isFinally && h.protects addr && !h.protects c.handlerStart) = true ↔
      h.isFinally = true ∧ addr ∈ h.range ∧ c.handlerStart ∉ h.range := by
    simp [Clause.mem_range, and_assoc]
  have hprotects (catcher : Option Clause) (h : Clause) (hh : passed addr catcher h = true) :
      h.protects addr = true := by
    simp only [passed, Bool.and_eq_true] at hh
    exact hh.1.2
  refine ⟨?_, ?_, ?_, ?_⟩
  · rw [unwindClauses_eq, filter_innermostFirst]
    refine congrArg (innermostFirst addr) (List.filter_congr fun p hp ↦ ?_)
    have hp' : p.2 ∈ clauses := List.mem_of_getElem? (mem_numbered.mp hp)
    rw [Bool.eq_iff_iff, hleave, Bool.and_eq_true, passed_some hcatch]
    constructor
    · rintro ⟨⟨hkind, haddr, hsubset⟩, hfinally⟩
      rcases hnested p.2 hp' hkind haddr with ⟨-, hnot⟩ | ⟨hssubset, -⟩
      · exact ⟨hfinally, haddr, hnot⟩
      · exact absurd hsubset hssubset.2
    · rintro ⟨hfinally, haddr, hnot⟩
      rcases hnested p.2 hp' (.inl hfinally) haddr with ⟨hsubset, -⟩ | ⟨-, hcovers⟩
      · exact ⟨⟨.inl hfinally, haddr, hsubset⟩, hfinally⟩
      · exact absurd hcovers hnot
  · exact (listsOutwards _ (hprotects (some c))).congr fun h ↦ passed_some hcatch
  · exact (listsOutwards _ fun h hh ↦ Clause.mem_range.mp (hleave.mp hh).2.1).congr fun h ↦ hleave
  · exact (listsOutwards _ (hprotects none)).congr fun h ↦ passed_none

def Clause.outerCatch : Clause := ⟨.catch, 0, 20, 21, 25, none⟩

/-- A fault clause in a finally clause in the catch clause, and a finally clause around them. -/
def Clause.fourDeep : List Clause :=
  [.outerCatch, ⟨.finally, 2, 10, 11, 12, none⟩, ⟨.fault, 3, 8, 13, 14, none⟩,
    ⟨.finally, 0, 30, 31, 32, none⟩]

/-- In the sample the clauses nest around the address. -/
theorem Clause.nestedAround_fourDeep : outerCatch.NestedAround fourDeep 4 := by
  intro h hh hkind _
  simp only [fourDeep, List.mem_cons, List.not_mem_nil, or_false] at hh
  rcases hh with rfl | rfl | rfl | rfl
  · rcases hkind with hkind | hkind <;> cases hkind
  · refine .inl ⟨Set.Icc_subset_Icc (by decide) (by decide), ?_⟩
    simp [range, outerCatch]
  · refine .inl ⟨Set.Icc_subset_Icc (by decide) (by decide), ?_⟩
    simp [range, outerCatch]
  · refine .inr ⟨Set.Icc_ssubset_Icc_right (by decide) le_rfl (by decide), ?_⟩
    simp [range, outerCatch]

/-- Both lists of the sample, with an outer catch clause and the finally clauses inside of it. -/
theorem exception_passes_as_leave_fourDeep :
    Clause.outerCatch.NestedAround Clause.fourDeep 4 ∧
    (unwindClauses Clause.fourDeep 4 (some .outerCatch)).filter
        (fun i ↦ Clause.fourDeep[i]?.any Clause.isFinally) =
      leaveClauses Clause.fourDeep 4 Clause.outerCatch.handlerStart :=
  ⟨Clause.nestedAround_fourDeep,
    (exception_passes_as_leave rfl Clause.nestedAround_fourDeep).1⟩

end ManagedMachine
