import Mathlib.Data.List.MinMax
import Mathlib.Data.Prod.Lex
import ManagedMachine.Proofs.CatchSelection

/-!
# Selection as a minimum

Selection goes through the table once, with one candidate in hand, and stops where a question
fails. What it computes is a minimum: the candidates are ranked by distance, then by fit, then by
their place in the table, and the clause that is chosen is the least of them. Since the place comes
last, the order of the table decides only between clauses that start together and fit alike.

That the pass over the table is a minimum is an equation between two folds (`bestOf_eq_argmin`), and
the rank is lexicographic, so what the minimum is like can be said one component after the other
(`least_clause_catches`). Answers of a test that depends on nothing but the clause can be given
beforehand (`mapM_answers`), which is what makes the tables that hold the same clauses comparable.
-/

set_option autoImplicit false
set_option relaxedAutoImplicit false

namespace ManagedMachine

/-! ### Ranks -/

namespace Candidate

variable {b c : Candidate}

/-- Distance first, then exact fits before others, then the place in the table. -/
def rank (c : Candidate) : ℕ ×ₗ Bool ×ₗ ℕ :=
  toLex (c.distance, toLex (decide (c.fit ≠ .exact), c.index))

theorem rank_lt_iff : c.rank < b.rank ↔ c.distance < b.distance ∨ c.distance = b.distance ∧
    ((c.fit = .exact ∧ b.fit ≠ .exact) ∨
      (c.fit = .exact ↔ b.fit = .exact) ∧ c.index < b.index) := by
  simp only [rank, Prod.Lex.toLex_lt_toLex]
  cases c.fit <;> cases b.fit <;> simp

theorem rank_lt_of_beats (h : c.beats b = true) : c.rank < b.rank := by
  rw [beats_iff] at h
  exact rank_lt_iff.mpr (h.imp_right fun ⟨hdistance, hfits⟩ ↦ ⟨hdistance, .inl hfits⟩)

/-- Candidates neither of which beats the other differ in their places only. -/
theorem alike_of_not_beats (hcb : c.beats b = false) (hbc : b.beats c = false) :
    c.distance = b.distance ∧ c.fit = b.fit := by
  rw [Bool.eq_false_iff, ne_eq, beats_iff, not_or] at hcb hbc
  have hdistance : c.distance = b.distance := by omega
  refine ⟨hdistance, ?_⟩
  cases hc : c.fit <;> cases hb : b.fit <;> simp_all

/-- A later candidate beats an earlier one just where it ranks before it. -/
theorem beats_iff_rank_lt (h : b.index < c.index) : c.beats b = true ↔ c.rank < b.rank := by
  rw [beats_iff, rank_lt_iff]
  have hnot : ¬c.index < b.index := h.le.not_gt
  simp [hnot]

/-- With a candidate in hand, the pass is the fold that `List.argmin` is defined by. -/
theorem bestOf_some_eq_foldl (found : List Candidate)
    (hsorted : (b :: found).Pairwise fun c d ↦ c.index < d.index) :
    bestOf (some b) found =
      found.foldl (List.argAux fun c d ↦ c.rank < d.rank) (some b) := by
  induction found generalizing b with
  | nil => rfl
  | cons c found ih =>
    obtain ⟨hb, htail⟩ := List.pairwise_cons.mp hsorted
    have hiff := beats_iff_rank_lt (hb c List.mem_cons_self)
    have hfound (d : Candidate) (hd : d ∈ found) := hb d (List.mem_cons_of_mem c hd)
    simp only [bestOf, List.foldl_cons, better, List.argAux]
    by_cases hbeats : c.beats b = true
    · rw [if_pos hbeats, if_pos (hiff.mp hbeats)]
      exact ih htail
    · rw [if_neg hbeats, if_neg (mt hiff.mpr hbeats)]
      exact ih (List.pairwise_cons.mpr ⟨hfound, (List.pairwise_cons.mp htail).2⟩)

/-- The single pass finds the candidate of least rank. -/
theorem bestOf_eq_argmin {found : List Candidate}
    (hsorted : found.Pairwise fun c d ↦ c.index < d.index) :
    bestOf none found = found.argmin rank := by
  cases found with
  | nil => rfl
  | cons c found => exact bestOf_some_eq_foldl found hsorted

end Candidate

/-! ### The questions and their answers -/

/-- The catch clauses that protect `addr`, in the order of the table. -/
def catchers (clauses : List Clause) (addr : Nat) : List (Nat × Clause) :=
  (numbered clauses).filter fun p ↦ p.2.isCatch && p.2.protects addr

/-- The candidates among the clauses in `asked`, given the answer to each of them. -/
def answering (addr : Nat) (asked : List (Nat × Clause)) (answers : List (Option CatchFit)) :
    List Candidate :=
  (asked.zip answers).filterMap fun (p, answer) ↦
    answer.map fun fit ↦ ⟨p.1, addr - p.2.tryStart, fit⟩

variable {addr : Nat}

theorem answering_cons (p : Nat × Clause) (asked : List (Nat × Clause)) (answer : Option CatchFit)
    (answers : List (Option CatchFit)) :
    answering addr (p :: asked) (answer :: answers) =
      (answer.map fun fit ↦ (⟨p.1, addr - p.2.tryStart, fit⟩ : Candidate)).toList ++
        answering addr asked answers := by
  cases answer <;> rfl

theorem exists_mem_of_answering {asked : List (Nat × Clause)} {answers : List (Option CatchFit)}
    {d : Candidate} (hd : d ∈ answering addr asked answers) : ∃ p ∈ asked, d.index = p.1 := by
  obtain ⟨⟨p, answer⟩, hmem, hanswer⟩ := List.mem_filterMap.mp hd
  obtain ⟨fit, -, rfl⟩ := Option.map_eq_some_iff.mp hanswer
  exact ⟨p, (List.of_mem_zip hmem).1, rfl⟩

/-- Candidates come in the order of the table. -/
theorem answering_sorted {asked : List (Nat × Clause)} (answers : List (Option CatchFit))
    (hsorted : asked.Pairwise fun p q ↦ p.1 < q.1) :
    (answering addr asked answers).Pairwise fun c d ↦ c.index < d.index := by
  induction asked generalizing answers with
  | nil => exact .nil
  | cons p asked ih =>
    obtain ⟨hp, hasked⟩ := List.pairwise_cons.mp hsorted
    cases answers with
    | nil => exact .nil
    | cons answer answers =>
      rw [answering_cons]
      cases answer with
      | none => exact ih answers hasked
      | some fit =>
        refine List.pairwise_cons.mpr ⟨fun d hd ↦ ?_, ih answers hasked⟩
        obtain ⟨q, hq, hindex⟩ := exists_mem_of_answering hd
        rw [hindex]
        exact hp q hq

section

variable {m : Type → Type} [Monad m] [LawfulMonad m]

/-- Only catch clauses that protect the address are asked about, each of them once. -/
theorem matching_eq (fits : Nat → Clause → m (Option CatchFit)) (clauses : List (Nat × Clause)) :
    matching fits addr clauses =
      answering addr (clauses.filter fun p ↦ p.2.isCatch && p.2.protects addr) <$>
        (clauses.filter fun p ↦ p.2.isCatch && p.2.protects addr).mapM fun p ↦ fits p.1 p.2 := by
  induction clauses with
  | nil => simp [matching, answering]
  | cons p clauses ih =>
    obtain ⟨index, clause⟩ := p
    unfold matching
    by_cases hasked : (clause.isCatch && clause.protects addr) = true
    · rw [if_pos hasked, List.filter_cons, if_pos hasked, List.mapM_cons]
      simp only [map_bind, map_pure, ih]
      congr 1
      funext answer
      cases answer <;> simp [answering_cons]
    · rw [if_neg hasked, List.filter_cons, if_neg hasked, ih]

/-- Selection asks the catch clauses that protect the address, and takes the least candidate. -/
theorem selectCatch_eq_argmin (clauses : List Clause) (addr : Nat)
    (fits : Nat → Clause → m (Option CatchFit)) :
    selectCatch clauses addr fits =
      (fun answers ↦ ((answering addr (catchers clauses addr) answers).argmin Candidate.rank).map
        Candidate.index) <$> (catchers clauses addr).mapM fun p ↦ fits p.1 p.2 := by
  have hsorted : (catchers clauses addr).Pairwise fun p q ↦ p.1 < q.1 :=
    (numbered_sorted clauses).sublist List.filter_sublist
  have hbest (answers : List (Option CatchFit)) :=
    Candidate.bestOf_eq_argmin (@answering_sorted addr _ answers hsorted)
  unfold selectCatch
  rw [selectFrom_eq, matching_eq, bind_pure_comp, Functor.map_map, Functor.map_map]
  congr 1
  funext answers
  rw [← catchers, hbest]

end

/-! ### Where it stops, and what the order of the table decides -/

section

variable {ε σ α β : Type} {s t u : σ} {e : ε}

/-- A list of questions fails just where one of them does after those before it were answered. -/
theorem mapM_error_iff {ask : α → EStateM ε σ β} {asked : List α} :
    asked.mapM ask s = .error e t ↔ ∃ before p after answers u, asked = before ++ p :: after ∧
      before.mapM ask s = .ok answers u ∧ ask p u = .error e t := by
  induction asked generalizing s with
  | nil =>
    refine ⟨nofun, ?_⟩
    rintro ⟨before, p, after, answers, u, happend, -⟩
    simp at happend
  | cons q asked ih =>
    rw [List.mapM_cons]
    constructor
    · intro h
      cases hq : ask q s with
      | error e' u =>
        rw [bind_of_error hq] at h
        cases h
        exact ⟨[], q, asked, [], s, rfl, rfl, hq⟩
      | ok answer v =>
        rw [bind_of_ok hq] at h
        cases hrest : asked.mapM ask v with
        | ok answers w =>
          rw [bind_of_ok hrest] at h
          cases h
        | error e' w =>
          rw [bind_of_error hrest] at h
          cases h
          obtain ⟨before, p, after, answers, u, rfl, hbefore, hp⟩ := ih.mp hrest
          refine ⟨q :: before, p, after, answer :: answers, u, rfl, ?_, hp⟩
          rw [List.mapM_cons, bind_of_ok hq, bind_of_ok hbefore]
          rfl
    · rintro ⟨before, p, after, answers, u, happend, hbefore, hp⟩
      cases before with
      | nil =>
        obtain ⟨rfl, rfl⟩ := List.cons.inj happend
        cases hbefore
        exact bind_of_error hp
      | cons b before =>
        obtain ⟨rfl, rfl⟩ := List.cons.inj happend
        rw [List.mapM_cons] at hbefore
        obtain ⟨answer, v, hq, hbefore⟩ := exists_of_bind hbefore
        obtain ⟨answers', w, hanswers, hend⟩ := exists_of_bind hbefore
        cases hend
        rw [bind_of_ok hq]
        exact bind_of_error (ih.mpr ⟨before, p, after, answers', _, rfl, hanswers, hp⟩)

/-- If every question has one answer, whatever the state, then these are the answers. -/
theorem mapM_answers {ask : α → EStateM ε σ β} {answer : α → β}
    (hask : ∀ p s b t, ask p s = .ok b t → b = answer p) {asked : List α} {answers : List β}
    (h : asked.mapM ask s = .ok answers t) : answers = asked.map answer := by
  induction asked generalizing s answers with
  | nil =>
    cases h
    rfl
  | cons p asked ih =>
    rw [List.mapM_cons] at h
    obtain ⟨b, u, hp, h⟩ := exists_of_bind h
    obtain ⟨rest, v, hrest, hend⟩ := exists_of_bind h
    cases hend
    rw [hask p s b u hp, ih hrest, List.map_cons]

end

/-- A table with the answers to its clauses, whatever their places in it. -/
def answered (fit : Nat → Clause → Option CatchFit) (clauses : List Clause) :
    List (Clause × Option CatchFit) :=
  (numbered clauses).map fun p ↦ (p.2, fit p.1 p.2)

section

variable {ε σ : Type} {fits fits' : Nat → Clause → EStateM ε σ (Option CatchFit)}
variable {fit fit' : Nat → Clause → Option CatchFit} {clauses clauses' : List Clause}

/-- Clauses and their answers, as a set of pairs that does not know the order of the table. -/
theorem mem_answered {c : Clause} {answer : Option CatchFit} :
    (c, answer) ∈ answered fit clauses ↔ ∃ i, clauses[i]? = some c ∧ fit i c = answer := by
  simp only [answered, List.mem_map, Prod.mk.injEq, Prod.exists]
  constructor
  · rintro ⟨i, d, hmem, rfl, hfit⟩
    exact ⟨i, mem_numbered.mp hmem, hfit⟩
  · rintro ⟨i, hi, hfit⟩
    exact ⟨i, c, mem_numbered.mpr hi, rfl, hfit⟩

/-- Where every question has its answer, the candidates are the clauses answered with a fit. -/
theorem mem_answering {d : Candidate} :
    d ∈ answering addr (catchers clauses addr) ((catchers clauses addr).map fun p ↦ fit p.1 p.2) ↔
      ∃ c, clauses[d.index]? = some c ∧ c.isCatch = true ∧ c.protects addr = true ∧
        d.distance = addr - c.tryStart ∧ fit d.index c = some d.fit := by
  have hzip (asked : List (Nat × Clause)) :
      asked.zip (asked.map fun p ↦ fit p.1 p.2) = asked.map fun p ↦ (p, fit p.1 p.2) := by
    rw [List.zip_map_right, List.zip, List.zipWith_self, List.map_map]
    rfl
  rw [answering, hzip, List.filterMap_map, List.mem_filterMap]
  simp only [catchers, List.mem_filter, Prod.exists, mem_numbered, Bool.and_eq_true,
    Function.comp_apply, Option.map_eq_some_iff]
  constructor
  · rintro ⟨i, c, ⟨hi, hcatch, hprotects⟩, kind, hkind, rfl⟩
    exact ⟨c, hi, hcatch, hprotects, rfl, hkind⟩
  · rintro ⟨c, hi, hcatch, hprotects, hdistance, hfit⟩
    exact ⟨d.index, c, ⟨hi, hcatch, hprotects⟩, d.fit, hfit, by rw [← hdistance]⟩

/-- A table in another order has for each candidate another one that starts and fits as it does. -/
theorem exists_answering_of_perm (hperm : (answered fit clauses).Perm (answered fit' clauses'))
    {d : Candidate} (hd : d ∈ answering addr (catchers clauses addr)
      ((catchers clauses addr).map fun p ↦ fit p.1 p.2)) :
    ∃ d' ∈ answering addr (catchers clauses' addr)
      ((catchers clauses' addr).map fun p ↦ fit' p.1 p.2),
      d'.distance = d.distance ∧ d'.fit = d.fit := by
  obtain ⟨c, hc, hcatch, hprotects, hdistance, hfit⟩ := mem_answering.mp hd
  have hmem := hperm.mem_iff.mp (mem_answered.mpr ⟨d.index, hc, hfit⟩)
  obtain ⟨j, hj, hfit'⟩ := mem_answered.mp hmem
  exact ⟨⟨j, d.distance, d.fit⟩,
    mem_answering.mpr ⟨c, hj, hcatch, hprotects, hdistance, hfit'⟩, rfl, rfl⟩

/-- Selection with a test that has one answer for each clause. -/
theorem selectCatch_answered {s t : σ} {chosen : Option Nat}
    (hfits : ∀ i c s answer t, fits i c s = .ok answer t → answer = fit i c)
    (h : selectCatch clauses addr fits s = .ok chosen t) :
    chosen = ((answering addr (catchers clauses addr)
      ((catchers clauses addr).map fun p ↦ fit p.1 p.2)).argmin Candidate.rank).map
        Candidate.index := by
  rw [selectCatch_eq_argmin, map_eq_pure_bind] at h
  obtain ⟨answers, u, hanswers, hend⟩ := exists_of_bind h
  cases hend
  rw [mapM_answers (fun p s b t hp ↦ hfits p.1 p.2 s b t hp) hanswers]

theorem eq_nil_of_argmin_none {found found' : List Candidate}
    (hfrom : ∀ d' ∈ found', ∃ d ∈ found, d.distance = d'.distance ∧ d.fit = d'.fit)
    (hnone : found.argmin Candidate.rank = none) : found' = [] := by
  refine List.eq_nil_iff_forall_not_mem.mpr fun d' hd' ↦ ?_
  obtain ⟨d, hd, -⟩ := hfrom d' hd'
  rw [List.argmin_eq_none.mp hnone] at hd
  exact List.not_mem_nil hd

/-- The candidates of least rank of two orders of one table start and fit alike. -/
theorem argmin_alike {c c' : Candidate} {found found' : List Candidate}
    (hc : found.argmin Candidate.rank = some c) (hc' : found'.argmin Candidate.rank = some c')
    (hto : ∀ d ∈ found, ∃ d' ∈ found', d'.distance = d.distance ∧ d'.fit = d.fit)
    (hfrom : ∀ d' ∈ found', ∃ d ∈ found, d.distance = d'.distance ∧ d.fit = d'.fit) :
    c.distance = c'.distance ∧ c.fit = c'.fit := by
  obtain ⟨d', hd', hdistance', hfit'⟩ := hto c (List.argmin_mem hc)
  obtain ⟨d, hd, hdistance, hfit⟩ := hfrom c' (List.argmin_mem hc')
  have hc'c : c'.beats c = false := by
    rw [Bool.eq_false_iff]
    intro hbeats
    have hdc : d.beats c = true := by rwa [Candidate.beats, hdistance, hfit]
    exact (Candidate.rank_lt_of_beats hdc).not_ge (List.le_of_mem_argmin hd hc)
  have hcc' : c.beats c' = false := by
    rw [Bool.eq_false_iff]
    intro hbeats
    have hdc' : d'.beats c' = true := by rwa [Candidate.beats, hdistance', hfit']
    exact (Candidate.rank_lt_of_beats hdc').not_ge (List.le_of_mem_argmin hd' hc')
  exact Candidate.alike_of_not_beats hcc' hc'c

/-- Tables in two orders choose clauses that start together and fit alike, or none. -/
theorem selectCatch_of_perm {s s' t t' : σ} {chosen chosen' : Option Nat}
    (hperm : (answered fit clauses).Perm (answered fit' clauses'))
    (hfits : ∀ i c s answer t, fits i c s = .ok answer t → answer = fit i c)
    (hfits' : ∀ i c s answer t, fits' i c s = .ok answer t → answer = fit' i c)
    (h : selectCatch clauses addr fits s = .ok chosen t)
    (h' : selectCatch clauses' addr fits' s' = .ok chosen' t') :
    chosen = none ∧ chosen' = none ∨ ∃ i c j d kind, chosen = some i ∧ clauses[i]? = some c ∧
      chosen' = some j ∧ clauses'[j]? = some d ∧ c.tryStart = d.tryStart ∧
      fit i c = some kind ∧ fit' j d = some kind := by
  have hchosen := selectCatch_answered hfits h
  have hchosen' := selectCatch_answered hfits' h'
  set found := answering addr (catchers clauses addr)
    ((catchers clauses addr).map fun p ↦ fit p.1 p.2)
  set found' := answering addr (catchers clauses' addr)
    ((catchers clauses' addr).map fun p ↦ fit' p.1 p.2)
  have hto (d : Candidate) (hd : d ∈ found) :
      ∃ d' ∈ found', d'.distance = d.distance ∧ d'.fit = d.fit :=
    exists_answering_of_perm hperm hd
  have hfrom (d' : Candidate) (hd' : d' ∈ found') :
      ∃ d ∈ found, d.distance = d'.distance ∧ d.fit = d'.fit :=
    exists_answering_of_perm hperm.symm hd'
  cases hc : found.argmin Candidate.rank with
  | none =>
    rw [eq_nil_of_argmin_none hfrom hc] at hchosen'
    rw [hc] at hchosen
    exact .inl ⟨hchosen, hchosen'⟩
  | some c =>
    cases hc' : found'.argmin Candidate.rank with
    | none =>
      have hmem := List.argmin_mem hc
      rw [eq_nil_of_argmin_none hto hc'] at hmem
      exact absurd hmem List.not_mem_nil
    | some c' =>
      obtain ⟨hdistance, hfit⟩ := argmin_alike hc hc' hto hfrom
      obtain ⟨clause, hclause, -, hprotects, hd, hkind⟩ :=
        mem_answering.mp (List.argmin_mem hc)
      obtain ⟨clause', hclause', -, hprotects', hd', hkind'⟩ :=
        mem_answering.mp (List.argmin_mem hc')
      rw [hc] at hchosen
      rw [hc'] at hchosen'
      rw [← hfit] at hkind'
      refine .inr ⟨c.index, clause, c'.index, clause', c.fit, hchosen, hclause, hchosen', hclause',
        ?_, hkind, hkind'⟩
      simp only [Clause.protects, Bool.and_eq_true, decide_eq_true_eq] at hprotects hprotects'
      omega

/-- Selection asks about the catch clauses that protect the address, in the order of the table. It
fails with the first question that fails. Where all are answered it takes the clause that comes
first by distance, fit and place in the table, or none where none fits; and another order of the
table can only change the choice among clauses that start at one address and fit alike. -/
theorem least_clause_catches (clauses : List Clause) (addr : Nat)
    (fits : Nat → Clause → EStateM ε σ (Option CatchFit)) :
    (∀ s chosen t, selectCatch clauses addr fits s = .ok chosen t ↔
      ∃ answers, ((catchers clauses addr).mapM fun p ↦ fits p.1 p.2) s = .ok answers t ∧
        chosen = ((answering addr (catchers clauses addr) answers).argmin Candidate.rank).map
          Candidate.index) ∧
    (∀ s e t, selectCatch clauses addr fits s = .error e t ↔
      ∃ before p after answers u, catchers clauses addr = before ++ p :: after ∧
        (before.mapM fun p ↦ fits p.1 p.2) s = .ok answers u ∧ fits p.1 p.2 u = .error e t) ∧
    ∀ (clauses' : List Clause) (fits' : Nat → Clause → EStateM ε σ (Option CatchFit))
      (fit fit' : Nat → Clause → Option CatchFit),
      (answered fit clauses).Perm (answered fit' clauses') →
      (∀ i c s answer t, fits i c s = .ok answer t → answer = fit i c) →
      (∀ i c s answer t, fits' i c s = .ok answer t → answer = fit' i c) →
      ∀ s t chosen s' t' chosen', selectCatch clauses addr fits s = .ok chosen t →
        selectCatch clauses' addr fits' s' = .ok chosen' t' →
        chosen = none ∧ chosen' = none ∨ ∃ i c j d kind, chosen = some i ∧ clauses[i]? = some c ∧
          chosen' = some j ∧ clauses'[j]? = some d ∧ c.tryStart = d.tryStart ∧
          fit i c = some kind ∧ fit' j d = some kind := by
  refine ⟨fun s chosen t ↦ ?_, fun s e t ↦ ?_, ?_⟩
  · rw [selectCatch_eq_argmin, map_eq_pure_bind]
    constructor
    · intro h
      obtain ⟨answers, u, hanswers, hend⟩ := exists_of_bind h
      cases hend
      exact ⟨answers, hanswers, rfl⟩
    · rintro ⟨answers, hanswers, rfl⟩
      exact bind_of_ok hanswers
  · rw [selectCatch_eq_argmin, map_eq_pure_bind, ← mapM_error_iff]
    constructor
    · intro h
      cases hasked : ((catchers clauses addr).mapM fun p ↦ fits p.1 p.2) s with
      | ok answers u =>
        rw [bind_of_ok hasked] at h
        cases h
      | error e' u =>
        rw [bind_of_error hasked] at h
        cases h
        rfl
    · exact bind_of_error
  · intro clauses' fits' fit fit' hperm hfits hfits' s t chosen s' t' chosen' h h'
    exact selectCatch_of_perm hperm hfits hfits' h h'

end

/-- Two catch clauses that start together, the outer one first. -/
def Clause.startingTogether : List Clause :=
  [⟨.catch, 0, 10, 20, 21, none⟩, ⟨.catch, 0, 5, 22, 23, none⟩]

/-- A type that every clause catches as a base type. -/
def fitsAll (_ : Nat) (_ : Clause) : EStateM Unit Unit (Option CatchFit) :=
  pure (some .assignable)

/-- Two clauses that start together, in both orders. The one that comes first in its table is
chosen. -/
theorem least_clause_catches_startingTogether :
    (answered (fun _ _ ↦ some .assignable) Clause.startingTogether).Perm
      (answered (fun _ _ ↦ some .assignable) Clause.startingTogether.reverse) ∧
    selectCatch Clause.startingTogether 3 fitsAll () = .ok (some 0) () ∧
    selectCatch Clause.startingTogether.reverse 3 fitsAll () = .ok (some 0) () ∧
    ∃ i c j d kind, some 0 = some i ∧ Clause.startingTogether[i]? = some c ∧
      some 0 = some j ∧ Clause.startingTogether.reverse[j]? = some d ∧ c.tryStart = d.tryStart ∧
      some CatchFit.assignable = some kind ∧ some CatchFit.assignable = some kind := by
  have hperm : (answered (fun _ _ ↦ some .assignable) Clause.startingTogether).Perm
      (answered (fun _ _ ↦ some .assignable) Clause.startingTogether.reverse) :=
    .swap _ _ []
  have hfits (i : Nat) (c : Clause) (s : Unit) (answer : Option CatchFit) (t : Unit)
      (h : fitsAll i c s = .ok answer t) : answer = some .assignable := by
    cases h
    rfl
  have halike := (least_clause_catches Clause.startingTogether 3 fitsAll).2.2
    Clause.startingTogether.reverse fitsAll (fun _ _ ↦ some .assignable)
    (fun _ _ ↦ some .assignable) hperm hfits hfits () () (some 0) () () (some 0) rfl rfl
  exact ⟨hperm, rfl, rfl, halike.resolve_left (by simp)⟩

end ManagedMachine
