import ManagedMachine.Clause
import ManagedMachine.Proofs.Keeping

/-!
# The clause that catches an exception

Selection asks the catch clauses that protect an address in turn, and takes the first of those that
fit which no other one beats. A clause whose range lies strictly inside the range of the chosen one
is passed over only where the two ranges start at the same address: distances are measured from
there, so the exactness of the fit and the order of the table decide between such clauses, and the
length of the range does not.

The choice is made by a comparison of two clauses (`Candidate.beats`) that looks at distances first,
then at how exact the fit is. It is transitive enough to have a winner in every list in which the
clauses stand in the order of the table (`exists_wins`), and the winner is unique. What that means
in terms of ranges is said by `innermost_clause_catches`: no range strictly inside the chosen one is
passed over, but for those that begin at the same address, and `outer_clause_catches` shows that
those are.
-/

set_option autoImplicit false
set_option relaxedAutoImplicit false

namespace ManagedMachine

/-! ### Comparing candidates -/

namespace Candidate

variable {a b c : Candidate}

/-- The nearer beginning wins. At the same distance only an exact fit beats, and only one that is
not. -/
theorem beats_iff : c.beats b = true ↔ c.distance < b.distance ∨
    c.distance = b.distance ∧ c.fit = .exact ∧ b.fit ≠ .exact := by
  simp [beats, and_assoc]

/-- Two clauses do not beat each other. -/
theorem not_beats_of_beats (h : a.beats b = true) : b.beats a = false := by
  rw [Bool.eq_false_iff, ne_eq, beats_iff]
  rw [beats_iff] at h
  rintro (hlt | ⟨heq, hexact, hnot⟩)
  · omega
  · rcases h with h | ⟨-, -, h⟩
    · omega
    · exact h hexact

/-- Whoever is beaten is beaten by everyone whom the winner does not beat. -/
theorem beats_or_beats (c : Candidate) (h : a.beats b = true) :
    a.beats c = true ∨ c.beats b = true := by
  simp only [beats_iff] at h ⊢
  by_cases hc : c.fit = .exact <;> grind

/-- The candidate left after `best` and those that follow it. -/
def bestOf (best : Option Candidate) (found : List Candidate) : Option Candidate :=
  found.foldl (fun best c ↦ some (better best c)) best

/-- No candidate beats the winner, and the winner beats all those that the table lists before it. -/
structure Wins (c : Candidate) (found : List Candidate) : Prop where
  mem : c ∈ found
  unbeaten : ∀ d ∈ found, d.beats c = false
  earliest : ∀ d ∈ found, c.beats d = false → c.index ≤ d.index

theorem Wins.single (c : Candidate) : Wins c [c] where
  mem := List.mem_singleton_self c
  unbeaten := by
    intro d hd
    rw [List.mem_singleton.mp hd, Bool.eq_false_iff]
    exact fun h ↦ absurd (not_beats_of_beats h) (by simp [h])
  earliest := by
    intro d hd _
    rw [List.mem_singleton.mp hd]

/-- A candidate that is beaten does not change the winner. -/
theorem Wins.of_beats {found : List Candidate} (h : Wins c (a :: found)) (hab : a.beats b = true) :
    Wins c (b :: a :: found) := by
  have ha := h.unbeaten a List.mem_cons_self
  have hcb : c.beats b = true := (beats_or_beats c hab).resolve_left (by simp [ha])
  refine ⟨List.mem_cons_of_mem b h.mem, fun d hd ↦ ?_, fun d hd hcd ↦ ?_⟩
  · rcases List.mem_cons.mp hd with rfl | hd
    · exact not_beats_of_beats hcb
    · exact h.unbeaten d hd
  · rcases List.mem_cons.mp hd with rfl | hd
    · exact absurd hcd (by simp [hcb])
    · exact h.earliest d hd hcd

/-- A later candidate that does not beat the one before it does not change the winner. -/
theorem Wins.of_not_beats {found : List Candidate} (h : Wins c (b :: found))
    (hab : a.beats b = false) (hindex : b.index < a.index)
    (hrest : ∀ d ∈ found, b.index < d.index) :
    Wins c (b :: a :: found) := by
  have hb := h.unbeaten b List.mem_cons_self
  refine ⟨?_, fun d hd ↦ ?_, fun d hd hcd ↦ ?_⟩
  · rcases List.mem_cons.mp h.mem with rfl | hc
    · exact List.mem_cons_self
    · exact List.mem_cons_of_mem b (List.mem_cons_of_mem a hc)
  · simp only [List.mem_cons] at hd
    rcases hd with rfl | rfl | hd
    · exact hb
    · by_contra hac
      rw [Bool.not_eq_false] at hac
      rcases beats_or_beats b hac with h | h
      · exact absurd h (by simp [hab])
      · exact absurd h (by simp [hb])
    · exact h.unbeaten d (List.mem_cons_of_mem b hd)
  · simp only [List.mem_cons] at hd
    rcases hd with rfl | rfl | hd
    · exact h.earliest d List.mem_cons_self hcd
    · rcases List.mem_cons.mp h.mem with rfl | hc
      · exact hindex.le
      · -- The winner comes after `b` and so beats it, and with it everyone who does not.
        have hcb : c.beats b = true := by
          by_contra hcb
          rw [Bool.not_eq_true] at hcb
          exact absurd (h.earliest b List.mem_cons_self hcb) (hrest c hc).not_ge
        rcases beats_or_beats d hcb with h | h
        · exact absurd h (by simp [hcd])
        · exact absurd h (by simp [hab])
    · exact h.earliest d (List.mem_cons_of_mem b hd) hcd

/-- A pass over the list keeps the best clause so far, and ends with one that none of the list
beats. -/
theorem exists_wins (b : Candidate) (found : List Candidate)
    (hsorted : (b :: found).Pairwise fun c d ↦ c.index < d.index) :
    ∃ c, bestOf (some b) found = some c ∧ Wins c (b :: found) := by
  induction found generalizing b with
  | nil => exact ⟨b, rfl, .single b⟩
  | cons a found ih =>
    obtain ⟨hb, htail⟩ := List.pairwise_cons.mp hsorted
    cases hab : a.beats b with
    | true =>
      obtain ⟨c, hbest, hwins⟩ := ih a htail
      refine ⟨c, .trans ?_ hbest, hwins.of_beats hab⟩
      simp only [bestOf, List.foldl_cons, better, hab, if_true]
    | false =>
      have hfound (d : Candidate) (hd : d ∈ found) := hb d (List.mem_cons_of_mem a hd)
      obtain ⟨c, hbest, hwins⟩ :=
        ih b (List.pairwise_cons.mpr ⟨hfound, (List.pairwise_cons.mp htail).2⟩)
      refine ⟨c, .trans ?_ hbest, hwins.of_not_beats hab (hb a List.mem_cons_self) hfound⟩
      simp only [bestOf, List.foldl_cons, better, hab, Bool.false_eq_true, if_false]

theorem wins_of_bestOf {found : List Candidate} (h : bestOf none found = some c)
    (hsorted : found.Pairwise fun c d ↦ c.index < d.index) : Wins c found := by
  cases found with
  | nil => cases h
  | cons b found =>
    obtain ⟨c', hbest, hwins⟩ := exists_wins b found hsorted
    obtain rfl : c' = c := Option.some.inj (hbest.symm.trans h)
    exact hwins

end Candidate

/-! ### The clauses that fit -/

variable {m : Type → Type} [Monad m]

/-- The candidates among the catch clauses that protect an address, each clause asked in turn. -/
def matching (fits : Nat → Clause → m (Option CatchFit)) (addr : Nat) :
    List (Nat × Clause) → m (List Candidate)
  | [] => pure []
  | (index, clause) :: rest =>
    if clause.isCatch && clause.protects addr then do
      match ← fits index clause with
      | none => matching fits addr rest
      | some fit => return ⟨index, addr - clause.tryStart, fit⟩ :: (← matching fits addr rest)
    else matching fits addr rest

/-- Selection takes the best of the clauses that fit. -/
theorem selectFrom_eq [LawfulMonad m] (fits : Nat → Clause → m (Option CatchFit)) (addr : Nat)
    (best : Option Candidate) (clauses : List (Nat × Clause)) :
    selectFrom fits addr best clauses =
      Candidate.bestOf best <$> matching fits addr clauses := by
  induction clauses generalizing best with
  | nil => simp [selectFrom, matching, Candidate.bestOf]
  | cons p rest ih =>
    obtain ⟨index, clause⟩ := p
    unfold selectFrom matching
    split
    · rw [map_bind]
      congr 1
      funext fit
      cases fit with
      | none => exact ih best
      | some fit =>
        simp only [ih, bind_pure_comp, Functor.map_map]
        rfl
    · exact ih best

section

variable {ε σ : Type} {fits : Nat → Clause → EStateM ε σ (Option CatchFit)} {addr : Nat} {s t : σ}
variable {clauses : List (Nat × Clause)} {found : List Candidate}

/-- The clauses are asked from the first one on. A clause that does not protect the address is not
asked. -/
theorem matching_cons {p : Nat × Clause} (h : matching fits addr (p :: clauses) s = .ok found t) :
    ∃ u rest, matching fits addr clauses u = .ok rest t ∧ (found = rest ∨
      ∃ fit, (p.2.isCatch && p.2.protects addr) = true ∧
        found = ⟨p.1, addr - p.2.tryStart, fit⟩ :: rest) := by
  obtain ⟨index, clause⟩ := p
  unfold matching at h
  split at h
  · next hprotects =>
    obtain ⟨fit, u, -, hrest⟩ := exists_of_bind h
    cases fit with
    | none => exact ⟨u, found, hrest, .inl rfl⟩
    | some fit =>
      obtain ⟨rest, u', hfound, hend⟩ := exists_of_bind hrest
      cases hend
      exact ⟨u, rest, hfound, .inr ⟨fit, hprotects, rfl⟩⟩
  · exact ⟨s, found, h, .inl rfl⟩

/-- A candidate stands for a catch clause that protects the address. -/
theorem clause_of_matching (h : matching fits addr clauses s = .ok found t) {d : Candidate}
    (hd : d ∈ found) : ∃ clause, (d.index, clause) ∈ clauses ∧ clause.isCatch = true ∧
      clause.protects addr = true ∧ d.distance = addr - clause.tryStart := by
  induction clauses generalizing s found with
  | nil =>
    cases h
    cases hd
  | cons p clauses ih =>
    obtain ⟨u, rest, hrest, rfl | ⟨fit, hprotects, rfl⟩⟩ := matching_cons h
    · obtain ⟨clause, hmem, hclause⟩ := ih hrest hd
      exact ⟨clause, List.mem_cons_of_mem p hmem, hclause⟩
    · rcases List.mem_cons.mp hd with rfl | hd
      · obtain ⟨hcatch, haddr⟩ := Bool.and_eq_true_iff.mp hprotects
        exact ⟨p.2, List.mem_cons_self, hcatch, haddr, rfl⟩
      · obtain ⟨clause, hmem, hclause⟩ := ih hrest hd
        exact ⟨clause, List.mem_cons_of_mem p hmem, hclause⟩

/-- Candidates come in the order of the table. -/
theorem matching_sorted (h : matching fits addr clauses s = .ok found t)
    (hsorted : clauses.Pairwise fun p q ↦ p.1 < q.1) :
    found.Pairwise fun c d ↦ c.index < d.index := by
  induction clauses generalizing s found with
  | nil =>
    cases h
    exact .nil
  | cons p clauses ih =>
    obtain ⟨hp, hclauses⟩ := List.pairwise_cons.mp hsorted
    obtain ⟨u, rest, hrest, rfl | ⟨fit, -, rfl⟩⟩ := matching_cons h
    · exact ih hrest hclauses
    · refine List.pairwise_cons.mpr ⟨fun d hd ↦ ?_, ih hrest hclauses⟩
      obtain ⟨clause, hmem, -⟩ := clause_of_matching hrest hd
      exact hp _ hmem

end

theorem mem_numbered {clauses : List Clause} {i : Nat} {c : Clause} :
    (i, c) ∈ numbered clauses ↔ clauses[i]? = some c := by
  simp [numbered, List.mem_zipIdx_iff_getElem?]

theorem numbered_sorted (clauses : List Clause) :
    (numbered clauses).Pairwise fun p q ↦ p.1 < q.1 := by
  have hindices : ((numbered clauses).map Prod.fst).Pairwise (· < ·) := by
    have hfst : (numbered clauses).map Prod.fst = List.range' 0 clauses.length := by
      rw [numbered, List.map_map, ← List.zipIdx_map_snd]
      rfl
    rw [hfst]
    exact List.pairwise_lt_range'
  exact List.pairwise_map.mp hindices

/-! ### The innermost clause -/

namespace Clause

/-- The protected range of `c` lies inside that of `other` and is another one. -/
def StrictlyWithin (c other : Clause) : Prop :=
  other.encloses c = true ∧ c.encloses other = false

/-- The protected ranges of two clauses are nested or have no address in common. -/
def Nested (c d : Clause) : Prop :=
  c.encloses d = true ∨ d.encloses c = true ∨ c.tryEnd < d.tryStart ∨ d.tryEnd < c.tryStart

instance (c other : Clause) : Decidable (c.StrictlyWithin other) :=
  inferInstanceAs (Decidable (_ ∧ _))

instance (c d : Clause) : Decidable (c.Nested d) :=
  inferInstanceAs (Decidable (_ ∨ _))

end Clause

section

variable {ε σ : Type} {fits : Nat → Clause → EStateM ε σ (Option CatchFit)} {addr : Nat} {s t : σ}
variable {clauses : List Clause} {found : List Candidate} {i : Nat}

/-- The clause that receives an exception is the winner among those that fit. -/
theorem wins_of_selectCatch (h : selectCatch clauses addr fits s = .ok (some i) t) :
    ∃ (found : List Candidate) (c : Candidate),
      matching fits addr (numbered clauses) s = .ok found t ∧ c.index = i ∧ c.Wins found := by
  unfold selectCatch at h
  rw [selectFrom_eq, map_eq_pure_bind, bind_assoc] at h
  obtain ⟨found, u, hfound, hselected⟩ := exists_of_bind h
  rw [pure_bind] at hselected
  cases hbest : Candidate.bestOf none found with
  | none =>
    rw [hbest] at hselected
    cases hselected
  | some c =>
    rw [hbest] at hselected
    cases hselected
    have hsorted := matching_sorted hfound (numbered_sorted clauses)
    exact ⟨found, c, hfound, rfl, Candidate.wins_of_bestOf hbest hsorted⟩

/-- An exception goes to an innermost clause among those that fit it, up to clauses that start at
the same address: of these, an exact fit comes before others, and then the table decides. -/
theorem innermost_clause_catches (h : selectCatch clauses addr fits s = .ok (some i) t) :
    ∃ (found : List Candidate) (c : Candidate) (clause : Clause),
      matching fits addr (numbered clauses) s = .ok found t ∧ c ∈ found ∧ c.index = i ∧
      clauses[i]? = some clause ∧ ∀ d ∈ found, ∀ other, clauses[d.index]? = some other →
      other.StrictlyWithin clause →
        other.tryStart = clause.tryStart ∧
          (c.fit = .exact ∧ d.fit ≠ .exact ∨ c.fit = d.fit ∧ i < d.index) := by
  obtain ⟨found, c, hfound, rfl, hwins⟩ := wins_of_selectCatch h
  obtain ⟨clause, hclause, -, haddr, hdistance⟩ := clause_of_matching hfound hwins.mem
  rw [mem_numbered] at hclause
  refine ⟨found, c, clause, hfound, hwins.mem, rfl, hclause, fun d hd other hother hwithin ↦ ?_⟩
  obtain ⟨other', hother', -, haddr', hdistance'⟩ := clause_of_matching hfound hd
  rw [mem_numbered, hother] at hother'
  obtain rfl := Option.some.inj hother'
  have hunbeaten := hwins.unbeaten d hd
  rw [Bool.eq_false_iff, ne_eq, Candidate.beats_iff] at hunbeaten
  have hstart : other.tryStart = clause.tryStart := by
    obtain ⟨hencloses, -⟩ := hwithin
    simp only [Clause.encloses, Clause.protects, Bool.and_eq_true, decide_eq_true_eq]
      at hencloses haddr haddr'
    omega
  have hsame : d.distance = c.distance := by omega
  refine ⟨hstart, ?_⟩
  by_cases hfit : c.fit = d.fit
  · have hne : d.index ≠ c.index := by
      intro hindex
      rw [hindex, hclause] at hother
      cases hother
      exact absurd (hwithin.1.symm.trans hwithin.2) (by decide)
    have hdraw : c.beats d = false := by
      rw [Bool.eq_false_iff, ne_eq, Candidate.beats_iff, hsame, hfit]
      simp
    exact .inr ⟨hfit, Nat.lt_of_le_of_ne (hwins.earliest d hd hdraw) hne.symm⟩
  · refine .inl ?_
    cases hc : c.fit <;> cases hd' : d.fit <;> simp_all

end

/-- Two catch clauses, the outer one first. -/
def Clause.outerFirst : List Clause :=
  [⟨.catch, 0, 10, 20, 21, none⟩, ⟨.catch, 2, 5, 22, 23, none⟩]

/-- Every clause fits an exception, the outer one exactly. -/
def fitsOuterFirst (i : Nat) (_ : Clause) : EStateM Unit Unit (Option CatchFit) :=
  pure (some (if i = 0 then .exact else .assignable))

theorem innermost_clause_catches_outerFirst :
    selectCatch Clause.outerFirst 3 fitsOuterFirst () = .ok (some 1) () ∧
    ∃ (found : List Candidate) (c : Candidate) (clause : Clause),
      matching fitsOuterFirst 3 (numbered Clause.outerFirst) () = .ok found () ∧ c ∈ found ∧
      c.index = 1 ∧ Clause.outerFirst[1]? = some clause ∧ ∀ d ∈ found, ∀ other,
        Clause.outerFirst[d.index]? = some other → other.StrictlyWithin clause →
          other.tryStart = clause.tryStart ∧
            (c.fit = .exact ∧ d.fit ≠ .exact ∨ c.fit = d.fit ∧ 1 < d.index) :=
  ⟨rfl, innermost_clause_catches rfl⟩

/-- Where the ranges of two clauses start together, the outer one may catch although the inner one
fits as well. -/
theorem outer_clause_catches : ¬∀ (clauses : List Clause) (addr i : Nat) (found : List Candidate)
    (fits : Nat → Clause → EStateM Unit Unit (Option CatchFit)),
    (∀ c ∈ clauses, ∀ d ∈ clauses, c.Nested d) →
    selectCatch clauses addr fits () = .ok (some i) () →
    matching fits addr (numbered clauses) () = .ok found () →
    ∀ d ∈ found, ∀ clause other, clauses[i]? = some clause → clauses[d.index]? = some other →
      ¬other.StrictlyWithin clause := by
  intro h
  refine h [⟨.catch, 0, 10, 20, 21, none⟩, ⟨.catch, 0, 5, 22, 23, none⟩] 3 0
    [⟨0, 3, .assignable⟩, ⟨1, 3, .assignable⟩] (fun _ _ ↦ pure (some .assignable)) ?_ rfl rfl
    ⟨1, 3, .assignable⟩ (by simp) _ _ rfl rfl ?_
  · decide
  · decide

end ManagedMachine
