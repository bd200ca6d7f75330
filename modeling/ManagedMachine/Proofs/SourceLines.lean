import ManagedMachine.LineTable
import Mathlib

/-!
# Source lines

Points may be added to a table of source lines in any order. The line of an address is that of the
highest point not above it, and of points with the same offset the latest one counts
(`LineTable.line_of_last_point`). The points of a method are found by bisection, which is right only
where they are sorted; `LineTable.Filed` says that they are, and that points with one offset stand
in the order in which they were added.

Three views of the points of a method are used. The table has an array that is searched by
bisection, `Filed` makes of it a sorted list, and `Mark.Decides` speaks only of the order in which
points were added. Each lemma leads from one view to the next.
-/

set_option autoImplicit false
set_option relaxedAutoImplicit false

namespace ManagedMachine.LineTable

/-- A point of a method, as it is added to a table. -/
structure Mark where
  method : Token
  offset : Nat
  line : Nat

namespace Mark

/-- The point that the call adds. -/
def point (m : Mark) : SourcePoint := ⟨m.offset, m.line⟩

/-- The mark belongs to the method and is not above the offset. -/
def Reaches (m : Mark) (method : Token) (offset : Nat) : Prop :=
  m.method = method ∧ m.offset ≤ offset

/-- Of the marks that reach an address this one is the last among the highest ones. -/
def Decides (m : Mark) (marks : List Mark) (method : Token) (offset : Nat) : Prop :=
  m.Reaches method offset ∧ ∃ before after, marks = before ++ m :: after ∧
    (∀ b ∈ before, b.Reaches method offset → b.offset ≤ m.offset) ∧
    ∀ a ∈ after, a.Reaches method offset → a.offset < m.offset

end Mark

variable {t : LineTable} {marks : List Mark} {points : Array SourcePoint} {p : SourcePoint → Bool}
  {q : SourcePoint} {front back : List SourcePoint} {method : Token} {offset low high : Nat}

/-- The table after some points were added, one after the other. -/
def ofMarks (document : String) (marks : List Mark) : LineTable :=
  marks.foldl (fun t m ↦ t.add m.method m.offset m.line) (.empty document)

/-! ### Bisection -/

/-- Bisection finds the place between the points that satisfy `p` and those that do not. -/
theorem lt_bisect_iff
    (hp : ∀ (i j : Nat) a b, i ≤ j → points[i]? = some a → points[j]? = some b →
      p b = true → p a = true)
    (hlow : ∀ (i : Nat) a, i < low → points[i]? = some a → p a = true)
    (hhigh : ∀ (i : Nat) a, high ≤ i → points[i]? = some a → p a = false)
    (hle : low ≤ high) (hsize : high ≤ points.size) {i : Nat} {a : SourcePoint}
    (ha : points[i]? = some a) : i < bisect points p low high ↔ p a = true := by
  fun_induction bisect points p low high with
  | case1 low high hlt middle hmiddle ih =>
    -- the middle satisfies `p`, and so does everything up to it
    obtain ⟨b, hb, hpb⟩ := Option.any_eq_true _ _ |>.mp hmiddle
    refine ih (fun i a hi ha ↦ ?_) hhigh (by omega) hsize
    exact hp i middle a b (Nat.lt_succ_iff.mp hi) ha hb hpb
  | case2 low high hlt middle hmiddle ih =>
    have hin : middle < points.size := by omega
    have hb : points[middle]? = some points[middle] := Array.getElem?_eq_getElem hin
    have hpb : p points[middle] = false := by
      rw [hb] at hmiddle
      simpa using hmiddle
    refine ih hlow (fun i a hi ha ↦ ?_) (by omega) hin.le
    by_contra hpa
    rw [hp middle i _ a hi hb ha (by simpa using hpa)] at hpb
    cases hpb
  | case3 low high hlt =>
    constructor
    · exact fun hi ↦ hlow i a hi ha
    · intro hpa
      by_contra hi
      rw [hhigh i a (by omega) ha] at hpa
      cases hpa

/-- Sorted points fall into those that are not above an offset and those that are. -/
theorem exists_split (hsorted : points.toList.Pairwise (·.offset ≤ ·.offset)) (offset : Nat) :
    ∃ front back, points.toList = front ++ back ∧ front.length = upTo points offset ∧
      (∀ q ∈ front, q.offset ≤ offset) ∧ ∀ q ∈ back, offset < q.offset := by
  have hmono : ∀ (i j : Nat) (a b : SourcePoint), i ≤ j → points[i]? = some a →
      points[j]? = some b → a.offset ≤ b.offset := by
    intro i j a b hij ha hb
    rcases Nat.lt_or_eq_of_le hij with hij | rfl
    · rw [← Array.getElem?_toList] at ha hb
      obtain ⟨hi, rfl⟩ := List.getElem?_eq_some_iff.mp ha
      obtain ⟨hj, rfl⟩ := List.getElem?_eq_some_iff.mp hb
      exact List.pairwise_iff_getElem.mp hsorted i j hi hj hij
    · cases ha.symm.trans hb
      exact le_rfl
  have hspec : ∀ (i : Nat) (a : SourcePoint), points[i]? = some a →
      (i < upTo points offset ↔ a.offset ≤ offset) := by
    intro i a ha
    have h : i < upTo points offset ↔ decide (a.offset ≤ offset) = true :=
      lt_bisect_iff (fun i j a b hij ha hb hpb ↦ ?_) (fun i a hi _ ↦ absurd hi (Nat.not_lt_zero i))
        (fun i a hi ha ↦ ?_) (Nat.zero_le _) le_rfl ha
    · simpa using h
    · simp only [decide_eq_true_eq] at hpb ⊢
      exact (hmono i j a b hij ha hb).trans hpb
    · rw [Array.getElem?_eq_none hi] at ha
      cases ha
  have hle := upTo_le_size points offset
  refine ⟨points.toList.take (upTo points offset), points.toList.drop (upTo points offset),
    (List.take_append_drop _ _).symm, ?_, fun q hq ↦ ?_, fun q hq ↦ ?_⟩
  · rw [List.length_take, Array.length_toList]
    exact min_eq_left hle
  · obtain ⟨i, hi⟩ := List.mem_iff_getElem?.mp hq
    rw [List.getElem?_take] at hi
    split at hi
    · next hlt => exact (hspec i q (by simpa using hi)).mp hlt
    · cases hi
  · obtain ⟨i, hi⟩ := List.mem_iff_getElem?.mp hq
    rw [List.getElem?_drop] at hi
    have hnot := (hspec (upTo points offset + i) q (by simpa using hi)).not
    omega

/-- Inserting between two parts of a list. -/
theorem insertIdx_length_append {α : Type} (x : α) (front back : List α) :
    (front ++ back).insertIdx front.length x = front ++ x :: back := by
  induction front with
  | nil => rfl
  | cons a front ih => simpa using ih

/-- A point goes behind all points with an offset that is not above its own. -/
theorem toList_insertPoint (hsplit : points.toList = front ++ back)
    (hlength : front.length = upTo points q.offset) :
    (insertPoint q points).toList = front ++ q :: back := by
  rw [insertPoint, Array.toList_insertIdx, hsplit, ← hlength, insertIdx_length_append]

/-- What is looked up is the last one of the points that are not above the offset. -/
theorem lineFor?_of_split (hsplit : (t.points method).toList = front ++ back)
    (hlength : front.length = upTo (t.points method) offset) :
    t.lineFor? method offset = front.getLast?.map SourcePoint.line := by
  rw [lineFor?, ← hlength]
  rcases List.eq_nil_or_concat' front with rfl | ⟨init, last, rfl⟩
  · rfl
  · rw [List.length_append, List.length_singleton, List.getLast?_concat]
    have hlast : (t.points method)[init.length]? = some last := by
      rw [← Array.getElem?_toList, hsplit]
      simp
    simp only [hlast]

/-! ### What a table holds -/

/-- The table holds the marks: the points of each method are sorted, and those with one offset stand
as they were added. -/
structure Filed (t : LineTable) (marks : List Mark) : Prop where
  sorted : ∀ method, (t.points method).toList.Pairwise (·.offset ≤ ·.offset)
  inOrder : ∀ method offset, (t.points method).toList.filter (·.offset = offset) =
    (marks.filter fun m ↦ m.method = method ∧ m.offset = offset).map Mark.point

theorem filed_empty (document : String) : (empty document).Filed [] :=
  ⟨fun _ ↦ List.Pairwise.nil, fun _ _ ↦ rfl⟩

/-- Entries of other keys are found as before. -/
theorem lookup_filter_ne {α β : Type} [DecidableEq α] (entries : List (α × β)) {a b : α}
    (h : a ≠ b) : (entries.filter (·.1 != b)).lookup a = entries.lookup a := by
  induction entries with
  | nil => rfl
  | cons entry entries ih =>
    obtain ⟨c, v⟩ := entry
    by_cases hc : c = b
    · subst hc
      simp [List.lookup_cons, beq_eq_false_iff_ne.mpr h, ih]
    · by_cases ha : a = c
      · subst ha
        simp [hc]
      · simp [List.lookup_cons, hc, beq_eq_false_iff_ne.mpr ha, ih]

/-- Adding a point is about the points of one method. -/
theorem points_add (t : LineTable) (m : Mark) (method : Token) :
    (t.add m.method m.offset m.line).points method =
      if method = m.method then insertPoint m.point (t.points method) else t.points method := by
  by_cases h : method = m.method
  · subst h
    simp [add, points, Mark.point]
  · rw [if_neg h]
    simp only [add, points, List.lookup_cons, beq_eq_false_iff_ne.mpr h, lookup_filter_ne _ h]

/-- A point comes behind those with its offset and in front of the higher ones. -/
theorem Filed.add (h : t.Filed marks) (m : Mark) :
    (t.add m.method m.offset m.line).Filed (marks ++ [m]) := by
  refine ⟨fun method ↦ ?_, fun method offset ↦ ?_⟩
  all_goals rw [points_add]; by_cases hmethod : method = m.method
  · obtain ⟨front, back, hsplit, hlength, hfront, hback⟩ :=
      exists_split (h.sorted method) m.point.offset
    have hsorted := h.sorted method
    rw [hsplit, List.pairwise_append] at hsorted
    obtain ⟨hsortedFront, hsortedBack, hacross⟩ := hsorted
    rw [if_pos hmethod, toList_insertPoint hsplit hlength, List.pairwise_append]
    refine ⟨hsortedFront, List.pairwise_cons.mpr ⟨fun b hb ↦ (hback b hb).le, hsortedBack⟩, ?_⟩
    intro a ha b hb
    rcases List.mem_cons.mp hb with rfl | hb
    · exact hfront a ha
    · exact hacross a ha b hb
  · rw [if_neg hmethod]
    exact h.sorted method
  · obtain ⟨front, back, hsplit, hlength, hfront, hback⟩ :=
      exists_split (h.sorted method) m.point.offset
    have hbefore := h.inOrder method offset
    rw [hsplit, List.filter_append] at hbefore
    rw [if_pos hmethod, toList_insertPoint hsplit hlength, List.filter_append, List.filter_append,
      List.map_append, ← hbefore]
    by_cases hoffset : m.point.offset = offset
    · -- none of the points behind the new one has its offset
      have hnone : back.filter (fun q ↦ q.offset = offset) = [] := by
        rw [List.filter_eq_nil_iff]
        intro b hb
        have hlt := hback b hb
        simp only [decide_eq_true_eq]
        omega
      have hpoint : (m.point :: back).filter (fun q ↦ q.offset = offset) = [m.point] := by
        rw [List.filter_cons_of_pos (by simpa using hoffset), hnone]
      have hmark : [m].filter (fun m ↦ m.method = method ∧ m.offset = offset) = [m] :=
        List.filter_cons_of_pos (decide_eq_true ⟨hmethod.symm, hoffset⟩)
      rw [hpoint, hmark, hnone, List.append_nil, List.map_singleton]
    · have hpoint : (m.point :: back).filter (fun q ↦ q.offset = offset) =
          back.filter fun q ↦ q.offset = offset :=
        List.filter_cons_of_neg (by simpa using hoffset)
      have hmark : [m].filter (fun m ↦ m.method = method ∧ m.offset = offset) = [] :=
        List.filter_cons_of_neg fun hmine ↦ hoffset (of_decide_eq_true hmine).2
      rw [hpoint, hmark, List.map_nil, List.append_nil]
  · rw [if_neg hmethod, h.inOrder, List.filter_append,
      List.filter_cons_of_neg (by simpa using fun heq ↦ absurd heq.symm hmethod)]
    simp

/-- By induction on the order in which the points were added. -/
theorem filed_ofMarks (document : String) (marks : List Mark) :
    (ofMarks document marks).Filed marks := by
  induction marks using List.reverseRecOn with
  | nil => exact filed_empty document
  | append_singleton marks m ih =>
    rw [ofMarks, List.foldl_concat]
    exact ih.add m

/-! ### Looking up -/

/-- No point gets lost, and none is made up. -/
theorem mem_points_iff (h : t.Filed marks) :
    q ∈ (t.points method).toList ↔ ∃ m ∈ marks, m.method = method ∧ m.point = q := by
  have hmem : q ∈ (t.points method).toList ↔
      q ∈ (t.points method).toList.filter (·.offset = q.offset) := by
    rw [List.mem_filter]
    simp
  rw [hmem, h.inOrder, List.mem_map]
  constructor
  · rintro ⟨m, hm, rfl⟩
    obtain ⟨hm, hmethod⟩ := List.mem_filter.mp hm
    exact ⟨m, hm, (of_decide_eq_true hmethod).1, rfl⟩
  · rintro ⟨m, hm, hmethod, rfl⟩
    exact ⟨m, List.mem_filter.mpr ⟨hm, decide_eq_true ⟨hmethod, rfl⟩⟩, rfl⟩

/-- If a line is found, it is that of a deciding mark. -/
theorem Filed.exists_decides (h : t.Filed marks) {line : Nat}
    (hline : t.lineFor? method offset = some line) :
    ∃ m : Mark, m.Decides marks method offset ∧ m.line = line := by
  obtain ⟨front, back, hsplit, hlength, hfront, hback⟩ := exists_split (h.sorted method) offset
  rw [lineFor?_of_split hsplit hlength] at hline
  obtain ⟨last, hlast, rfl⟩ := Option.map_eq_some_iff.mp hline
  obtain ⟨init, rfl⟩ := List.getLast?_eq_some_iff.mp hlast
  have hreach : last.offset ≤ offset := hfront last (by simp)
  have hsorted := h.sorted method
  rw [hsplit, List.pairwise_append, List.pairwise_append] at hsorted
  have hhighest : ∀ q ∈ init, q.offset ≤ last.offset :=
    fun q hq ↦ hsorted.1.2.2 q hq last (List.mem_singleton_self last)
  -- the points with the offset of the last one end with it, and so do the marks
  have hnone : back.filter (fun q ↦ q.offset = last.offset) = [] := by
    rw [List.filter_eq_nil_iff]
    intro b hb
    have hlt := hback b hb
    simp only [decide_eq_true_eq]
    omega
  have hends := h.inOrder method last.offset
  rw [hsplit, List.filter_append, List.filter_append, hnone,
    List.filter_cons_of_pos (by simp), List.filter_nil, List.append_nil] at hends
  obtain ⟨earlier, ending, hmarks, -, hending⟩ := List.map_eq_append_iff.mp hends.symm
  obtain ⟨m, rfl, hm⟩ := List.map_eq_singleton_iff.mp hending
  obtain ⟨before, rest, rfl, -, hrest⟩ := List.filter_eq_append_iff.mp hmarks
  obtain ⟨between, after, rfl, -, hmine, hafter⟩ := List.filter_eq_cons_iff.mp hrest
  obtain ⟨hmethod, hoffset⟩ := of_decide_eq_true hmine
  have hhigh : ∀ m' ∈ before ++ (between ++ m :: after), m'.Reaches method offset →
      m'.offset ≤ m.offset := by
    rintro m' hm' ⟨hmethod', hreach'⟩
    have hmem : m'.point ∈ (t.points method).toList :=
      (mem_points_iff h).mpr ⟨m', hm', hmethod', rfl⟩
    rw [hsplit, List.mem_append, List.mem_append] at hmem
    rw [hoffset]
    rcases hmem with (hmem | hmem) | hmem
    · exact hhighest _ hmem
    · exact (congrArg SourcePoint.offset (List.mem_singleton.mp hmem)).le
    · exact absurd (hback _ hmem) (Nat.not_lt.mpr hreach')
  refine ⟨m, ⟨⟨hmethod, hoffset ▸ hreach⟩, before ++ between, after, by simp, ?_, ?_⟩,
    congrArg SourcePoint.line hm⟩
  · intro b hb hreach'
    refine hhigh b ?_ hreach'
    rcases List.mem_append.mp hb with hb | hb
    · exact List.mem_append_left _ hb
    · exact List.mem_append_right _ (List.mem_append_left _ hb)
  · intro a ha hreach'
    have hle := hhigh a (List.mem_append_right _ (List.mem_append_right _
      (List.mem_cons_of_mem m ha))) hreach'
    refine Nat.lt_of_le_of_ne hle fun heq ↦ ?_
    -- a later mark with the same offset would be the last one
    have hnot := List.filter_eq_nil_iff.mp hafter a ha
    exact hnot (decide_eq_true ⟨hreach'.1, heq.trans hoffset⟩)

/-- No line is found only where no mark reaches. -/
theorem Filed.not_reaches (h : t.Filed marks) (hnone : t.lineFor? method offset = none) :
    ∀ m ∈ marks, ¬m.Reaches method offset := by
  rintro m hm ⟨hmethod, hreach⟩
  obtain ⟨front, back, hsplit, hlength, -, hback⟩ := exists_split (h.sorted method) offset
  rw [lineFor?_of_split hsplit hlength, Option.map_eq_none_iff, List.getLast?_eq_none_iff] at hnone
  have hmem : m.point ∈ (t.points method).toList := (mem_points_iff h).mpr ⟨m, hm, hmethod, rfl⟩
  rw [hsplit, hnone, List.nil_append] at hmem
  exact absurd (hback _ hmem) (Nat.not_lt.mpr hreach)

/-- One mark decides. -/
theorem Mark.Decides.unique {m m' : Mark} {marks : List Mark} {method : Token} {offset : Nat}
    (h : m.Decides marks method offset) (h' : m'.Decides marks method offset) : m' = m := by
  obtain ⟨hreach, before, after, hmarks, hbefore, hafter⟩ := h
  obtain ⟨hreach', before', after', hmarks', hbefore', hafter'⟩ := h'
  rcases List.append_eq_append_iff.mp (hmarks.symm.trans hmarks') with
    ⟨between, heq, hrest⟩ | ⟨between, heq, hrest⟩
  all_goals
    cases between with
    | nil => cases hrest; rfl
    | cons first others => ?_
  · obtain ⟨rfl, rfl⟩ := List.cons_eq_cons.mp hrest
    have hlater := hafter m' (by simp) hreach'
    have hearlier := hbefore' m (by simp [heq]) hreach
    omega
  · obtain ⟨rfl, rfl⟩ := List.cons_eq_cons.mp hrest
    have hlater := hafter' m (by simp) hreach
    have hearlier := hbefore m' (by simp [heq]) hreach'
    omega

/-- The line of an address is that of the highest point of its method that is not above it, of
several such points that of the one added last, and there is none if no point is not above it. -/
theorem line_of_last_point (document : String) (marks : List Mark) (method : Token)
    (offset : Nat) :
    (∀ line, (ofMarks document marks).lineFor? method offset = some line ↔
      ∃ m : Mark, m.Decides marks method offset ∧ m.line = line) ∧
    ((ofMarks document marks).lineFor? method offset = none ↔
      ∀ m ∈ marks, ¬m.Reaches method offset) := by
  have hfiled := filed_ofMarks document marks
  refine ⟨fun line ↦ ⟨hfiled.exists_decides, ?_⟩, hfiled.not_reaches, fun hnone ↦ ?_⟩
  · rintro ⟨m, hdecides, rfl⟩
    cases hline : (ofMarks document marks).lineFor? method offset with
    | none =>
      obtain ⟨hreach, before, after, hmarks, -⟩ := hdecides
      exact absurd hreach (hfiled.not_reaches hline m (by simp [hmarks]))
    | some line =>
      obtain ⟨m', hdecides', rfl⟩ := hfiled.exists_decides hline
      rw [hdecides.unique hdecides']
  · cases hline : (ofMarks document marks).lineFor? method offset with
    | none => rfl
    | some line =>
      obtain ⟨m, ⟨hreach, before, after, hmarks, -⟩, -⟩ := hfiled.exists_decides hline
      exact absurd hreach (hnone m (by simp [hmarks]))

end ManagedMachine.LineTable
