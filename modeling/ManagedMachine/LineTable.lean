import ManagedMachine.Token

/-!
Source lines of instructions. The points of a method are kept in the order of their offsets, and
points with one offset in the order in which they were added; the line of an address is that of the
last point not above it. Both the place of a new point and that last point are found by bisection.
-/

set_option autoImplicit false
set_option relaxedAutoImplicit false

namespace ManagedMachine

/-- An offset in a method body with the line that starts there. -/
structure SourcePoint where
  offset : Nat
  line : Nat
  deriving DecidableEq

/-- The source lines of the methods of a module. -/
structure LineTable where
  document : String
  /-- The points of each method that has any. -/
  methods : List (Token × Array SourcePoint)
  deriving Inhabited

namespace LineTable

def empty (document : String) : LineTable := ⟨document, []⟩

/-- Where the points between two places stop to satisfy `p`, if those that do come first. -/
def bisect (points : Array SourcePoint) (p : SourcePoint → Bool) (low high : Nat) : Nat :=
  if low < high then
    let middle := low + (high - low) / 2
    if points[middle]?.any p then bisect points p (middle + 1) high else bisect points p low middle
  else low
termination_by high - low

theorem bisect_le (points : Array SourcePoint) (p : SourcePoint → Bool) (low high : Nat)
    (h : low ≤ high) : bisect points p low high ≤ high := by
  fun_induction bisect points p low high with
  | case1 low high hlt middle hp ih => exact ih (by omega)
  | case2 low high hlt middle hp ih => exact Nat.le_trans (ih (by omega)) (by omega)
  | case3 low high hlt => exact h

/-- The number of points that are not above an offset. -/
def upTo (points : Array SourcePoint) (offset : Nat) : Nat :=
  bisect points (·.offset ≤ offset) 0 points.size

theorem upTo_le_size (points : Array SourcePoint) (offset : Nat) :
    upTo points offset ≤ points.size := bisect_le _ _ _ _ (Nat.zero_le _)

/-- Puts a point after all points that are not above it. -/
def insertPoint (p : SourcePoint) (points : Array SourcePoint) : Array SourcePoint :=
  points.insertIdx (upTo points p.offset) p (upTo_le_size points p.offset)

def points (t : LineTable) (method : Token) : Array SourcePoint :=
  (t.methods.lookup method).getD #[]

/-- Adds a point; of points with one offset, the one added last comes last. -/
def add (t : LineTable) (method : Token) (offset line : Nat) : LineTable :=
  let others := t.methods.filter (·.1 != method)
  { t with methods := (method, insertPoint ⟨offset, line⟩ (t.points method)) :: others }

/-- The line of the last point that is not beyond the offset. -/
def lineFor? (t : LineTable) (method : Token) (offset : Nat) : Option Nat :=
  match upTo (t.points method) offset with
  | 0 => none
  | i + 1 => (t.points method)[i]?.map SourcePoint.line

end LineTable

end ManagedMachine
