import ManagedMachine.Token

/-!
Exception clauses of a method body, and which of them an address concerns. A clause protects an
inclusive range of instruction addresses. A raised exception goes to the catch clause chosen by
`selectCatch`; on the way there it passes the finally and fault clauses of `unwindClauses`. A leave
passes the finally clauses of `leaveClauses`. Lists of clauses are lists of positions in the table,
innermost first.
-/

set_option autoImplicit false
set_option relaxedAutoImplicit false

namespace ManagedMachine

/-- What a clause is entered for. -/
inductive ClauseKind where
  | catch
  | finally
  | fault
  deriving DecidableEq

/-- A protected range with its handler. All bounds are addresses, and the ends are inclusive. -/
structure Clause where
  kind : ClauseKind
  tryStart : Nat
  tryEnd : Nat
  handlerStart : Nat
  handlerEnd : Nat
  /-- What a catch clause catches; without it, everything. -/
  catchType : Option Token
  deriving DecidableEq

instance : Inhabited Clause := ⟨⟨.catch, 0, 0, 0, 0, none⟩⟩

namespace Clause

def isCatch (c : Clause) : Bool := c.kind == .catch

def isFinally (c : Clause) : Bool := c.kind == .finally

def isFault (c : Clause) : Bool := c.kind == .fault

/-- Whether the address is in the protected range. -/
def protects (c : Clause) (addr : Nat) : Bool := c.tryStart ≤ addr && addr ≤ c.tryEnd

/-- Does the protected range of `c` contain that of `other`? -/
def encloses (c other : Clause) : Bool := c.tryStart ≤ other.tryStart && other.tryEnd ≤ c.tryEnd

/-- Does the handler of `c` contain `addr`? -/
def handles (c : Clause) (addr : Nat) : Bool := c.handlerStart ≤ addr && addr ≤ c.handlerEnd

def flagText : ClauseKind → String
  | .catch => "0x0"
  | .finally => "FINALLY"
  | .fault => "FAULT"

/-- The clause in a diagnostic. -/
def describe (c : Clause) : String :=
  let fields := String.intercalate ", "
    [s!"flags: ExceptionHandlerFlags({flagText c.kind})", s!"try_start: {c.tryStart}",
      s!"try_end: {c.tryEnd}", s!"handler_start: {c.handlerStart}",
      s!"handler_end: {c.handlerEnd}",
      "catch_type: " ++ (c.catchType.map fun t => s!"Some({t.describe})").getD "None"]
  "ExceptionHandler \x7b " ++ fields ++ " \x7d"

end Clause

/-- How well a catch clause fits an exception: its type exactly, or a base type of it. -/
inductive CatchFit where
  | exact
  | assignable
  deriving DecidableEq

/-- A catch clause that fits, with the distance from the start of its range. -/
structure Candidate where
  index : Nat
  distance : Nat
  fit : CatchFit
  deriving DecidableEq

namespace Candidate

/-- A nearer range wins, then an exact fit; otherwise the earlier clause stays. -/
def beats (c best : Candidate) : Bool :=
  c.distance < best.distance ||
    (c.distance == best.distance && c.fit == .exact && best.fit != .exact)

/-- The candidate that is kept of the best one so far and the next: a tie leaves the earlier one. -/
def better (best : Option Candidate) (c : Candidate) : Candidate :=
  match best with
  | none => c
  | some b => if c.beats b then c else b

end Candidate

/-- The clauses with their positions in the table. -/
def numbered (clauses : List Clause) : List (Nat × Clause) :=
  clauses.zipIdx.map fun (c, i) => (i, c)

/-- The candidate among the catch clauses in `rest` that protect `addr`, against the `best` before
them. `fits` is asked about each of these clauses in turn and may fail. -/
def selectFrom {m : Type → Type} [Monad m] (fits : Nat → Clause → m (Option CatchFit))
    (addr : Nat) :
    Option Candidate → List (Nat × Clause) → m (Option Candidate)
  | best, [] => pure best
  | best, (index, clause) :: rest =>
    if clause.isCatch && clause.protects addr then do
      match ← fits index clause with
      | none => selectFrom fits addr best rest
      | some fit =>
        selectFrom fits addr (some (Candidate.better best ⟨index, addr - clause.tryStart, fit⟩))
          rest
    else selectFrom fits addr best rest

/-- The catch clause that receives an exception raised at `addr`. -/
def selectCatch {m : Type → Type} [Monad m] (clauses : List Clause) (addr : Nat)
    (fits : Nat → Clause → m (Option CatchFit)) : m (Option Nat) := do
  let best ← selectFrom fits addr none (numbered clauses)
  pure (best.map Candidate.index)

/-- Orders clauses that protect `addr` from the innermost outwards; clauses that start together are
ordered by the length of their ranges, and equal ranges stay in table order. -/
def innermostFirst (addr : Nat) (selected : List (Nat × Clause)) : List Nat :=
  let key (c : Clause) : Nat × Nat := (addr - c.tryStart, c.tryEnd - c.tryStart)
  let le (a b : Nat × Clause) : Bool :=
    let (da, la) := key a.2
    let (db, lb) := key b.2
    da < db || (da == db && la ≤ lb)
  (selected.mergeSort le).map Prod.fst

/-- The finally and fault clauses that an exception raised at `addr` passes on its way to the catch
clause, or out of the method. -/
def unwindClauses (clauses : List Clause) (addr : Nat) (catcher : Option Clause) : List Nat :=
  innermostFirst addr <| (numbered clauses).filter fun (_, c) =>
    !c.isCatch && c.protects addr &&
      match catcher with
      | none => true
      | some catcher => catcher.encloses c && c != catcher

/-- The finally clauses that a leave from `addr` to `target` runs. -/
def leaveClauses (clauses : List Clause) (addr target : Nat) : List Nat :=
  innermostFirst addr <| (numbered clauses).filter fun (_, c) =>
    c.isFinally && c.protects addr && !c.protects target

end ManagedMachine
