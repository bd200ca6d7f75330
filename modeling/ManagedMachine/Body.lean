import ManagedMachine.Clause
import ManagedMachine.Instruction
import ManagedMachine.Signature

/-!
Method bodies. A body that passes `validate` keeps every branch target and clause inside its code
and does not fall off its end.
-/

set_option autoImplicit false
set_option relaxedAutoImplicit false

namespace ManagedMachine

/-- A method body: the types of its locals, its code and the clauses that guard it. -/
structure Body where
  locals : List Signature
  code : Array Instruction
  clauses : List Clause
  deriving Inhabited

namespace Body

def size (b : Body) : Nat := b.code.size

/-- The first instruction whose target lies outside of the code, with its address. -/
def strayTarget? (b : Body) : Option (Nat × Nat) :=
  b.code.toList.zipIdx.findSome? fun (i, addr) =>
    match i.target? with
    | some target => if b.size ≤ target.toNat then some (addr, target.toNat) else none
    | none => none

/-- Is a range of the clause reversed, or does it reach past `size`? -/
def clauseOutside (size : Nat) (c : Clause) : Bool :=
  c.tryEnd < c.tryStart || c.handlerEnd < c.handlerStart || size ≤ c.tryEnd || size ≤ c.handlerEnd

/-- Whether control never falls through to the next instruction. -/
def endsFlow : Flow → Bool
  | .branch | .ret | .throw | .leave | .endFinally => true
  | _ => false

/-- A body is accepted if it has code, its branches and clauses stay inside of it, and control
cannot run off its end. -/
def validate (b : Body) : Except Error Unit :=
  match b.code.back? with
  | none => .error (.malformed .emptyBody)
  | some last =>
    match b.strayTarget? with
    | some (addr, target) => .error (.malformed (.targetOutside addr target))
    | none =>
      match b.clauses.find? (clauseOutside b.size) with
      | some clause => .error (.malformed (.clauseOutside clause.describe))
      | none =>
        if endsFlow last.flow then .ok () else .error (.malformed (.fallsThrough last.text))

end Body

end ManagedMachine
