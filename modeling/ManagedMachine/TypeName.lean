import ManagedMachine.Signature
import ManagedMachine.Text.Blank

/-!
Composite type names, as text. A name is a full name wrapped in array brackets, by-reference marks
and generic argument lists, optionally followed by a comma and the module expected to define the
innermost name. Reading strips the outermost mark first, so the inner name is known before it is
wrapped. `parse?` reads a name and `canonical` writes it without its scope and without spaces.
-/

set_option autoImplicit false
set_option relaxedAutoImplicit false

namespace ManagedMachine

/-- The name of a type, parsed. -/
inductive TypeName where
  | simple (name : String) (scope : Option String)
  | generic (head : TypeName) (args : List TypeName)
  | array (element : TypeName) (rank : UInt8)
  | byRef (inner : TypeName)
  deriving Inhabited

namespace TypeName

mutual

/-- The spelling without scopes, under which descriptors are known. -/
def canonical : TypeName → String
  | .simple name _ => name
  | .generic head args => canonical head ++ "<" ++ String.intercalate "," (canonicals args) ++ ">"
  | .array element rank => canonical element ++ arraySuffix rank
  | .byRef inner => canonical inner ++ "&"

def canonicals : List TypeName → List String
  | [] => []
  | t :: rest => canonical t :: canonicals rest

end

@[simp] theorem canonicals_eq_map (args : List TypeName) :
    canonicals args = args.map canonical := by
  induction args with
  | nil => rfl
  | cons t rest ih => simp [canonicals, ih]

def isSimple : TypeName → Bool
  | .simple .. => true
  | _ => false

/-- Attaches a scope to the innermost name. -/
def withScope (scope : String) : TypeName → TypeName
  | .simple name _ => .simple name (some scope)
  | .generic head args => .generic (withScope scope head) args
  | .array element rank => .array (withScope scope element) rank
  | .byRef inner => .byRef (withScope scope inner)

/-! ### Cutting text -/

/-- How a character changes the nesting depth of brackets. -/
def nesting (c : Char) : Int :=
  if c = '<' || c = '[' then 1 else if c = '>' || c = ']' then -1 else 0

/-- Cuts at the commas at depth zero; `depth` is the depth reached so far. -/
def cutCommas (depth : Int) : List Char → List (List Char)
  | [] => [[]]
  | c :: rest =>
    if c = ',' && depth == 0 then [] :: cutCommas 0 rest
    else
      match cutCommas (depth + nesting c) rest with
      | [] => [[c]]
      | piece :: pieces => (c :: piece) :: pieces

theorem length_le_of_mem_cutCommas {piece : List Char} {depth : Int} {cs : List Char}
    (h : piece ∈ cutCommas depth cs) : piece.length ≤ cs.length := by
  induction cs generalizing depth piece with
  | nil => simp [cutCommas] at h; simp [h]
  | cons c rest ih =>
    rw [cutCommas] at h
    split at h
    · rcases List.mem_cons.1 h with rfl | h
      · simp
      · have := ih h
        simp
        omega
    · split at h
      · simp at h
        subst h
        simp
      · next piece' pieces heq =>
        rcases List.mem_cons.1 h with rfl | h
        · have : piece' ∈ cutCommas (depth + nesting c) rest := by simp [heq]
          have := ih this
          simp
          omega
        · have : piece ∈ cutCommas (depth + nesting c) rest := by simp [heq, h]
          have := ih this
          simp
          omega

/-- Walks the reversed text leftwards from a closing bracket. `inside` collects what was passed;
the answer is the part before the matching opening bracket, still reversed, and what it encloses. -/
def seekOpening (opening closing : Char) (depth : Int) (inside : List Char) :
    List Char → Option (List Char × List Char)
  | [] => none
  | c :: rest =>
    if c = closing then seekOpening opening closing (depth + 1) (c :: inside) rest
    else if c = opening then
      if depth = 1 then some (rest, inside)
      else seekOpening opening closing (depth - 1) (c :: inside) rest
    else seekOpening opening closing depth (c :: inside) rest

theorem length_seekOpening {opening closing : Char} {depth : Int}
    {inside cs before within : List Char}
    (h : seekOpening opening closing depth inside cs = some (before, within)) :
    before.length + within.length < inside.length + cs.length := by
  induction cs generalizing depth inside with
  | nil => simp [seekOpening] at h
  | cons c rest ih =>
    rw [seekOpening] at h
    split at h
    · have := ih h
      simp at this ⊢
      omega
    · split at h
      · split at h
        · simp at h
          obtain ⟨rfl, rfl⟩ := h
          simp
          omega
        · have := ih h
          simp at this ⊢
          omega
      · have := ih h
        simp at this ⊢
        omega

/-- Splits a text that ends with `closing`, given reversed and without that last character, into
what precedes the matching `opening` and what the two enclose. -/
def splitBracket (opening closing : Char) (reversed : List Char) : Option (List Char × List Char) :=
  (seekOpening opening closing 1 [] reversed).map fun (before, within) => (before.reverse, within)

theorem length_splitBracket {opening closing : Char} {reversed before within : List Char}
    (h : splitBracket opening closing reversed = some (before, within)) :
    before.length ≤ reversed.length ∧ within.length ≤ reversed.length := by
  simp only [splitBracket, Option.map_eq_some_iff, Prod.exists, Prod.mk.injEq] at h
  obtain ⟨b, w, hs, rfl, rfl⟩ := h
  have := length_seekOpening hs
  simp at this ⊢
  omega

/-- A rank counts the commas between array brackets and must fit a byte. -/
def rank? (dimensions : List Char) : Option UInt8 :=
  if dimensions.all (fun c => c == ',' || Text.isBlank c) then
    let rank := dimensions.countP (· == ',') + 1
    if rank < 256 then some (UInt8.ofNat rank) else none
  else none

/-- The characters that names are divided by. -/
def isMark (c : Char) : Bool := c ∈ ['<', '>', '[', ']', '&', ',']

/-! ### Reading -/

/-- Reads a name without scope. -/
def parseBody? (cs : List Char) : Option TypeName :=
  match _hr : cs.reverse with
  | '&' :: rest => (parseBody? (Text.trimEnd rest.reverse)).map .byRef
  | ']' :: rest =>
    match _hs : splitBracket '[' ']' rest with
    | none => none
    | some (before, dimensions) => do
      let rank ← rank? dimensions
      let element ← parseBody? (Text.trimEnd before)
      some (.array element rank)
  | '>' :: rest =>
    match _hs : splitBracket '<' '>' rest with
    | none => none
    | some (before, within) => do
      let head ← parseBody? (Text.trimEnd before)
      if !head.isSimple then none
      else
        let args ← (cutCommas 0 within).attach.mapM fun piece => parseBody? (Text.trim piece.1)
        some (.generic head args)
  | _ => if cs.isEmpty || cs.any isMark then none else some (.simple (String.ofList cs) none)
termination_by cs.length
decreasing_by
  all_goals
    have hl := congrArg List.length _hr
    simp at hl
  · have := Text.length_trimEnd_le rest.reverse
    simp at this
    omega
  · have := length_splitBracket _hs
    have := Text.length_trimEnd_le before
    omega
  · have := length_splitBracket _hs
    have := Text.length_trimEnd_le before
    omega
  · have := length_splitBracket _hs
    have := Text.length_trim_le piece.1
    have := length_le_of_mem_cutCommas piece.2
    omega

/-- Reads a composite name; `none` if it is not well formed. -/
def parse? (input : String) : Option TypeName :=
  match cutCommas 0 (Text.trim input.toList) with
  | [body] => parseBody? (Text.trim body)
  | [body, scope] =>
    let scope := Text.trim scope
    if scope.isEmpty then none
    else (parseBody? (Text.trim body)).map (withScope (String.ofList scope))
  | _ => none

end TypeName

end ManagedMachine
