import ManagedMachine.Token

/-!
Type signatures: how module metadata writes a type before it is resolved. A signature names a
definition of its own module, a type by full name, or an open generic parameter, or it builds one
of the composite shapes on top of those.
-/

set_option autoImplicit false
set_option relaxedAutoImplicit false

namespace ManagedMachine

/-- The type of a field, a parameter or a local, as a module writes it down. -/
inductive Signature where
  | definition (token : Token)
  /-- A type by full name, with the module that is expected to define it. -/
  | named (name : String) (scope : Option String)
  | parameter (name : String)
  | byRef (inner : Signature)
  | array (element : Signature) (rank : UInt8)
  | instantiation (head : Signature) (args : List Signature)
  | pointer (inner : Signature)
  | functionPointer
  deriving Inhabited

namespace Signature

def plain (name : String) : Signature := .named name none

/-- An array signature; a rank of zero counts as one. -/
def arrayOf (element : Signature) (rank : UInt8) : Signature :=
  .array element (if rank = 0 then 1 else rank)

mutual

/-- Does an open generic parameter occur anywhere in the signature? -/
def isOpen : Signature → Bool
  | .parameter _ => true
  | .byRef inner => isOpen inner
  | .pointer inner => isOpen inner
  | .array element _ => isOpen element
  | .instantiation head args => isOpen head || anyOpen args
  | .definition _ => false
  | .named .. => false
  | .functionPointer => false

def anyOpen : List Signature → Bool
  | [] => false
  | s :: rest => isOpen s || anyOpen rest

end

@[simp] theorem anyOpen_eq_any (args : List Signature) : anyOpen args = args.any isOpen := by
  induction args with
  | nil => rfl
  | cons s rest ih => simp [anyOpen, ih]

def shape : Signature → String
  | .definition _ => "definition"
  | .named .. => "reference"
  | .parameter _ => "generic parameter"
  | .byRef _ => "by-reference"
  | .array .. => "array"
  | .instantiation .. => "generic instantiation"
  | .pointer _ => "pointer"
  | .functionPointer => "function pointer"

end Signature

/-- The brackets of an array type of `rank` dimensions; a rank of zero counts as one. -/
def arraySuffix (rank : UInt8) : String :=
  String.ofList ('[' :: List.replicate (rank.toNat - 1) ',' ++ [']'])

namespace Signature

mutual

/-- A signature in words, as messages show it. -/
def text : Signature → String
  | .definition token => "typedef(" ++ token.text ++ ")"
  | .named name _ => name
  | .parameter name => "!" ++ name
  | .byRef inner => text inner ++ "&"
  | .pointer inner => text inner ++ "*"
  | .functionPointer => "fnptr"
  | .array element rank => text element ++ arraySuffix rank
  | .instantiation head args => text head ++ "<" ++ String.intercalate "," (texts args) ++ ">"

def texts : List Signature → List String
  | [] => []
  | s :: rest => text s :: texts rest

end

@[simp] theorem texts_eq_map (args : List Signature) : texts args = args.map text := by
  induction args with
  | nil => rfl
  | cons s rest ih => simp [texts, ih]

instance : ToString Signature := ⟨text⟩

end Signature

end ManagedMachine
