/-!
Names under which the host binds members: `Type::Method(Param,…)` for a method and `Type::field` for
a field.
-/

set_option autoImplicit false
set_option relaxedAutoImplicit false

namespace ManagedMachine

def memberName (type member : String) : String := type ++ "::" ++ member

/-- The key of a method: its type, its name and the names of its parameter types. -/
def methodKey (type method : String) (params : List String) : String :=
  memberName type method ++ "(" ++ String.intercalate "," params ++ ")"

def fieldKey (type field : String) : String := memberName type field

end ManagedMachine
