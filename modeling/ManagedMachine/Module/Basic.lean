import ManagedMachine.LineTable
import ManagedMachine.Module.Rows

/-!
Modules. A module is a set of tables addressed by tokens. Rows are only ever added, and the token
that adding a row hands out addresses that row from then on.

The rows of fields and methods are stored with their types, but their tokens count through all types
of the module. Three tables tie the two together: the places where the rows stand, and for each type
the tokens of its fields and of its methods. Every call that adds a row keeps them in step, and
lookups rely on that: they take entries of one table for granted that another table speaks of.
-/

set_option autoImplicit false
set_option relaxedAutoImplicit false

namespace ManagedMachine

/-- Where the row of a field or a method stands: the position of its type among the types, and its
own position among the rows of the type. -/
structure RowPlace where
  owner : Nat
  position : Nat
  deriving DecidableEq

/-- What the token of a field or a method leads to: the row, and where it stands. -/
structure OwnedRow (α : Type) extends RowPlace where
  row : α

/-- A module as it is loaded: its types with their members, and the tables that tokens point into.
-/
structure Module where
  name : String
  /-- The version of the module's content; zero if it has none. -/
  version : Nat
  types : Array TypeDef
  fieldPlaces : Array RowPlace
  methodPlaces : Array RowPlace
  /-- For each type, the tokens of its fields. -/
  fieldLists : Array (Array Token)
  /-- For each type, the tokens of its methods. -/
  methodLists : Array (Array Token)
  typeSpecs : Array Signature
  memberRefs : Array MemberRef
  methodSpecs : Array MethodSpec
  userStrings : Array String
  lines : Option LineTable
  deriving Inhabited

namespace Module

def empty (name : String) : Module :=
  ⟨name, 0, #[], #[], #[], #[], #[], #[], #[], #[], #[], none⟩

/-- A module of types without fields and methods. -/
def ofTypes (name : String) (types : Array TypeDef) : Module :=
  { empty name with
    types, fieldLists := types.map fun _ => #[], methodLists := types.map fun _ => #[] }

/-! ### Looking up rows -/

/-- The row that a token of `table` addresses. -/
def rowAt {α : Type} (rows : Array α) (token : Token) (table : Table) : Except Error α :=
  match if token.isIn table then token.index?.bind (rows[·]?) else none with
  | some row => .ok row
  | none => .error (.invalidToken token)

/-- An entry that is taken for granted. -/
def entryAt {α : Type} (entries : Array α) (i : Nat) : Except Error α :=
  match entries[i]? with
  | some entry => .ok entry
  | none => .error .outOfBounds

def typeDef (m : Module) (t : Token) : Except Error TypeDef := rowAt m.types t .typeDef

/-- The row of a type that a token of `table` addresses: `places` says where the rows of the table
stand, and `rows` which rows of a type these are. -/
def ownedAt {α : Type} (m : Module) (places : Array RowPlace) (rows : TypeDef → Array α) (t : Token)
    (table : Table) : Except Error (OwnedRow α) := do
  let place ← rowAt places t table
  let owner ← entryAt m.types place.owner
  match (rows owner)[place.position]? with
  | some row => .ok ⟨place, row⟩
  | none => .error (.invalidToken t)

/-- The field behind a token, with the type that owns it. -/
def fieldDef (m : Module) (t : Token) : Except Error (OwnedRow FieldDef) :=
  m.ownedAt m.fieldPlaces TypeDef.fields t .field

/-- The method behind a token, with the type that owns it. -/
def methodDef (m : Module) (t : Token) : Except Error (OwnedRow MethodDef) :=
  m.ownedAt m.methodPlaces TypeDef.methods t .methodDef

def typeSpec (m : Module) (t : Token) : Except Error Signature := rowAt m.typeSpecs t .typeSpec

def memberRef (m : Module) (t : Token) : Except Error MemberRef := rowAt m.memberRefs t .memberRef

def methodSpec (m : Module) (t : Token) : Except Error MethodSpec :=
  rowAt m.methodSpecs t .methodSpec

def userString (m : Module) (t : Token) : Except Error String := rowAt m.userStrings t .userString

def typeToken (position : Nat) : Token := Token.next .typeDef position

/-- The tokens of the fields of a type, in order. -/
def fieldTokens (m : Module) (owner : Token) : Except Error (List Token) :=
  (rowAt m.fieldLists owner .typeDef).map Array.toList

/-- The tokens of the methods of a type, in order. -/
def methodTokens (m : Module) (owner : Token) : Except Error (List Token) :=
  (rowAt m.methodLists owner .typeDef).map Array.toList

/-- Tokens with the rows that they look up. -/
def lookUpAll {α : Type} (lookUp : Token → Except Error (OwnedRow α)) :
    List Token → Except Error (List (Token × α))
  | [] => .ok []
  | t :: rest => do
    let found ← lookUp t
    return (t, found.row) :: (← lookUpAll lookUp rest)

/-- The fields of a type, in order, with their tokens. -/
def fieldsOf (m : Module) (owner : Token) : Except Error (List (Token × FieldDef)) := do
  lookUpAll m.fieldDef (← m.fieldTokens owner)

/-- The methods of a type, in order, with their tokens. -/
def methodsOf (m : Module) (owner : Token) : Except Error (List (Token × MethodDef)) := do
  lookUpAll m.methodDef (← m.methodTokens owner)

/-- The signature of a type operand: a type of the module or a type specification. -/
def typeSignature (m : Module) (t : Token) : Except Error Signature :=
  if t.isIn .typeDef then (m.typeDef t).map fun _ => .definition t
  else m.typeSpec t

/-! ### Adding rows -/

/-- Appends a row; the token addresses it. -/
def append {α : Type} (table : Table) (rows : Array α) (row : α) : Token × Array α :=
  (Token.next table rows.size, rows.push row)

/-- Adds a type, which has no fields and no methods yet. -/
def addType (m : Module) (def_ : TypeDef) : Token × Module :=
  let (token, types) := append .typeDef m.types { def_ with fields := #[], methods := #[] }
  (token, { m with
    types, fieldLists := m.fieldLists.push #[], methodLists := m.methodLists.push #[] })

/-- The position of the type that a token defines. -/
def ownerIndex (m : Module) (owner : Token) : Except Error Nat := do
  let _ ← m.typeDef owner
  match owner.index? with
  | some i => .ok i
  | none => .error (.invalidToken owner)

/-- Enters the token of the next row of a table into the list of a type. -/
def enlist (table : Table) (places : Array RowPlace) (lists : Array (Array Token)) (i : Nat) :
    Except Error (Array (Array Token)) := do
  let list ← entryAt lists i
  return lists.setIfInBounds i (list.push (Token.next table places.size))

/-- Adds a field to a type, behind the fields that the type has. -/
def addField (m : Module) (owner : Token) (def_ : FieldDef) : Except Error (Token × Module) := do
  let i ← m.ownerIndex owner
  let type ← entryAt m.types i
  let fieldLists ← enlist .field m.fieldPlaces m.fieldLists i
  let (token, fieldPlaces) := append .field m.fieldPlaces ⟨i, type.fields.size⟩
  let types := m.types.setIfInBounds i { type with fields := type.fields.push def_ }
  return (token, { m with types, fieldPlaces, fieldLists })

/-- Adds a method to a type, behind the methods that the type has. -/
def addMethod (m : Module) (owner : Token) (def_ : MethodDef) : Except Error (Token × Module) := do
  let i ← m.ownerIndex owner
  let type ← entryAt m.types i
  let methodLists ← enlist .methodDef m.methodPlaces m.methodLists i
  let (token, methodPlaces) := append .methodDef m.methodPlaces ⟨i, type.methods.size⟩
  let types := m.types.setIfInBounds i { type with methods := type.methods.push def_ }
  return (token, { m with types, methodPlaces, methodLists })

/-- Replaces the body of a method. -/
def setBody (m : Module) (method : Token) (body : Body) : Except Error Module := do
  let place ← rowAt m.methodPlaces method .methodDef
  let owner ← entryAt m.types place.owner
  let row ← entryAt owner.methods place.position
  let methods := owner.methods.setIfInBounds place.position { row with body := some body }
  return { m with types := m.types.setIfInBounds place.owner { owner with methods } }

/-- Adds a row, under the next token of its table. -/
def addTypeSpec (m : Module) (s : Signature) : Token × Module :=
  let (token, typeSpecs) := append .typeSpec m.typeSpecs s
  (token, { m with typeSpecs })

def addMember (m : Module) (r : MemberRef) : Token × Module :=
  let (token, memberRefs) := append .memberRef m.memberRefs r
  (token, { m with memberRefs })

def addMethodSpec (m : Module) (s : MethodSpec) : Token × Module :=
  let (token, methodSpecs) := append .methodSpec m.methodSpecs s
  (token, { m with methodSpecs })

def addString (m : Module) (s : String) : Token × Module :=
  let (token, userStrings) := append .userString m.userStrings s
  (token, { m with userStrings })

end Module

end ManagedMachine
