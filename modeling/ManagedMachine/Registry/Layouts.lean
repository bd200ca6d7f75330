import ManagedMachine.Registry.Hierarchy

/-!
Fields of types. The instance fields of an interpreted type start with those of its base type, so an
object of the type can be used through the layout of the base.
-/

set_option autoImplicit false
set_option relaxedAutoImplicit false

namespace ManagedMachine.Registry

/-- A field behind those that are there already. -/
def appendField (l : FieldLayout) (declaring : TypeId) (name : String) (isStatic : Bool)
    (type : TypeId) (native : Option HostField) : FieldLayout :=
  if isStatic then
    { l with statics := l.statics ++ [⟨declaring, name, l.statics.length, true, type, native⟩] }
  else
    { l with instance_ := l.instance_ ++
      [⟨declaring, name, l.instance_.length, false, type, native⟩] }

/-- Lays out the fields of a definition behind those that are there. -/
def appendDefinedFields (home : ModuleId) (t : TypeId) :
    FieldLayout → List FieldDef → RegistryM FieldLayout
  | l, [] => pure l
  | l, f :: rest => do
    let type ← resolveType home (.ofType t) f.type
    appendDefinedFields home t (appendField l t f.name f.isStatic type none) rest

/-- Lays out the fields of a host type behind those that are there. -/
def appendHostFields (moduleName : String) (t : TypeId) :
    FieldLayout → List HostField → RegistryM FieldLayout
  | l, [] => pure l
  | l, f :: rest => do
    let type ← resolveIn f.type (some moduleName)
    appendHostFields moduleName t (appendField l t f.name f.isStatic type (some f)) rest

/-- Works a layout out; `inherited` gives the layout of the base type. -/
def buildLayout (inherited : TypeId → RegistryM FieldLayout) (t : TypeId) :
    RegistryM FieldLayout := do
  match (← ask (·.type t)).shape with
  | .interpreted home token =>
    let start ← match ← baseType t with
      | some base =>
        if (← ask (·.type base)).isInterpreted then
          pure { FieldLayout.empty with instance_ := (← inherited base).instance_ }
        else pure .empty
      | none => pure .empty
    let rows ← lift fun _ => home.content.fieldsOf token
    appendDefinedFields home.id t start (rows.map Prod.snd)
  | .native type => appendHostFields type.moduleName t .empty type.fields
  | _ => return .empty

/-- The fields of a type; those of its base come first. -/
def layout : (fuel : Nat) → TypeId → RegistryM FieldLayout
  | 0, _ => throw .outOfFuel
  | fuel + 1, t => do
    match ← ask fun r => r.facts.layouts[t]? with
    | some l => return l
    | none =>
      let l ← buildLayout (layout fuel) t
      modify fun r =>
        { r with facts := { r.facts with layouts := r.facts.layouts.insertIfNew t l } }
      ask fun r => (r.facts.layouts[t]?).getD l

/-- The field of a name on a type or its bases; `isStatic` says which kind, if it is known. -/
def findField (fuel : Nat) (t : TypeId) (name : String) (isStatic : Option Bool) :
    RegistryM Field := do
  let find (l : FieldLayout) : Option Field :=
    match isStatic with
    | some true => l.findStatic? name
    | some false => l.find? name
    | none => l.find? name <|> l.findStatic? name
  match ← walk (visitWith fun t => return find (← layout fuel t)) fuel t with
  | some field => return field
  | none => throw (.fieldNotFound name (← ask (·.typeName t)))

end ManagedMachine.Registry
