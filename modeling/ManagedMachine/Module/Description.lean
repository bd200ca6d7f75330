import ManagedMachine.Module.Basic

/-!
Modules described as lists of rows. Building a module adds the rows table by table; rows of fields,
methods and bodies may be refused, and a refused row leaves the others as they are.
-/

set_option autoImplicit false
set_option relaxedAutoImplicit false

namespace ManagedMachine

/-- The content of a module, with the owners of its rows. -/
structure ModuleDescription where
  name : String
  version : Nat
  types : List TypeDef
  fields : List (Token × FieldDef)
  methods : List (Token × MethodDef)
  /-- Bodies for methods that are defined already. -/
  bodies : List (Token × Body)
  typeSpecs : List Signature
  memberRefs : List MemberRef
  methodSpecs : List MethodSpec
  userStrings : List String
  lines : Option LineTable

namespace ModuleDescription

/-- What became of a row: the token that addresses it, if it is a new one. -/
abbrev Row := Except Error (Option Token)

/-- Adds a row if it is not refused. -/
def tryAdd (m : Module) (added : Except Error (Token × Module)) : Row × Module :=
  match added with
  | .ok (token, m) => (.ok (some token), m)
  | .error e => (.error e, m)

/-- Takes a change over if it succeeded; otherwise the module stays as it was. -/
def tryUpdate (m : Module) (updated : Except Error Module) : Row × Module :=
  match updated with
  | .ok m => (.ok none, m)
  | .error e => (.error e, m)

/-- Adds rows one after the other, with what became of each. -/
def addRows {α : Type} (add : Module → α → Row × Module) : Module → List α → List Row × Module
  | m, [] => ([], m)
  | m, a :: rest =>
    let (row, m) := add m a
    let (rows, m) := addRows add m rest
    (row :: rows, m)

/-- The module, with what became of its fields, its methods and its further bodies. -/
def build (d : ModuleDescription) : List Row × Module :=
  let start : Module := { Module.empty d.name with version := d.version, lines := d.lines }
  let m := d.types.foldl (fun m t => (m.addType t).2) start
  let (fieldRows, m) := addRows (fun m (owner, f) => tryAdd m (m.addField owner f)) m d.fields
  let (methodRows, m) := addRows (fun m (owner, f) => tryAdd m (m.addMethod owner f)) m d.methods
  let (bodyRows, m) := addRows (fun m (method, b) => tryUpdate m (m.setBody method b)) m d.bodies
  let m := d.typeSpecs.foldl (fun m s => (m.addTypeSpec s).2) m
  let m := d.memberRefs.foldl (fun m r => (m.addMember r).2) m
  let m := d.methodSpecs.foldl (fun m s => (m.addMethodSpec s).2) m
  let m := d.userStrings.foldl (fun m s => (m.addString s).2) m
  (fieldRows ++ methodRows ++ bodyRows, m)

end ModuleDescription

end ManagedMachine
