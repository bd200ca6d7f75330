import ManagedMachine.Host.Frame
import Std.Data.HashMap

/-!
Binding tables: code by which the host replaces what it describes of its types. Each table takes the
first entry of a key and refuses later ones.

The tables live in two phases. While they are built, entries go into one set of tables, and reads
look there. Freezing moves that set into a snapshot and leaves an empty one behind; from then on
reads look into the snapshot, and registrations are refused.
-/

set_option autoImplicit false
set_option relaxedAutoImplicit false

namespace ManagedMachine

/-- Makes the elements of a new array of a length. -/
abbrev ArrayFactory := Nat → HostProgram (List Value)

/-- How a host struct is laid out in field slots: one slot with a number, or null, for each of its
fields. -/
structure StructBinder where
  typeName : String
  fields : List Primitive
  write : HostData → Except Error (List Slot)
  read : List Slot → Except Error HostData
  length_write : ∀ {data slots}, write data = .ok slots → slots.length = fields.length
  primitive_write : ∀ {data slots}, write data = .ok slots →
    ∀ s ∈ slots, s = .null ∨ s.isNumeric = true

/-- The six tables. -/
structure BindingSet where
  redirections : Std.HashMap String Redirection
  fields : Std.HashMap String FieldDelegates
  getters : Std.HashMap String HostGetter
  setters : Std.HashMap String HostSetter
  arrays : Std.HashMap String ArrayFactory
  binders : Std.HashMap String StructBinder

def BindingSet.empty : BindingSet := ⟨{}, {}, {}, {}, {}, {}⟩

/-- The tables of a domain: the set that is being built, and the snapshot of the set that was built
once the tables are frozen. -/
structure Bindings where
  building : BindingSet
  snapshot : Option BindingSet

/-- An entry of one of the tables. -/
inductive Binding.Entry where
  | redirection (key : String) (code : Redirection)
  | field (key : String) (delegates : FieldDelegates)
  | getter (key : String) (get : HostGetter)
  | setter (key : String) (set : HostSetter)
  | array (key : String) (factory : ArrayFactory)
  /-- A binder with the entries that come with it. -/
  | binder (binder : StructBinder) (others : List Entry)
  /-- Host code that fails to make an entry. -/
  | failure (e : Error)

instance : Inhabited Binding.Entry := ⟨.failure .lock⟩

def Binding.Entry.key : Binding.Entry → String
  | redirection key _ => key
  | field key _ => key
  | getter key _ => key
  | setter key _ => key
  | array key _ => key
  | binder b _ => b.typeName
  | failure _ => ""

abbrev BindingsM := EStateM Error Bindings

namespace Bindings

def empty : Bindings := ⟨.empty, none⟩

def frozen (b : Bindings) : Bool := b.snapshot.isSome

/-- Ends the building phase: the set that was built becomes the snapshot. Frozen tables stay as they
are. -/
def freeze (b : Bindings) : Bindings :=
  if b.frozen then b else { building := .empty, snapshot := some b.building }

/-- What a table has under a key: the snapshot answers if there is one, and the set that is being
built if not. -/
def read {α : Type} (table : BindingSet → Std.HashMap String α) (key : String) (b : Bindings) :
    Option α :=
  match b.snapshot with
  | some snapshot => (table snapshot)[key]?
  | none => (table b.building)[key]?

def redirection? (b : Bindings) (key : String) : Option Redirection :=
  b.read BindingSet.redirections key

def delegates? (b : Bindings) (key : String) : Option FieldDelegates := b.read BindingSet.fields key

def getter? (b : Bindings) (key : String) : Option HostGetter := b.read BindingSet.getters key

def setter? (b : Bindings) (key : String) : Option HostSetter := b.read BindingSet.setters key

/-- The factory for arrays of an element type. -/
def factory? (b : Bindings) (element : String) : Option ArrayFactory :=
  b.read BindingSet.arrays element

/-- The binder of a struct type. -/
def binder? (b : Bindings) (typeName : String) : Option StructBinder :=
  b.read BindingSet.binders typeName

/-- The table with an entry for a key that has none, and whether it was added. -/
def addTo {α : Type} (table : Std.HashMap String α) (key : String) (a : α) :
    Bool × Std.HashMap String α :=
  if table.contains key then (false, table) else (true, table.insert key a)

/-- Enters into the table that `update` replaces in the set that is being built. -/
def enter {α : Type} (table : BindingSet → Std.HashMap String α)
    (update : BindingSet → Std.HashMap String α → BindingSet) (key : String) (a : α) :
    BindingsM Bool := fun b =>
  if b.frozen then .error .bindingsFrozen b
  else
    let (added, entries) := addTo (table b.building) key a
    .ok added { b with building := update b.building entries }

mutual

/-- Enters an entry, unless its key has one; the answer is whether it was added. -/
def register : Binding.Entry → BindingsM Bool
  | .redirection key code =>
    enter BindingSet.redirections (fun s redirections => { s with redirections }) key code
  | .field key delegates =>
    enter BindingSet.fields (fun s fields => { s with fields }) key delegates
  | .getter key get => enter BindingSet.getters (fun s getters => { s with getters }) key get
  | .setter key set => enter BindingSet.setters (fun s setters => { s with setters }) key set
  | .array key factory => enter BindingSet.arrays (fun s arrays => { s with arrays }) key factory
  | .binder binder others => do
    let added ← enter BindingSet.binders (fun s binders =>
      { s with binders }) binder.typeName binder
    if added then registerAll others
    return added
  | .failure e => throw e

/-- Registers the entries in order, up to the first one that fails. -/
def registerAll : List Binding.Entry → BindingsM Unit
  | [] => pure ()
  | e :: rest => do
    let _ ← register e
    registerAll rest

end

end Bindings

end ManagedMachine
