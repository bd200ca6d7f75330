import ManagedMachine.Host.Type

/-!
Values written down: numbers and texts, the stored values of a session by name, and objects by the
name of their type. A literal becomes a value when host code runs. Only code that is called by a
domain can make objects; without a domain an object literal has no value.
-/

set_option autoImplicit false
set_option relaxedAutoImplicit false

namespace ManagedMachine

/-- A value as a request spells it. -/
inductive Literal where
  | null
  | bool (v : Bool)
  | int32 (v : Int32)
  | int64 (v : Int64)
  | single (v : Float32)
  | double (v : Float)
  | string (s : String)
  /-- A stored value; null if there is none of the name. -/
  | stored (name : String)
  | instance_ (type : String) (fields : List Literal)
  | array (type : String) (items : List Literal)
  | record (type : String) (values : List Literal)
  | point (type : String) (x : Int32) (y : Float)
  | exception (type : String) (message : Option String)
  deriving Inhabited

namespace Literal

/-- The value of a literal outside of a domain. -/
def hostValue : Literal → HostProgram Value
  | null => pure .null
  | bool v => pure (.bool v)
  | int32 v => pure (.int32 v)
  | int64 v => pure (.int64 v)
  | single v => pure (.single v)
  | double v => pure (.double v)
  | string s => pure (.string s)
  | stored name => Host.stored name
  | _ => throw .domainDropped

mutual

/-- The value of a literal; the type of an object is resolved before its members. -/
def value : Literal → DomainProgram Value
  | .instance_ type fields => do
    let t ← Host.resolve type
    let members ← values fields
    Host.allocate (.instance_ t members.toArray false)
  | .array type items => do
    let t ← Host.resolve type
    let members ← values items
    Host.allocate (.array t members.toArray)
  | .record type members => do
    let t ← Host.resolve type
    let members ← values members
    Host.allocate (.native t (.record members))
  | .point type x y => do
    let t ← Host.resolve type
    Host.allocate (.native t (.point x y))
  | .exception type message => do
    let t ← Host.resolve type
    Host.allocate (.native t (.exception message))
  | other => other.hostValue

/-- The values of literals in order. -/
def values : List Literal → DomainProgram (List Value)
  | [] => pure []
  | l :: rest => do
    let v ← value l
    let vs ← values rest
    pure (v :: vs)

end

end Literal

end ManagedMachine
