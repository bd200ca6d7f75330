import ManagedMachine.Domain.Inspection

/-!
The requests of host code that need no running interpreter: cells, variables, the data of native
objects, reports and the log.
-/

set_option autoImplicit false
set_option relaxedAutoImplicit false

namespace ManagedMachine

/-- A list of named values with one of them replaced. -/
def setNamed (values : List (String × Value)) (name : String) (v : Value) : List (String × Value) :=
  (name, v) :: values.filter (·.1 != name)

/-- The value of this name, and null if there is none. -/
def namedValue (values : List (String × Value)) (name : String) : Value :=
  (values.lookup name).getD .null

namespace Domain

/-- A change of what host code keeps. -/
def modifyHost (f : HostWorld → HostWorld) : DomainM Unit :=
  modify fun d => { d with host := f d.host }

/-- Adds an entry to the log of the host. -/
def log (entry : Report) : DomainM Unit := modifyHost fun h => { h with log := h.log.push entry }

/-- Sets a named cell of the host. -/
def setCell (name : String) (v : Value) : DomainM Unit :=
  modifyHost fun h => { h with cells := setNamed h.cells name v }

/-- Replaces the data of a native object; other objects have none. -/
def setData (id : ObjectId) (data : HostData) : DomainM Unit := do
  match ← ask fun d => d.heap.object id with
  | .native type _ => putObject id (.native type data)
  | _ => pure ()

/-- Requests of host code that no interpreter is needed for. -/
def serveHost : (r : HostRequest) → DomainM r.Answer
  | .stored name => ask fun d => namedValue d.host.stored name
  | .cell name => ask fun d => namedValue d.host.cells name
  | .setCell name v => setCell name v
  | .data id => ask fun d => d.heap.data? id
  | .setData id data => setData id data
  | .typeName t => ask fun d => d.registry.typeName t
  | .describe v => ask fun d => d.describe v
  | .report v => report v
  | .reportError e => reportError e
  | .log entry => log entry

/-- Runs host code that needs no domain. -/
def runHost {α : Type} (p : HostProgram α) : DomainM α := p.run serveHost

end Domain

end ManagedMachine
