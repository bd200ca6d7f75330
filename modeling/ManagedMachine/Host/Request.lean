import ManagedMachine.Heap
import ManagedMachine.Host.Program
import ManagedMachine.Report

/-!
What host code may ask for. Code without a domain reaches the cells and the log of the host, the
variables of the running session and the data of native objects. Code that is called by a domain can
also resolve types, make objects and call back into the domain.
-/

set_option autoImplicit false
set_option relaxedAutoImplicit false

namespace ManagedMachine

/-- What host code may ask without an interpreter. -/
inductive HostRequest where
  | stored (name : String)
  | cell (name : String)
  | setCell (name : String) (v : Value)
  | data (id : ObjectId)
  | setData (id : ObjectId) (d : HostData)
  | typeName (t : TypeId)
  | describe (v : Value)
  | report (v : Value)
  | reportError (e : Error)
  | log (entry : Report)

@[reducible] def HostRequest.Answer : HostRequest → Type
  | stored _ => Value
  | cell _ => Value
  | setCell .. => Unit
  | data _ => Option HostData
  | setData .. => Unit
  | typeName _ => String
  | describe _ => String
  | report _ => Report
  | reportError _ => Report
  | log _ => Unit

abbrev HostProgram := Program HostRequest HostRequest.Answer

/-- What host code may ask of its domain, nested calls included. -/
inductive DomainRequest where
  | host (r : HostRequest)
  | resolve (typeName : String)
  | allocate (o : HeapObject)
  | instantiate (typeName : String) (args : List Value)
  | invoke (typeName method : String) (receiver : Option Value) (args : List Value)
  | moduleCount

@[reducible] def DomainRequest.Answer : DomainRequest → Type
  | host r => r.Answer
  | resolve _ => TypeId
  | allocate _ => ObjectId
  | instantiate .. => Value
  | invoke .. => Option Value
  | moduleCount => Nat

abbrev DomainProgram := Program DomainRequest DomainRequest.Answer

/-- Code that needs no domain, run by a domain. -/
def HostProgram.inDomain {α : Type} : HostProgram α → DomainProgram α
  | .done a => .done a
  | .fail e => .fail e
  | .ask r next => .ask (.host r) fun answer => inDomain (next answer)

namespace Host

def stored (name : String) : HostProgram Value := .request (HostRequest.stored name)

def cell (name : String) : HostProgram Value := .request (HostRequest.cell name)

def setCell (name : String) (v : Value) : HostProgram Unit := .request (HostRequest.setCell name v)

def report (v : Value) : HostProgram Report := .request (HostRequest.report v)

def reportError (e : Error) : HostProgram Report := .request (HostRequest.reportError e)

def log (entry : Report) : HostProgram Unit := .request (HostRequest.log entry)

def typeName (t : TypeId) : HostProgram String := .request (HostRequest.typeName t)

/-- A value in a diagnostic. -/
def describe (v : Value) : HostProgram String := .request (HostRequest.describe v)

/-- The data behind an object; only native objects have any. -/
def data (id : ObjectId) : HostProgram (Option HostData) := .request (HostRequest.data id)

def setData (id : ObjectId) (d : HostData) : HostProgram Unit := .request (HostRequest.setData id d)

/-- Member `i` of the data behind an object. -/
def member (i : Nat) : Value → HostProgram Value
  | .object id => do pure (((← data id).map (·.member i)).getD .null)
  | _ => pure .null

/-- Writes member `i` of the data behind an object. -/
def setMember (i : Nat) (v : Value) : Value → HostProgram Unit
  | .object id => do
    match ← data id with
    | some d => setData id (← d.setMember i v)
    | none => do
      let _ ← HostData.unit.setMember i v
      pure ()
  | _ => pure ()

/-- What a call gave, as a report of its success or of its error. -/
def reportResult {α : Type} (report : α → HostProgram Report) :
    Except Error α → HostProgram Report
  | .ok a => do pure (.record [("ok", ← report a)])
  | .error e => reportError e

end Host

/-! ### Requests to the domain -/

namespace Host

def resolve (name : String) : DomainProgram TypeId := .request (DomainRequest.resolve name)

def allocate (o : HeapObject) : DomainProgram Value := do
  let id ← (Program.request (DomainRequest.allocate o) : DomainProgram ObjectId)
  pure (.object id)

def instantiate (type : String) (args : List Value) : DomainProgram Value :=
  .request (DomainRequest.instantiate type args)

def invoke (type method : String) (receiver : Option Value) (args : List Value) :
    DomainProgram (Option Value) :=
  .request (DomainRequest.invoke type method receiver args)

def moduleCount : DomainProgram Nat := .request DomainRequest.moduleCount

end Host

instance : MonadLift HostProgram DomainProgram := ⟨HostProgram.inDomain⟩

end ManagedMachine
