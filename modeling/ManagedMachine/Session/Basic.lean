import ManagedMachine.Domain.Prewarming
import ManagedMachine.Domain.Setup
import ManagedMachine.Engine.Run
import ManagedMachine.Engine.Stream
import ManagedMachine.Host.Script
import ManagedMachine.Module.Description

/-!
Sessions: a domain with a host around it, worked on step by step. A step ends with an answer or an
error; either way it is reported together with what host code logged and an attached debugger was
told meanwhile. The host may let go of the domain: its objects and variables stay, and what needs
the domain fails from then on.
-/

set_option autoImplicit false
set_option relaxedAutoImplicit false

namespace ManagedMachine

/-- What the host keeps of an adapted object: which object it is, and what its members were found to
be. The object itself is not kept alive by its wrapper. -/
structure Wrapper where
  object : ObjectId
  members : List ((String × Nat) × Option MethodId)

/-- A domain together with what a run of requests keeps beside it. -/
structure Session where
  domain : Domain
  /-- Does the host still hold the domain? -/
  isLive : Bool
  wrappers : List (String × Wrapper)
  /-- The bound on the evaluation of one step. -/
  fuel : Nat

abbrev SessionM := EStateM Error Session

/-- The answer of a step, with the value that it is about if it is about one. -/
structure Answer where
  report : Report
  value : Option Value

namespace Session

/-- A session on a new domain with modules of host types. -/
def start (fuel : Nat) (config : Config) (debug : Bool) (host : List HostModule) : Session :=
  let d := Domain.make config debug
  ⟨{ d with registry := host.foldl (fun r m => { r with host := r.host.push m }) d.registry },
    true, [], fuel⟩

/-- Works on the domain, whether or not the host still holds it. -/
def anyway {α : Type} (x : DomainM α) : SessionM α := fun
  | ⟨domain, isLive, wrappers, fuel⟩ =>
    match x domain with
    | .ok a domain => .ok a ⟨domain, isLive, wrappers, fuel⟩
    | .error e domain => .error e ⟨domain, isLive, wrappers, fuel⟩

/-- Fails if the host has let go of the domain. -/
def requireDomain : SessionM Unit := fun s =>
  if s.isLive then .ok () s else .error .domainDropped s

/-- Work on the domain, which the host has to hold still. -/
def within {α : Type} (x : DomainM α) : SessionM α := do
  requireDomain
  anyway x

/-- Works on the domain with the bound of the session. -/
def bounded {α : Type} (x : Nat → DomainM α) : SessionM α := fun s => within (x s.fuel) s

/-- Works on the domain with calls into the engine. -/
def running {α : Type} (x : Callees → Nat → DomainM α) : SessionM α :=
  bounded fun fuel => x (Engine.callees fuel) fuel

instance : MonadLift DomainM SessionM := ⟨within⟩

instance : MonadLift RegistryM SessionM := ⟨fun x => within (Domain.inRegistry x)⟩

/-- Reads the domain. -/
def ask {α : Type} (query : Domain → α) : SessionM α := within (Domain.ask query)

/-! ### Values -/

/-- The value of a literal; without the domain it can be no object. -/
def value (l : Literal) : SessionM Value := fun s =>
  if s.isLive then running (fun c _ => l.value.run c.serve) s
  else anyway (Domain.runHost l.hostValue) s

def values (ls : List Literal) : SessionM (List Value) := ls.mapM value

/-- The object that a value has to be. -/
def object (v : Value) : SessionM ObjectId :=
  match v with
  | .object id => pure id
  | _ => throw (.nullReceiver "not an object")

/-! ### Answers -/

def plain (r : Report) : Answer := ⟨r, none⟩

def text (s : String) : Answer := plain (.text s)

/-- The answer that is a value. -/
def valued (v : Value) : SessionM Answer := return ⟨← anyway (Domain.report v), some v⟩

/-- The report of something that was asked of the registry. -/
def described (report : Registry → Report) : SessionM Answer := do
  return plain (report (← ask (·.registry)))

def typeAnswer (t : TypeId) : SessionM Answer := described fun r => Domain.reportType r t

/-! ### Steps -/

def Event.report : Event → Report
  | .moduleLoaded id name => .list [.text "module_loaded", .text id.text, .text name]
  | .started interpreter => .list [.text "started", .ofNat interpreter]
  | .stopped interpreter => .list [.text "stopped", .ofNat interpreter]
  | .breakpoint interpreter trace suspended =>
    .list [.text "break", .ofNat interpreter, .texts (trace.map TraceEntry.text), .flag suspended]

/-- A named list, left out if it is empty. -/
def entries (name : String) (items : Array Report) : List (String × Report) :=
  if items.isEmpty then [] else [(name, .list items.toList)]

/-- What was logged and what a debugger was told since the last call. -/
def takeNews : DomainM (List (String × Report)) := fun d =>
  let log := entries "log" d.host.log
  let events := entries "events" ((d.events.getD #[]).map Event.report)
  .ok (log ++ events)
    { d with host := { d.host with log := #[] }, events := d.events.map fun _ => #[] }

def storeAs (name : Option String) (v : Option Value) : SessionM Unit :=
  match name, v with
  | some name, some v =>
    anyway (Domain.modifyHost fun h => { h with stored := setNamed h.stored name v })
  | _, _ => pure ()

def withNews (news : List (String × Report)) : Report → Report
  | .record fields => .record (fields ++ news)
  | other => other

/-- Takes a step and reports it; `keepAs` names a variable for the value that it answers. -/
def step (keepAs : Option String) (x : SessionM Answer) : SessionM Report := do
  let result ←
    try
      let answer ← x
      storeAs keepAs answer.value
      pure (Report.record [("ok", answer.report)])
    catch e => anyway (Domain.reportError e)
  let news ← anyway takeNews
  return withNews news result

end Session

end ManagedMachine
