import ManagedMachine.Session.Basic

/-!
Steps that equip a session: modules, host types, bindings, adaptors, and the steps that need no
domain.
-/

set_option autoImplicit false
set_option relaxedAutoImplicit false

namespace ManagedMachine.Session

/-! ### Modules -/

/-- What became of a row, as a report. -/
def reportRow : ModuleDescription.Row → DomainM Report
  | .ok token => return .record [("ok", .optionalText (token.map Token.text))]
  | .error e => Domain.reportError e

/-- Builds and loads a module. -/
def loadModule (m : ModuleDescription) : SessionM Answer := do
  requireDomain
  let (rows, content) := m.build
  let rows ← rows.mapM fun row => anyway (reportRow row)
  let id ← within (Domain.loadModule content)
  return plain (.record [("module", .text id.text), ("rows", .list rows)])

/-- Loads a module and reports only what failed. -/
def setUp (m : ModuleDescription) : SessionM (List Report) := do
  let (rows, content) := m.build
  let failed := rows.filterMap fun
    | .error e => some e
    | .ok _ => none
  let loaded ←
    try
      let _ ← within (Domain.loadModule content)
      pure []
    catch e => pure [e]
  (failed ++ loaded).mapM fun e => anyway (Domain.reportError e)

def addHostModule (m : HostModule) : SessionM Answer := do
  (Registry.addHostModule m : SessionM Unit)
  return plain (.record [("host_modules", .ofNat (← ask (·.registry.host.size)))])

/-! ### Bindings and adaptors -/

def bind (entry : Binding.Entry) : SessionM Answer := do
  return plain (.flag (← within (Domain.inBindings (Bindings.register entry))))

def freeze : SessionM Answer := do
  within (modify fun d => { d with bindings := d.bindings.freeze })
  return plain (.flag (← ask (·.bindings.frozen)))

def initialize_ (entries : List Binding.Entry) : SessionM Answer := do
  return plain (.flag (← within (Domain.initializeBindings entries)))

/-- Which tables have an entry of a key. -/
def bound (key : String) : SessionM Answer := do
  let b ← ask (·.bindings)
  return plain (.record
    [("frozen", .flag b.frozen), ("redirect", .flag ((b.redirection? key).isSome)),
      ("field", .flag ((b.delegates? key).isSome)), ("getter", .flag ((b.getter? key).isSome)),
      ("setter", .flag ((b.setter? key).isSome)), ("array", .flag ((b.factory? key).isSome)),
      ("binder", .flag ((b.binder? key).isSome))])

def adaptor (a : Adaptor) : SessionM Answer := do
  within (Domain.registerAdaptor a)
  return plain (.ofNat (← ask (·.registry.adaptors.size)))

/-! ### Numbers -/

def counts : SessionM Answer := described fun r =>
  .record
    [("types", .ofNat r.types.size), ("modules", .ofNat r.modules.size),
      ("host", .ofNat r.host.size), ("cached_types", .ofNat r.tokens.types.size),
      ("cached_methods", .ofNat (r.tokens.methods.size + r.reached.size)),
      ("cached_fields", .ofNat r.tokens.fields.size), ("strings", .ofNat r.strings.size),
      ("adaptors", .ofNat r.adaptors.size)]

def pool : SessionM Answer := do
  let p ← ask (·.pool)
  return plain (.record
    [("idle", .ofNat p.idle.length), ("created", .ofNat p.created),
      ("live", .list (p.live.map .ofNat))])

def reportConfig (c : Config) : Report :=
  .list [.ofNat c.stackCapacity, .ofNat c.maxCallDepth, .flag c.allowUnboundNative,
    .flag c.checkStructCasts]

def config : SessionM Answer := return plain (reportConfig (← ask (·.config)))

/-! ### Without a domain -/

/-- Lets go of the domain, and with it of its static fields. -/
def dropDomain : SessionM Answer := do
  modify fun s => { s with isLive := false }
  return plain .null

def weak : SessionM Answer := do
  requireDomain
  return plain (.flag true)

def show_ (l : Literal) : SessionM Answer := do valued (← value l)

def setCell (name : String) (l : Literal) : SessionM Answer := do
  let v ← value l
  anyway (Domain.setCell name v)
  return plain .null

def cell (name : String) : SessionM Answer := do
  valued (← anyway (Domain.ask fun d => namedValue d.host.cells name))

/-- Forgets a variable and every object that was numbered; numbers start again. -/
def dropStored (name : String) : SessionM Answer := do
  anyway (Domain.modifyHost fun h =>
    { h with stored := h.stored.filter (·.1 != name), numbered := #[] })
  return plain .null

end ManagedMachine.Session
