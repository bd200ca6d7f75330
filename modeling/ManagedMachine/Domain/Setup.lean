import ManagedMachine.Domain.HostService

/-!
What a domain is equipped with: modules, adaptors and bindings.
-/

set_option autoImplicit false
set_option relaxedAutoImplicit false

namespace ManagedMachine.Domain

/-- Loads a module; an attached debugger is told each time, by the name under which the version was
loaded first. -/
def loadModule (m : Module) : DomainM ModuleId := do
  let id ← Registry.loadModule m
  let loaded ← Registry.lift (·.module id)
  record (.moduleLoaded id loaded.name)
  return id

/-- Registers an adaptor; its type comes into use with it. -/
def registerAdaptor (adaptor : Adaptor) : DomainM Unit := do
  let (result, adaptors) ← ask fun d => d.registry.adaptors.register adaptor
  modify fun d => { d with registry := { d.registry with adaptors } }
  ofExcept result
  let _ ← Registry.ofHostType adaptor.type

/-- Enters bindings in order up to the first failure, and logs each one. -/
def bindAll : List Binding.Entry → DomainM Unit
  | [] => pure ()
  | entry :: rest => do
    let added ← inBindings (Bindings.register entry)
    log (.record [("bound", .text entry.key), ("added", .flag added)])
    bindAll rest

/-- Enters bindings and freezes the tables, also after a failure. Code that ends without an answer
leaves them as they are, and frozen tables take nothing. -/
def initializeBindings (entries : List Binding.Entry) : DomainM Bool := do
  if !(← ask (·.bindings.frozen)) then
    try bindAll entries
    catch e =>
      match e with
      | .bindingThread _ => throw e
      | _ => do
        modify fun d => { d with bindings := d.bindings.freeze }
        throw e
    modify fun d => { d with bindings := d.bindings.freeze }
  ask (·.bindings.frozen)

end ManagedMachine.Domain
