import ManagedMachine.Domain.Objects

/-!
Prewarming: the operands of method bodies are resolved ahead of the first call. A recursive run goes
on with the interpreted types that the resolved operands belong to, layer by layer.
-/

set_option autoImplicit false
set_option relaxedAutoImplicit false

namespace ManagedMachine.Domain

/-- Resolves the operand of an instruction; the answer is the type that it leads to. -/
def resolveOperand (fuel : Nat) (home : ModuleId) (c : GenericContext) (i : Instruction)
    (token : Token) : RegistryM (Option TypeId) := do
  match i with
  | .call _ | .callVirtual _ | .newObject _ =>
    match ← Registry.resolveMethod fuel home token c with
    | some id => return some (← Registry.ask fun r => (r.method id).declaring)
    | none => return none
  | .loadField _ | .loadFieldAddr _ | .storeField _
  | .loadStatic _ | .loadStaticAddr _ | .storeStatic _ =>
    return some (← Registry.resolveField fuel home token c).declaring
  | .loadString _ => do
    let _ ← Registry.resolveString home token
    return none
  | _ => return some (← Registry.resolveTypeToken home token c)

/-- Resolves the operands of a body; the answer is their number and the types that they lead to. -/
def resolveOperands (fuel : Nat) (home : ModuleId) (c : GenericContext) :
    List Instruction → RegistryM (Nat × List TypeId)
  | [] => pure (0, [])
  | i :: rest => do
    match i.token? with
    | none => resolveOperands fuel home c rest
    | some token =>
      let t ← resolveOperand fuel home c i token
      let (count, ts) ← resolveOperands fuel home c rest
      return (count + 1, t.toList ++ ts)

/-- Prewarms a method. One that is warm already counts nothing but still leads on; members of open
types have to wait for an instantiation. -/
def prewarmMethod (fuel : Nat) (id : MethodId) : DomainM (Nat × List TypeId) := do
  let d ← get
  let m := d.registry.method id
  match m.body?, m.home? with
  | some body, some (home, _) =>
    if (d.registry.type m.declaring).isGenericDefinition then return (0, [])
    else
      match d.prewarmed[id]? with
      | some reached => return (0, reached)
      | none =>
        let locals ← Registry.localsOf id
        let (count, types) ← resolveOperands fuel home.id (.ofMethod m) body.code.toList
        let reached := locals ++ types
        modify fun d => { d with prewarmed := d.prewarmed.insert id reached }
        return (count, reached)
  | _, _ => return (0, [])

/-- The methods of a type that can be prewarmed. -/
def warmableMethods (t : TypeId) : DomainM (List MethodId) := do
  let methods ← Registry.methodsOf t
  ask fun d => methods.filter fun id =>
    let m := d.registry.method id
    m.body?.isSome && !m.isGenericDefinition

/-- The type inside of array and reference types. -/
def innermost (r : Registry) : (depth : Nat) → TypeId → TypeId
  | 0, t => t
  | depth + 1, t =>
    match (r.type t).element? with
    | some element => innermost r depth element
    | none => t

/-- The interpreted types among those reached that were not seen before, with all seen then. -/
def newTypes (r : Registry) : (seen reached : List TypeId) → List TypeId × List TypeId
  | seen, [] => ([], seen)
  | seen, t :: rest =>
    let t := innermost r (t.index + 1) t
    let d := r.type t
    if d.isInterpreted && !d.isGenericDefinition && !seen.contains t then
      let (new, seen) := newTypes r (t :: seen) rest
      (t :: new, seen)
    else newTypes r seen rest

/-- Prewarms a layer of methods and, if `recursive`, the layers that it leads to. The answer is the
number of operands. -/
def prewarmLayers (recursive : Bool) :
    (fuel : Nat) → (seen : List TypeId) → (methods : List MethodId) → DomainM Nat
  | 0, _, _ => throw .outOfFuel
  | _ + 1, _, [] => pure 0
  | fuel + 1, seen, methods => do
    let warmed ← methods.mapM (prewarmMethod fuel)
    let count := (warmed.map Prod.fst).sum
    if !recursive then return count
    else
      let reached := (warmed.map Prod.snd).flatten
      let (new, seen) ← ask fun d => newTypes d.registry seen reached
      let next ← new.mapM warmableMethods
      return count + (← prewarmLayers recursive fuel seen next.flatten)

/-- Prewarms the methods of a type. -/
def prewarm (fuel : Nat) (typeName : String) (recursive : Bool) : DomainM Nat := do
  let t ← Registry.resolve typeName
  prewarmLayers recursive fuel [t] (← warmableMethods t)

/-- The methods of each name, all overloads included. -/
def namedMethods (typeName : String) (all : List MethodId) : List String → DomainM (List MethodId)
  | [] => pure []
  | name :: rest => do
    let found ← ask fun d => all.filter fun id => (d.registry.method id).name == name
    if found.isEmpty then throw (.methodNotFound name typeName none)
    else return found ++ (← namedMethods typeName all rest)

/-- Prewarms the methods of a type that have one of the given names. -/
def prewarmMethods (fuel : Nat) (typeName : String) (names : List String) (recursive : Bool) :
    DomainM Nat := do
  let t ← Registry.resolve typeName
  let all ← warmableMethods t
  prewarmLayers recursive fuel [t] (← namedMethods typeName all names)

end ManagedMachine.Domain
