import ManagedMachine.Proofs.ClauseOrder

/-!
# Handling an exception raises none

On its way to a catch clause an exception is compared with the types that the clauses name, which
brings types into being, and the operands of the frame are dropped. All of this may fail, but never
with an exception: what leaves a frame as an exception is the one that was handled.

An operation is `Unexceptional` if none of its errors is an exception. That goes along with
everything code is put together of, so the functions that resolve and compare types are gone through
one after the other, from the registry to the stack.
-/

set_option autoImplicit false
set_option relaxedAutoImplicit false

namespace ManagedMachine

open Engine

variable {σ α β : Type}

/-- Where the code fails, it is not with an exception. -/
def Unexceptional (x : EStateM Error σ α) : Prop :=
  ∀ (s t : σ) (raised : Raised), x s ≠ .error (.exception raised) t

namespace Unexceptional

theorem pure (a : α) : Unexceptional (pure a : EStateM Error σ α) := nofun

theorem get : Unexceptional (get : EStateM Error σ σ) := nofun

theorem modify (f : σ → σ) : Unexceptional (modify f : EStateM Error σ PUnit) := nofun

theorem throw {e : Error} (he : ∀ raised, e ≠ .exception raised) :
    Unexceptional (throw e : EStateM Error σ α) := by
  intro s t raised h
  cases h
  exact he raised rfl

/-- Of two computations in a row, neither may fail with an exception. -/
theorem bind {x : EStateM Error σ α} {f : α → EStateM Error σ β} (hx : Unexceptional x)
    (hf : ∀ a, Unexceptional (f a)) : Unexceptional (x >>= f) := by
  intro s t raised h
  cases hresult : x s with
  | ok a u =>
    rw [bind_of_ok hresult] at h
    exact hf a u t raised h
  | error e u =>
    rw [bind_of_error hresult] at h
    cases h
    exact hx s t raised hresult

theorem seqRight {x : EStateM Error σ PUnit} {y : EStateM Error σ β} (hx : Unexceptional x)
    (hy : Unexceptional y) : Unexceptional (do x; y) :=
  hx.bind fun _ ↦ hy

theorem mapM {γ : Type} {g : γ → EStateM Error σ α} (h : ∀ c, Unexceptional (g c)) :
    (cs : List γ) → Unexceptional (cs.mapM g)
  | [] => pure []
  | c :: cs => by
    rw [List.mapM_cons]
    exact (h c).bind fun a ↦ (mapM h cs).bind fun as ↦ pure (a :: as)

theorem anyM {γ : Type} {g : γ → EStateM Error σ Bool} (h : ∀ c, Unexceptional (g c)) :
    (cs : List γ) → Unexceptional (cs.anyM g)
  | [] => pure false
  | c :: cs => (h c).bind fun b ↦ by
    cases b
    · exact anyM h cs
    · exact pure true

end Unexceptional

/-! ### Looking types up -/

namespace Registry

theorem unexceptional_ask (query : Registry → α) : Unexceptional (ask query) := nofun

theorem unexceptional_lift {query : Registry → Except Error α}
    (h : ∀ r raised, query r ≠ .error (.exception raised)) : Unexceptional (lift query) := by
  intro s t raised
  unfold lift
  split
  · exact nofun
  · next e he =>
    intro hlift
    cases hlift
    exact h s raised he

theorem unexceptional_intern (d : Descriptor) : Unexceptional (intern d) := by
  refine (unexceptional_ask _).bind fun known ↦ ?_
  cases known with
  | some t => exact .pure t
  | none =>
    have hadd : Unexceptional (addType d) := nofun
    exact hadd.bind fun t ↦ Unexceptional.seqRight (.modify _) (.pure t)

theorem unexceptional_makeArray (element : TypeId) (rank : UInt8) :
    Unexceptional (makeArray element rank) :=
  (unexceptional_ask _).bind fun _ ↦ unexceptional_intern _

theorem unexceptional_makeByRef (element : TypeId) : Unexceptional (makeByRef element) :=
  (unexceptional_ask _).bind fun _ ↦ unexceptional_intern _

theorem unexceptional_makeParameter (name : String) : Unexceptional (makeParameter name) :=
  unexceptional_intern _

theorem unexceptional_makeInstance (definition : TypeId) (args : List TypeId) :
    Unexceptional (makeInstance definition args) := by
  refine Unexceptional.get.bind fun r ↦ ?_
  dsimp only
  split
  · exact .throw nofun
  · exact unexceptional_intern _

theorem unexceptional_ofHostType (type : HostType) : Unexceptional (ofHostType type) := by
  refine (unexceptional_ask _).bind fun known ↦ ?_
  cases known with
  | some t => exact .pure t
  | none =>
    have hadd : Unexceptional (addType ⟨type.fullName, .native type, [], none⟩) := nofun
    refine hadd.bind fun t ↦ Unexceptional.seqRight (.modify _) ?_
    refine Unexceptional.seqRight (.modify _) ?_
    cases type.backing with
    | some kind => exact Unexceptional.seqRight (.modify _) (.pure t)
    | none => exact .pure t

theorem unexceptional_definedType (id : ModuleId) (token : Token) :
    Unexceptional (definedType id token) := by
  refine (unexceptional_ask _).bind fun known ↦ ?_
  cases known with
  | some t => exact .pure t
  | none => exact .throw nofun

theorem unexceptional_lookup? (name : String) (scope : Option String) :
    Unexceptional (lookup? name scope) := by
  refine Unexceptional.get.bind fun r ↦ ?_
  split
  · exact .pure _
  · split
    · exact (unexceptional_ofHostType _).bind fun t ↦ .pure _
    · exact .pure _

theorem unexceptional_resolveIn (name : String) (scope : Option String) :
    Unexceptional (resolveIn name scope) := by
  refine (unexceptional_lookup? _ _).bind fun found ↦ ?_
  cases found with
  | some t => exact .pure t
  | none =>
    dsimp only
    split
    · refine (unexceptional_lookup? _ _).bind fun nested ↦ ?_
      cases nested with
      | some t => exact .pure t
      | none => exact .throw nofun
    · exact .throw nofun

theorem unexceptional_coreType (name : String) : Unexceptional (coreType name) :=
  unexceptional_resolveIn _ _

theorem unexceptional_wrapAround {wrap : TypeId → RegistryM TypeId} (closed : Bool)
    (hwrap : ∀ t, Unexceptional (wrap t)) (found : Resolution) :
    Unexceptional (wrapAround wrap closed found) := by
  cases found with
  | fixed t | dependent t => exact (hwrap t).bind fun _ ↦ .pure _
  | unbound name => exact .pure _

mutual

/-- By recursion on the signature. The names in it may be missing, which is no exception. -/
theorem unexceptional_resolveSignature (home : ModuleId) (c : GenericContext) :
    (s : Signature) → Unexceptional (resolveSignature home c s)
  | .definition token => by
    unfold resolveSignature
    exact (unexceptional_definedType _ _).bind fun _ ↦ .pure _
  | .named name scope => by
    unfold resolveSignature
    exact (unexceptional_resolveIn _ _).bind fun _ ↦ .pure _
  | .parameter name => by
    unfold resolveSignature
    refine (unexceptional_ask _).bind fun bound ↦ ?_
    split <;> exact .pure _
  | .byRef inner => by
    rw [resolveSignature_byRef]
    exact (unexceptional_resolveSignature home c inner).bind
      (unexceptional_wrapAround _ unexceptional_makeByRef)
  | .array element rank => by
    rw [resolveSignature_array]
    exact (unexceptional_resolveSignature home c element).bind
      (unexceptional_wrapAround _ fun t ↦ unexceptional_makeArray t rank)
  | .instantiation head args => by
    unfold resolveSignature
    refine (unexceptional_resolveSignature home c head).bind fun resolved ↦ ?_
    have hargs (definition : TypeId) : Unexceptional (do
        let (args', fixed_) ← resolveArguments home c args
        let t ← makeInstance definition args'
        return Resolution.make t (fixed_ && !(Signature.instantiation head args).isOpen)) :=
      (unexceptional_resolveArguments home c args).bind fun _ ↦
        (unexceptional_makeInstance _ _).bind fun _ ↦ .pure _
    split
    · exact .pure _
    · exact hargs _
    · exact hargs _
  | .pointer inner => by
    unfold resolveSignature
    exact .throw nofun
  | .functionPointer => by
    unfold resolveSignature
    exact .throw nofun

theorem unexceptional_resolveArguments (home : ModuleId) (c : GenericContext) :
    (signatures : List Signature) → Unexceptional (resolveArguments home c signatures)
  | [] => by
    unfold resolveArguments
    exact .pure _
  | s :: rest => by
    unfold resolveArguments
    refine (unexceptional_resolveSignature home c s).bind fun resolved ↦ ?_
    have hrest (first : TypeId × Bool) : Unexceptional (do
        let (ts, restFixed) ← resolveArguments home c rest
        return (first.1 :: ts, first.2 && restFixed)) :=
      (unexceptional_resolveArguments home c rest).bind fun _ ↦ .pure _
    split
    · exact hrest (_, true)
    · exact hrest (_, false)
    · exact (unexceptional_makeParameter _).bind fun t ↦ hrest (t, false)

end

theorem unexceptional_resolveType (home : ModuleId) (c : GenericContext) (s : Signature) :
    Unexceptional (resolveType home c s) := by
  refine (unexceptional_resolveSignature home c s).bind fun resolved ↦ ?_
  split
  · exact .pure _
  · exact .pure _
  · exact unexceptional_makeParameter _

theorem module_ne_exception (r : Registry) (id : ModuleId) (raised : Raised) :
    r.module id ≠ .error (.exception raised) := by
  unfold Registry.module
  split <;> exact nofun

theorem typeSignature_ne_exception (m : Module) (token : Token) (raised : Raised) :
    m.typeSignature token ≠ .error (.exception raised) := by
  have hrow {α : Type} (rows : Array α) (table : Table) :
      (∃ row, Module.rowAt rows token table = .ok row) ∨
        Module.rowAt rows token table = .error (.invalidToken token) := by
    unfold Module.rowAt
    split
    · exact .inl ⟨_, rfl⟩
    · exact .inr rfl
  unfold Module.typeSignature Module.typeDef Module.typeSpec
  split
  · rcases hrow m.types .typeDef with ⟨row, h⟩ | h <;> rw [h] <;> exact nofun
  · rcases hrow m.typeSpecs .typeSpec with ⟨row, h⟩ | h <;> rw [h] <;> exact nofun

theorem unexceptional_resolveTypeToken (home : ModuleId) (token : Token) (c : GenericContext) :
    Unexceptional (resolveTypeToken home token c) := by
  refine (unexceptional_ask _).bind fun known ↦ ?_
  cases known with
  | some t => exact .pure t
  | none =>
    refine (unexceptional_lift fun r ↦ r.module_ne_exception home).bind fun m ↦ ?_
    refine (unexceptional_lift fun _ ↦ typeSignature_ne_exception m token).bind fun s ↦ ?_
    refine (unexceptional_resolveSignature home c s).bind fun resolved ↦ ?_
    cases resolved with
    | fixed t => exact Unexceptional.seqRight (.modify _) (.pure t)
    | dependent t => exact .pure t
    | unbound name => exact .throw nofun

/-! ### Bases and interfaces -/

theorem unexceptional_findBase (t : TypeId) (d : Descriptor) : Unexceptional (findBase t d) := by
  unfold findBase
  split
  · split
    · exact .throw nofun
    · split
      · exact (unexceptional_resolveType _ _ _).bind fun _ ↦ .pure _
      · split
        · exact .pure _
        · split <;> exact (unexceptional_coreType _).bind fun _ ↦ .pure _
  · split
    · exact (unexceptional_resolveIn _ _).bind fun _ ↦ .pure _
    · exact .pure _
  · exact (unexceptional_coreType _).bind fun _ ↦ .pure _
  · exact .pure _
  · exact .pure _

theorem unexceptional_baseType (t : TypeId) : Unexceptional (baseType t) := by
  refine (unexceptional_ask _).bind fun known ↦ ?_
  cases known with
  | some base => exact .pure base
  | none =>
    refine (unexceptional_ask _).bind fun d ↦ (unexceptional_findBase t d).bind fun base ↦ ?_
    exact Unexceptional.seqRight (.modify _) (.pure base)

theorem unexceptional_findInterfaces (t : TypeId) (d : Descriptor) :
    Unexceptional (findInterfaces t d) := by
  unfold findInterfaces
  split
  · split
    · exact .mapM (unexceptional_resolveType _ _) _
    · exact .pure _
  · exact .mapM (fun _ ↦ unexceptional_resolveIn _ _) _
  · exact .pure _

theorem unexceptional_interfaces (t : TypeId) : Unexceptional (interfaces t) := by
  refine (unexceptional_ask _).bind fun known ↦ ?_
  cases known with
  | some found => exact .pure found
  | none =>
    refine (unexceptional_ask _).bind fun d ↦ (unexceptional_findInterfaces t d).bind fun found ↦ ?_
    exact Unexceptional.seqRight (.modify _) (.pure found)

/-- By recursion on the bound on the way up. -/
theorem unexceptional_reaches (target : TypeId) :
    (fuel : Nat) → (t : TypeId) → Unexceptional (reaches target fuel t)
  | 0, _ => .throw nofun
  | fuel + 1, t => by
    unfold reaches
    split
    · exact .pure true
    · refine (unexceptional_ask _).bind fun isInterface ↦ ?_
      extract_lets climb
      have hclimb (found : Bool) : Unexceptional (climb found) := by
        cases found
        · refine (unexceptional_baseType t).bind fun base ↦ ?_
          cases base with
          | some base => exact unexceptional_reaches target fuel base
          | none => exact .pure _
        · exact .pure true
      cases isInterface
      · exact hclimb false
      · refine (unexceptional_interfaces t).bind fun declared ↦ ?_
        exact (Unexceptional.anyM (unexceptional_reaches target fuel) declared).bind hclimb

theorem unexceptional_isAssignable (fuel : Nat) (source target : TypeId) :
    Unexceptional (isAssignable fuel source target) := by
  refine Unexceptional.get.bind fun r ↦ ?_
  split
  · exact .pure _
  · split
    · exact .pure _
    · exact unexceptional_reaches target fuel source

end Registry

/-! ### On the machine -/

theorem Domain.unexceptional_inRegistry {x : RegistryM α} (hx : Unexceptional x) :
    Unexceptional (Domain.inRegistry x) := by
  intro d d' raised h
  cases hresult : x d.registry with
  | ok a registry =>
    simp only [Domain.inRegistry, hresult] at h
    cases h
  | error e registry =>
    simp only [Domain.inRegistry, hresult] at h
    cases h
    exact hx _ _ raised hresult

theorem Domain.unexceptional_ask (query : Domain → α) : Unexceptional (Domain.ask query) := by
  intro d d' raised h
  cases h

theorem Domain.unexceptional_coreType (name : String) :
    Unexceptional (Registry.coreType name : DomainM TypeId) :=
  Domain.unexceptional_inRegistry (Registry.unexceptional_coreType name)

theorem Domain.unexceptional_typeOfValue (v : Value) : Unexceptional (Domain.typeOfValue v) := by
  cases v with
  | null => exact .pure _
  | object id => exact (Domain.unexceptional_ask _).bind fun _ ↦ .pure _
  | string s => exact (Domain.unexceptional_coreType _).bind fun _ ↦ .pure _
  | _ => exact (Domain.unexceptional_coreType _).bind fun _ ↦ .pure _

namespace Stack

variable {st : Stack} {raised : Raised}

theorem header_ne_exception (d : Nat) : st.header d ≠ .error (.exception raised) := by
  unfold header slotAt
  cases st.slots[d]? with
  | none => exact nofun
  | some s => cases s <;> exact nofun

theorem foldlM_ne_exception {f : β → α → Except Error β}
    (h : ∀ b a, f b a ≠ .error (.exception raised)) (l : List α) (b : β) :
    l.foldlM f b ≠ .error (.exception raised) := by
  induction l generalizing b with
  | nil => exact nofun
  | cons a l ih =>
    rw [List.foldlM_cons]
    cases hf : f b a with
    | ok b' => exact ih b'
    | error e =>
      intro he
      cases he
      exact h b a hf

/-- Looking for the end of a block may only find that the stack is broken. -/
theorem blockLow_ne_exception (d : Nat) : st.blockLow d ≠ .error (.exception raised) := by
  induction d using Nat.strongRecOn with
  | _ d ih =>
    rw [blockLow]
    cases hheader : st.header d with
    | error e =>
      intro he
      cases he
      exact header_ne_exception d hheader
    | ok found =>
      refine foldlM_ne_exception (fun low addr ↦ ?_) _ _
      split
      · next nested _ =>
        split
        · next hlt =>
          cases hnested : st.blockLow nested with
          | ok low' => exact nofun
          | error e =>
            intro he
            cases he
            exact ih nested hlt hnested
        · exact nofun
      · exact nofun

/-- The same of releasing an operand, with its entry and its blocks. -/
theorem unexceptional_pop : Unexceptional pop := by
  have hfree (d : Nat) : Unexceptional (freeBlock d) := by
    intro st st' raised
    unfold freeBlock
    split
    · rintro ⟨⟩
    · split
      · next e he =>
        intro h
        cases h
        exact blockLow_ne_exception d he
      · split <;> rintro ⟨⟩
  have hrelease (s : Slot) : Unexceptional (release s) := by
    refine Unexceptional.seqRight (.modify _) ?_
    split
    · exact hfree _
    · exact .pure _
  intro st st' raised
  unfold pop topAddr
  split
  · next e he =>
    split at he
    · cases he
      rintro ⟨⟩
    · cases he
  · exact hrelease _ _ st' raised

theorem unexceptional_push (s : Slot) : Unexceptional (push s) := by
  intro st st' raised
  unfold push
  split <;> exact nofun

theorem unexceptional_pushEntry (v : Value) : Unexceptional (pushEntry v) := nofun

theorem unexceptional_popMany : (count : Nat) → Unexceptional (popMany count)
  | 0 => .pure ()
  | count + 1 => unexceptional_pop.bind fun _ ↦ unexceptional_popMany count

end Stack

namespace Engine

theorem unexceptional_onDomain {x : DomainM α} (hx : Unexceptional x) :
    Unexceptional (Running.onDomain x) := by
  intro r r' raised h
  cases hresult : x r.domain with
  | ok a d =>
    simp only [Running.onDomain, hresult] at h
    cases h
  | error e d =>
    simp only [Running.onDomain, hresult] at h
    cases h
    exact hx _ _ raised hresult

theorem unexceptional_onStack {x : StackM α} (hx : Unexceptional x) :
    Unexceptional (Running.onStack x) := by
  intro r r' raised h
  cases hresult : x r.stack with
  | ok a st =>
    rw [onStack_of_ok hresult] at h
    cases h
  | error e st =>
    obtain ⟨d, n, st₀, frames⟩ := r
    have hx' : x st₀ = .error e st := hresult
    simp only [Running.onStack, hx'] at h
    cases h
    exact hx _ _ raised hresult

theorem unexceptional_popTo (addr : Nat) : Unexceptional (Stack.popTo addr : RunM Unit) := by
  have hpop : Unexceptional (Stack.popTo addr) := by
    intro st st' raised
    unfold Stack.popTo
    split
    · exact nofun
    · exact Stack.unexceptional_popMany _ st st' raised
  exact unexceptional_onStack hpop

theorem unexceptional_pushObject (v : Value) : Unexceptional (Stack.pushObject v : RunM Unit) := by
  refine unexceptional_onStack ?_
  unfold Stack.pushObject
  split
  · exact Stack.unexceptional_push _
  · exact (Stack.unexceptional_pushEntry v).bind fun _ ↦ Stack.unexceptional_push _

theorem unexceptional_withTrace (raised : Raised) : Unexceptional (withTrace raised) := by
  intro r r' raised'
  rw [withTrace_ok]
  exact nofun

theorem unexceptional_catchFit (fuel : Nat) (f : Frame) (v : Value) (clause : Clause) :
    Unexceptional (catchFit fuel f v clause) := by
  unfold catchFit
  split
  · exact .pure _
  · refine (unexceptional_onDomain (Domain.unexceptional_inRegistry
      (Registry.unexceptional_resolveTypeToken _ _ _))).bind fun caught ↦ ?_
    refine (unexceptional_onDomain (Domain.unexceptional_typeOfValue v)).bind fun source ↦ ?_
    split
    · exact .pure _
    · split
      · exact .pure _
      · refine (unexceptional_onDomain (Domain.unexceptional_inRegistry
          (Registry.unexceptional_isAssignable _ _ _))).bind fun fits ↦ ?_
        split <;> exact .pure _

theorem unexceptional_selectFrom {fits : Nat → Clause → RunM (Option CatchFit)}
    (h : ∀ i clause, Unexceptional (fits i clause)) (addr : Nat) : (best : Option Candidate) →
    (clauses : List (Nat × Clause)) → Unexceptional (selectFrom fits addr best clauses)
  | _, [] => .pure _
  | best, (index, clause) :: rest => by
    unfold selectFrom
    split
    · refine (h index clause).bind fun fit ↦ ?_
      cases fit with
      | none => exact unexceptional_selectFrom h addr best rest
      | some fit => exact unexceptional_selectFrom h addr _ rest
    · exact unexceptional_selectFrom h addr best rest

theorem unexceptional_finish (f : Frame) (resume : Resume) : Unexceptional (finish f resume) := by
  cases resume with
  | leave target => exact .pure _
  | propagate raised => exact .pure _
  | «catch» k raised =>
    exact (unexceptional_popTo _).bind fun _ ↦ (unexceptional_pushObject _).bind fun _ ↦ .pure _

theorem unexceptional_unwind (f : Frame) (clauses : List Nat) (resume : Resume) :
    Unexceptional (unwind f clauses resume) := by
  cases clauses with
  | nil => exact unexceptional_finish f resume
  | cons k rest => exact .pure _

theorem unexceptional_endFinally (f : Frame) : Unexceptional (endFinally f) := by
  unfold endFinally
  split
  · refine Unexceptional.bind (fun r r' raised h ↦ ?_) fun name ↦ .throw nofun
    cases h
  · exact (unexceptional_popTo _).bind fun _ ↦ .pure _
  · exact unexceptional_finish _ _

/-- Handling an exception may fail, but not with another one. -/
theorem unexceptional_handleException (fuel : Nat) (f : Frame) (addr : Nat) (raised : Raised) :
    Unexceptional (handleException fuel f addr raised) := by
  refine (unexceptional_withTrace raised).bind fun traced ↦ ?_
  have hselect : Unexceptional
      (selectCatch f.body.clauses addr fun _ ↦ catchFit fuel f traced.value) :=
    (unexceptional_selectFrom (fun _ ↦ unexceptional_catchFit fuel f traced.value) addr none _).bind
      fun _ ↦ .pure _
  refine hselect.bind fun catcher ↦ (unexceptional_popTo _).bind fun _ ↦ ?_
  exact unexceptional_unwind _ _ _

end Engine

end ManagedMachine
