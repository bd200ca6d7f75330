import ManagedMachine.Proofs.BlockGrowth
import ManagedMachine.Proofs.HandlingFaults
import ManagedMachine.Proofs.Working

/-!
# Opening a frame raises what binders raise

Before the first instruction of a method its arguments are put in order and its locals get their
defaults. Types and layouts are worked out for that, and what fails there fails without an
exception. Only the default of a host struct is written by host code, its binder, and an exception
comes from there or not at all.

`Unexceptional` and `RaisedByBinder` go along with sequences, so each stage of opening a frame is
one lemma: the defaults of fields, the blocks of locals, and at last the locals in their order
(`raisedByBinder_openFrame`).
-/

set_option autoImplicit false
set_option relaxedAutoImplicit false

namespace ManagedMachine

open Engine

variable {α β : Type}

/-- A struct binder answers with the exception when it is to write a value. -/
def Bindings.Raises (b : Bindings) (raised : Raised) : Prop :=
  ∃ (name : String) (binder : StructBinder) (data : HostData),
    b.binder? name = some binder ∧ binder.write data = .error (.exception raised)

/-! ### Layouts and defaults -/

theorem Unexceptional.forM {σ γ : Type} {g : γ → EStateM Error σ PUnit}
    (h : ∀ c, Unexceptional (g c)) : (cs : List γ) → Unexceptional (cs.forM g)
  | [] => pure _
  | c :: cs => (h c).seqRight (forM h cs)

namespace Registry

theorem unexceptional_appendDefinedFields (home : ModuleId) (t : TypeId) :
    (l : FieldLayout) → (fields : List FieldDef) →
      Unexceptional (appendDefinedFields home t l fields)
  | l, [] => .pure l
  | _, _ :: rest => (unexceptional_resolveType home _ _).bind fun _ ↦
      unexceptional_appendDefinedFields home t _ rest

theorem unexceptional_appendHostFields (moduleName : String) (t : TypeId) :
    (l : FieldLayout) → (fields : List HostField) →
      Unexceptional (appendHostFields moduleName t l fields)
  | l, [] => .pure l
  | _, _ :: rest => (unexceptional_resolveIn _ _).bind fun _ ↦
      unexceptional_appendHostFields moduleName t _ rest

section Rows

variable {m : Module} {token : Token} {raised : Raised}

theorem rowAt_ne_exception {α : Type} (rows : Array α) (table : Table) :
    Module.rowAt rows token table ≠ .error (.exception raised) := by
  intro h
  rw [Module.rowAt] at h
  split at h <;> cases h

theorem fieldDef_ne_exception : m.fieldDef token ≠ .error (.exception raised) := by
  intro h
  rw [Module.fieldDef, Module.ownedAt] at h
  cases hplace : Module.rowAt m.fieldPlaces token .field with
  | error e =>
    rw [hplace] at h
    cases h
    exact rowAt_ne_exception _ _ hplace
  | ok place =>
    rw [hplace] at h
    simp only [bind, Except.bind, Module.entryAt] at h
    cases howner : m.types[place.owner]? with
    | none =>
      rw [howner] at h
      cases h
    | some owner =>
      rw [howner] at h
      dsimp only at h
      split at h <;> cases h

/-- Rows that are missing are no exception. -/
theorem lookUpAll_ne_exception : (tokens : List Token) →
    Module.lookUpAll m.fieldDef tokens ≠ .error (.exception raised)
  | [], h => nomatch h
  | t :: rest, h => by
    rw [Module.lookUpAll] at h
    cases hfound : m.fieldDef t with
    | error e =>
      rw [hfound] at h
      cases h
      exact fieldDef_ne_exception hfound
    | ok found =>
      rw [hfound] at h
      cases hrest : Module.lookUpAll m.fieldDef rest with
      | error e =>
        simp only [bind, Except.bind, hrest] at h
        cases h
        exact lookUpAll_ne_exception rest hrest
      | ok others =>
        simp only [bind, Except.bind, hrest] at h
        cases h

theorem fieldsOf_ne_exception (m : Module) (token : Token) (raised : Raised) :
    m.fieldsOf token ≠ .error (.exception raised) := by
  intro h
  rw [Module.fieldsOf, Module.fieldTokens] at h
  cases hlist : Module.rowAt m.fieldLists token .typeDef with
  | error e =>
    rw [hlist] at h
    cases h
    exact rowAt_ne_exception _ _ hlist
  | ok list =>
    rw [hlist] at h
    exact lookUpAll_ne_exception _ h

end Rows

/-- Layouts are worked out in the registry. -/
theorem unexceptional_buildLayout {inherited : TypeId → RegistryM FieldLayout}
    (hinherited : ∀ t, Unexceptional (inherited t)) (t : TypeId) :
    Unexceptional (buildLayout inherited t) := by
  have hfields (home : Home) (token : Token) (start : FieldLayout) : Unexceptional (do
      let rows ← lift fun _ ↦ home.content.fieldsOf token
      appendDefinedFields home.id t start (rows.map Prod.snd)) :=
    (unexceptional_lift fun _ ↦ fieldsOf_ne_exception _ token).bind fun _ ↦
      unexceptional_appendDefinedFields _ t start _
  refine (unexceptional_ask _).bind fun d ↦ ?_
  split
  · refine (unexceptional_baseType t).bind fun base ↦ ?_
    cases base with
    | none => exact hfields _ _ _
    | some base =>
      refine (unexceptional_ask _).bind fun d ↦ ?_
      split
      · exact (hinherited base).bind fun _ ↦ hfields _ _ _
      · exact hfields _ _ _
  · exact unexceptional_appendHostFields _ t _ _
  · exact .pure _

theorem unexceptional_layout : (fuel : Nat) → (t : TypeId) → Unexceptional (layout fuel t)
  | 0, _ => .throw nofun
  | fuel + 1, t => by
    refine (unexceptional_ask _).bind fun known ↦ ?_
    cases known with
    | some l => exact .pure l
    | none =>
      refine (unexceptional_buildLayout (unexceptional_layout fuel) t).bind fun l ↦ ?_
      exact Unexceptional.seqRight (.modify _) (unexceptional_ask _)

theorem unexceptional_localsOf (id : MethodId) : Unexceptional (localsOf id) := by
  refine Unexceptional.get.bind fun r ↦ ?_
  dsimp only
  split
  · exact .pure _
  · split
    · next body home _ _ _ =>
      have htypes : Unexceptional (resolveTypes home.id (.ofMethod (r.method id)) body.locals) :=
        Unexceptional.mapM (unexceptional_resolveType _ _) _
      exact htypes.bind fun types ↦ (Unexceptional.modify _).bind fun _ ↦ .pure types
    · refine .throw ?_
      exact nofun

end Registry

theorem Domain.unexceptional_newObject (o : HeapObject) : Unexceptional (Domain.newObject o) := by
  intro d d' raised h
  cases h

/-- The default of a field is a number, null, or an object of the type. -/
theorem Domain.unexceptional_defaultValue : (fuel : Nat) → (t : TypeId) →
    Unexceptional (Domain.defaultValue fuel t)
  | 0, _ => .throw nofun
  | fuel + 1, t => by
    refine (Domain.unexceptional_ask _).bind fun d ↦ ?_
    split
    · exact .pure _
    · split
      · exact .pure _
      · split
        · split
          · exact Domain.unexceptional_newObject _
          · exact .pure _
        · refine (Domain.unexceptional_inRegistry (Registry.unexceptional_layout fuel t)).bind
            fun l ↦ ?_
          have hfields : Unexceptional
              (l.instance_.mapM fun (f : Field) ↦ Domain.defaultValue fuel f.type) :=
            Unexceptional.mapM (fun (f : Field) ↦ Domain.unexceptional_defaultValue fuel f.type) _
          exact hfields.bind fun _ ↦ Domain.unexceptional_newObject _

/-! ### Binders -/

/-- Where the code fails with an exception, it is one that a binder has answered with. -/
def RaisedByBinder (x : RunM α) : Prop :=
  ∀ r raised r', x r = .error (.exception raised) r' → r.domain.bindings.Raises raised

theorem Unexceptional.raisedByBinder {x : RunM α} (h : Unexceptional x) : RaisedByBinder x :=
  fun r raised r' hx ↦ absurd hx (h r r' raised)

/-- The bindings are the same after work on the machine, so the exceptions of what follows on a
result are theirs too. -/
theorem RaisedByBinder.bind_ok {x : RunM α} {f : α → RunM β} (hx : RaisedByBinder x)
    (hworks : Works Domain.Extends x)
    (hf : ∀ r a s, x r = .ok a s → ∀ raised r', f a s = .error (.exception raised) r' →
      s.domain.bindings.Raises raised) : RaisedByBinder (x >>= f) := by
  intro r raised r' h
  cases hresult : x r with
  | ok a s =>
    rw [bind_of_ok hresult] at h
    rw [← (hworks.ok hresult).domain.bindings]
    exact hf r a s hresult raised r' h
  | error e s =>
    rw [bind_of_error hresult] at h
    cases h
    exact hx r raised _ hresult

theorem RaisedByBinder.bind {x : RunM α} {f : α → RunM β} (hx : RaisedByBinder x)
    (hworks : Works Domain.Extends x) (hf : ∀ a, RaisedByBinder (f a)) :
    RaisedByBinder (x >>= f) :=
  hx.bind_ok hworks fun _ a s _ ↦ hf a s

theorem RaisedByBinder.forM {γ : Type} {g : γ → RunM PUnit} (h : ∀ c, RaisedByBinder (g c))
    (hworks : ∀ c, Works Domain.Extends (g c)) : (cs : List γ) → RaisedByBinder (cs.forM g)
  | [] => (Unexceptional.pure _).raisedByBinder
  | c :: cs => (h c).bind (hworks c) fun _ ↦ forM h hworks cs

namespace Stack

theorem slotAt_ne_exception (addr : Nat) (st : Stack) (raised : Raised) :
    st.slotAt addr ≠ .error (.exception raised) := by
  unfold slotAt
  split <;> exact nofun

theorem unexceptional_setSlot (addr : Nat) (s : Slot) : Unexceptional (setSlot addr s) := by
  intro st st' raised
  unfold setSlot
  split <;> exact nofun

theorem unexceptional_allocBlock (t : TypeId) (fields : Nat) :
    Unexceptional (allocBlock t fields) := by
  intro st st' raised
  unfold allocBlock
  split <;> exact nofun

end Stack

namespace Engine

theorem unexceptional_read {query : Stack → Except Error α}
    (h : ∀ st raised, query st ≠ .error (.exception raised)) : Unexceptional (read query) := by
  intro r r' raised hread
  unfold read at hread
  split at hread
  · cases hread
  · next e he =>
    cases hread
    exact h r.stack raised he

theorem unexceptional_descriptor (t : TypeId) : Unexceptional (descriptor t) := by
  intro r r' raised
  rw [descriptor_ok]
  exact nofun

theorem unexceptional_inlineKind (fuel : Nat) (t : TypeId) : Unexceptional (inlineKind fuel t) := by
  refine (unexceptional_descriptor t).bind fun d ↦ ?_
  split
  · exact .pure _
  · refine (unexceptional_onDomain (Domain.unexceptional_ask _)).bind fun binder ↦ ?_
    cases binder with
    | some binder => exact .pure _
    | none =>
      dsimp only
      split
      · exact (unexceptional_onDomain (Domain.unexceptional_inRegistry
          (Registry.unexceptional_layout fuel t))).bind fun _ ↦ .pure _
      · exact .pure _

theorem unexceptional_isInline (fuel : Nat) (t : TypeId) : Unexceptional (isInline fuel t) :=
  (unexceptional_inlineKind fuel t).bind fun _ ↦ .pure _

theorem unexceptional_writeFields (d : Nat) (slots : List Slot) :
    Unexceptional (writeFields d slots) :=
  Unexceptional.forM (fun _ ↦ unexceptional_onStack (Stack.unexceptional_setSlot _ _)) _

/-- Writing the defaults of a bound struct asks its binder, which may raise. -/
theorem raisedByBinder_resetBound {binder : StructBinder} {t : TypeId} {r : Running} {name : String}
    (hbinder : r.domain.bindings.binder? name = some binder) (d : Nat) {raised : Raised}
    {r' : Running} (h : resetBound binder t d r = .error (.exception raised) r') :
    r.domain.bindings.Raises raised := by
  cases hzero : writeFields d (binder.fields.map Slot.zero) r with
  | error e s =>
    rw [resetBound, bind_of_error hzero] at h
    cases h
    exact absurd hzero (unexceptional_writeFields d _ _ _ raised)
  | ok _ s =>
    rw [resetBound, bind_of_ok hzero, bind_of_ok (descriptor_ok t s)] at h
    cases hdefault : (s.domain.registry.type t).native?.bind HostType.default with
    | none =>
      simp only [hdefault] at h
      cases h
    | some data =>
      simp only [hdefault] at h
      cases hwrite : binder.write data with
      | error e =>
        rw [hwrite] at h
        cases h
        exact ⟨name, binder, data, hbinder, hwrite⟩
      | ok slots =>
        rw [hwrite] at h
        exact absurd h (unexceptional_writeFields d slots s r' raised)

theorem raisedByBinder_freshSlot {alloc : TypeId → RunM Nat}
    (halloc : ∀ t, RaisedByBinder (alloc t))
    (hworks : ∀ t, Works Domain.Extends (alloc t)) (fuel : Nat) (t : TypeId) :
    RaisedByBinder (freshSlot alloc fuel t) := by
  unfold freshSlot
  refine (unexceptional_descriptor t).raisedByBinder.bind (looks_descriptor t) fun d ↦ ?_
  split
  · exact (Unexceptional.pure _).raisedByBinder
  · refine (unexceptional_isInline fuel t).raisedByBinder.bind (looks_isInline fuel t)
      fun inline ↦ ?_
    split
    · exact (halloc t).bind (hworks t) fun _ ↦ (Unexceptional.pure _).raisedByBinder
    · refine Unexceptional.raisedByBinder ?_
      have hentry (v : Value) :
          Unexceptional (do return Slot.object (← Stack.pushEntry v) : RunM Slot) :=
        (unexceptional_onStack (Stack.unexceptional_pushEntry v)).bind fun _ ↦ .pure _
      split
      · exact (unexceptional_onDomain (Domain.unexceptional_defaultValue fuel t)).bind hentry
      · exact hentry _

theorem raisedByBinder_allocBlock (t : TypeId) (fields : Nat) :
    RaisedByBinder (Stack.allocBlock t fields : RunM Nat) :=
  (unexceptional_onStack (Stack.unexceptional_allocBlock t fields)).raisedByBinder

/-- A block of a bound struct starts with what the binder writes. -/
theorem raises_of_allocBound {binder : StructBinder} {t : TypeId} {r r' : Running} {name : String}
    {raised : Raised} (hbinder : r.domain.bindings.binder? name = some binder)
    (h : (do
      let d ← Stack.allocBlock t binder.fields.length
      resetBound binder t d
      return d : RunM Nat) r = .error (.exception raised) r') : r.domain.bindings.Raises
        raised := by
  cases hblock : (Stack.allocBlock t binder.fields.length : RunM Nat) r with
  | error e u =>
    rw [bind_of_error hblock] at h
    cases h
    exact raisedByBinder_allocBlock t _ r raised _ hblock
  | ok d u =>
    rw [bind_of_ok hblock] at h
    have hworks := works_onStack (Q := Domain.Extends) (Stack.allocBlock t binder.fields.length)
    have hsame := (hworks.ok hblock).domain.bindings
    rw [← hsame] at hbinder ⊢
    cases hreset : resetBound binder t d u with
    | error e w =>
      rw [bind_of_error hreset] at h
      cases h
      exact raisedByBinder_resetBound hbinder d hreset
    | ok _ w =>
      rw [bind_of_ok hreset] at h
      cases h

theorem raisedByBinder_setFresh {alloc : TypeId → RunM Nat} (halloc : ∀ t, RaisedByBinder (alloc t))
    (hworks : ∀ t, Works Domain.Extends (alloc t)) (fuel addr : Nat) (t : TypeId) :
    RaisedByBinder (do
      let slot ← freshSlot alloc fuel t
      Stack.setSlot addr slot : RunM Unit) :=
  (raisedByBinder_freshSlot halloc hworks fuel t).bind (works_freshSlot hworks fuel t) fun slot ↦
    (unexceptional_onStack (Stack.unexceptional_setSlot addr slot)).raisedByBinder

/-- By recursion on the depth of the struct. -/
theorem raisedByBinder_allocInline :
    (fuel : Nat) → (t : TypeId) → RaisedByBinder (allocInline fuel t)
  | 0, _ => Unexceptional.raisedByBinder (.throw nofun)
  | fuel + 1, t => by
    refine (unexceptional_inlineKind fuel t).raisedByBinder.bind_ok (looks_inlineKind fuel t)
      fun r kind s hkind ↦ ?_
    cases kind with
    | none =>
      refine Unexceptional.raisedByBinder ((unexceptional_descriptor t).bind fun d ↦ ?_) s
      refine .throw fun _ he ↦ ?_
      cases he
    | some kind =>
      cases kind with
      | bound binder =>
        intro raised r' h
        have hlooks := looks_inlineKind (R := Running.Across Domain.Extends) fuel t
        rcases style?_of_inlineKind hkind with ⟨b, hb, hstyle⟩ | ⟨l, hl, -⟩
        · cases hb
          have hbinder := Domain.binder_of_style? hstyle
          rw [← (hlooks.ok hkind).domain.bindings] at hbinder
          exact raises_of_allocBound hbinder h
        · cases hl
      | struct l =>
        have hset :=
          raisedByBinder_setFresh (raisedByBinder_allocInline fuel) (works_allocInline fuel)
          fuel
        have hworks (addr : Nat) (t : TypeId) : Works Domain.Extends (do
            let slot ← freshSlot (allocInline fuel) fuel t
            Stack.setSlot addr slot : RunM Unit) :=
          (works_freshSlot (works_allocInline fuel) fuel t).bind fun _ ↦ works_onStack _
        refine (raisedByBinder_allocBlock t _).bind (works_onStack _) (fun d ↦ ?_) s
        refine RaisedByBinder.bind ?_ ?_ fun _ ↦ (Unexceptional.pure d).raisedByBinder
        · refine .forM (fun p ↦ ?_) (fun p ↦ ?_) _
          · rcases p with ⟨f, i⟩
            exact hset _ f.type
          · rcases p with ⟨f, i⟩
            exact hworks _ f.type
        · refine .forM (fun p ↦ ?_) _
          rcases p with ⟨f, i⟩
          exact hworks _ f.type

/-! ### Arguments and locals -/

theorem unexceptional_ownArguments (m : Method) (argBase : Nat) :
    Unexceptional (ownArguments m argBase) := by
  refine Unexceptional.forM (fun p ↦ ?_) _
  rcases p with ⟨t, i⟩
  refine (unexceptional_descriptor t).bind fun d ↦ ?_
  split
  · refine (unexceptional_read (Stack.slotAt_ne_exception _)).bind fun s ↦ ?_
    split
    · exact (unexceptional_onStack (Stack.unexceptional_pushEntry _)).bind fun entry ↦
        unexceptional_onStack (Stack.unexceptional_setSlot _ _)
    · exact .pure _
  · exact .pure _

/-- Locals are set up in order, each of them as its type wants. -/
theorem raisedByBinder_placeLocals (fuel : Nat) (id : MethodId) (m : Method) (argBase : Nat) :
    RaisedByBinder (placeLocals fuel id m argBase) := by
  have hask {γ : Type} (query : Stack → γ) : Unexceptional (ask query) := by
    intro r r' raised h
    cases h
  have hlocal (t : TypeId) : RaisedByBinder (do push (← defaultSlot fuel t)) :=
    (raisedByBinder_freshSlot (raisedByBinder_allocInline fuel) (works_allocInline fuel)
      fuel t).bind
      (works_freshSlot (works_allocInline fuel) fuel t) fun s ↦
        (unexceptional_onStack (Stack.unexceptional_push s)).raisedByBinder
  have hworks (t : TypeId) : Works Domain.Extends (do push (← defaultSlot fuel t)) :=
    (works_freshSlot (works_allocInline fuel) fuel t).bind fun _ ↦ works_onStack _
  have hlocals : Unexceptional (Registry.localsOf id : RunM (List TypeId)) :=
    unexceptional_onDomain (Domain.unexceptional_inRegistry (Registry.unexceptional_localsOf id))
  refine (hask _).raisedByBinder.bind (looks_ask _) fun found ↦ ?_
  split
  · refine Unexceptional.raisedByBinder (Unexceptional.bind (fun r r' raised h ↦ ?_) fun name ↦ ?_)
    · cases h
    · exact .throw nofun
  · refine (unexceptional_ownArguments m argBase).raisedByBinder.bind (works_ownArguments m argBase)
      fun _ ↦ hlocals.raisedByBinder.bind (looks_inRegistry (Registry.grows_localsOf id))
        fun locals ↦ (hask _).raisedByBinder.bind (looks_ask _) fun localBase ↦ ?_
    exact (RaisedByBinder.forM hlocal hworks locals).bind (.forM hworks locals) fun _ ↦
      (Unexceptional.pure _).raisedByBinder

/-- An exception before the first instruction of a method comes from a binder. -/
theorem raisedByBinder_openFrame (fuel : Nat) (id : MethodId) (m : Method) (body : Body)
    (home : ModuleId) (argBase : Nat) : RaisedByBinder (openFrame fuel id m body home argBase) := by
  intro r raised r' h
  cases hplace : placeLocals fuel id m argBase r with
  | error e s =>
    rw [openFrame, bind_of_error hplace] at h
    cases h
    exact raisedByBinder_placeLocals fuel id m argBase r raised _ hplace
  | ok locals s =>
    rw [openFrame, bind_of_ok hplace] at h
    cases h

end Engine

end ManagedMachine
