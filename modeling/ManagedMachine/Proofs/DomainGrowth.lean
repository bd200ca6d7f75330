import ManagedMachine.Engine.Invocation
import ManagedMachine.Proofs.RegistryGrowth

/-!
Work on a domain leaves its configuration and its bindings alone, and what its registry knows stays
known: `Domain.Extends`. What a domain does for a running interpreter, and what host code does in
between, ends in an extension of the domain that it started with. Apart from the start and the end
of a type initializer, none of it changes how far the initializers have come, and only calls from
the host borrow interpreters: `Domain.Idle`. Whatever follows from that is a `Domain.Growth`, and
what holds across a loan as well is a `Domain.Lending`.

`Domain.fieldCount?` is the number of slots of an inline struct. It is fixed by a binder, or by the
layout that the registry keeps, so it never changes once it is known.
-/

set_option autoImplicit false
set_option relaxedAutoImplicit false

namespace ManagedMachine

namespace Domain

/-- The later domain has the same configuration and bindings, and knows all that the earlier one
knows. -/
structure Extends (d d' : Domain) : Prop where
  config : d'.config = d.config
  bindings : d'.bindings = d.bindings
  registry : d.registry.Extends d'.registry

theorem Extends.refl (d : Domain) : d.Extends d := ⟨rfl, rfl, .refl _⟩

theorem Extends.trans {d d' d'' : Domain} (h : d.Extends d') (h' : d'.Extends d'') :
    d.Extends d'' :=
  ⟨h'.config.trans h.config, h'.bindings.trans h.bindings, h.registry.trans h'.registry⟩

instance : IsPreorder Domain Extends where
  refl := Extends.refl
  trans _ _ _ := Extends.trans

theorem Extends.of_eq {d d' : Domain} (hconfig : d'.config = d.config)
    (hbindings : d'.bindings = d.bindings) (hregistry : d'.registry = d.registry) :
    d.Extends d' :=
  ⟨hconfig, hbindings, hregistry ▸ .refl _⟩

/-! ### The size of inline structs -/

/-- The number of slots of an inline struct, once it is known. -/
def fieldCount? (d : Domain) (t : TypeId) : Option Nat :=
  let type := d.registry.type t
  if !type.isStruct || type.primitive?.isSome then none
  else
    match d.bindings.binder? type.name with
    | some binder => some binder.fields.length
    | none =>
      if type.isInterpreted then (d.registry.facts.layouts[t]?).map (·.instance_.length) else none

theorem lt_size_of_isStruct {r : Registry} {t : TypeId} (h : (r.type t).isStruct = true) :
    t.index < r.types.size := by
  refine Nat.lt_of_not_le fun hout ↦ ?_
  have hnone : r.types[t.index]? = none := Array.getElem?_eq_none hout
  have hdefault : (default : Descriptor).isStruct = false := rfl
  simp [Registry.type, hnone, hdefault] at h

/-- A number of fields that is known stays, because a binder is never replaced and a layout never
forgotten. -/
theorem Extends.fieldCount? {d d' : Domain} (h : d.Extends d') {t : TypeId} {n : Nat}
    (hn : d.fieldCount? t = some n) : d'.fieldCount? t = some n := by
  simp only [Domain.fieldCount?] at hn ⊢
  split at hn
  · cases hn
  · next hinline =>
    have hstruct : (d.registry.type t).isStruct = true := by
      simp only [Bool.or_eq_true, not_or] at hinline
      simpa using hinline.1
    rw [h.registry.type_eq (lt_size_of_isStruct hstruct), h.bindings, if_neg hinline]
    split at hn
    · exact hn
    · split at hn
      · next hinterpreted =>
        obtain ⟨l, hl, hlength⟩ := Option.map_eq_some_iff.mp hn
        rw [if_pos hinterpreted, h.registry.layouts _ _ hl, Option.map_some, hlength]
      · cases hn

/-! ### Parts of a domain -/

/-- How far the initializer of a type has come. -/
def initState (d : Domain) (t : TypeId) : InitState := (d.statics[t]?).elim .untouched Statics.state

/-- The domain has grown, every type initializer is where it was, and so are the interpreters. -/
structure Idle (d d' : Domain) : Prop extends Extends d d' where
  inits : ∀ t, d'.initState t = d.initState t
  pool : d'.pool = d.pool

/-- What holds wherever domains grow while initializers and interpreters stay where they are. -/
class Growth (R : Domain → Domain → Prop) : Prop extends IsPreorder Domain R where
  idle {d d' : Domain} (h : d.Idle d') : R d d'

instance : Growth Extends := ⟨Idle.toExtends⟩

instance : Growth Idle where
  refl d := ⟨.refl d, fun _ ↦ rfl, rfl⟩
  trans _ _ _ h h' := ⟨h.toExtends.trans h'.toExtends, fun t ↦ (h'.inits t).trans (h.inits t),
    h'.pool.trans h.pool⟩
  idle := id

/-- The computation extends the domain, whether it succeeds or fails. -/
abbrev Grows {α : Type} (x : DomainM α) : Prop := Keeps Extends x

variable {α β : Type} {R : Domain → Domain → Prop} [Growth R]

theorem Growth.of_eq {d d' : Domain} (hconfig : d'.config = d.config)
    (hbindings : d'.bindings = d.bindings) (hregistry : d'.registry = d.registry)
    (hstatics : d'.statics = d.statics) (hpool : d'.pool = d.pool) : R d d' :=
  idle ⟨.of_eq hconfig hbindings hregistry, fun t ↦ by rw [initState, initState, hstatics], hpool⟩

theorem grows_ask (query : Domain → α) : Keeps R (ask query) := fun d ↦ refl_of R d

/-- What happens to the registry inside of a domain happens to the domain. -/
theorem grows_inRegistry {x : RegistryM α} (hx : Registry.Grows x) : Keeps R (inRegistry x) := by
  intro d
  cases h : x d.registry with
  | ok a r =>
    have hend : endState (inRegistry x) d = { d with registry := r } := by
      simp only [endState, inRegistry, h]
    rw [hend]
    exact Growth.idle ⟨⟨rfl, rfl, hx.ok h⟩, fun _ ↦ rfl, rfl⟩
  | error e r =>
    have hend : endState (inRegistry x) d = { d with registry := r } := by
      simp only [endState, inRegistry, h]
    rw [hend]
    exact Growth.idle ⟨⟨rfl, rfl, hx.error h⟩, fun _ ↦ rfl, rfl⟩

theorem grows_record (e : Event) : Keeps R (record e) :=
  Keeps.modify fun _ ↦ Growth.of_eq rfl rfl rfl rfl rfl

/-! ### Interpreters -/

/-- What holds wherever domains grow, and wherever an interpreter is lent and comes back. -/
class Lending (R : Domain → Domain → Prop) : Prop extends Growth R where
  lend {d d' : Domain} {i : Interpreter} (hid : i.id = d.pool.acquire.1.id)
    (h : R (endState acquire d) d') : R d (endState (release i) d')

theorem acquire_eq (d : Domain) : acquire d = .ok d.pool.acquire.1 (endState acquire d) := rfl

/-- A loan is of no consequence to relations that do not look at the interpreters. -/
theorem Lending.of_pool (h : ∀ d pool, R d { d with pool }) : Lending R where
  lend {d d' i} _ hrest := by
    have hacquire : R { d with pool := d.pool.acquire.2 } (endState acquire d) :=
      Growth.of_eq rfl rfl rfl rfl rfl
    have hrelease : R { d' with pool := d'.pool.release i } (endState (release i) d') :=
      Growth.of_eq rfl rfl rfl rfl rfl
    exact trans_of R (trans_of R (h d _) hacquire)
      (trans_of R hrest (trans_of R (h d' _) hrelease))

instance : Lending Extends := .of_pool fun _ _ ↦ .of_eq rfl rfl rfl

/-! ### Objects -/

theorem grows_allocate (o : HeapObject) :
    Keeps R (allocate o) := fun _ ↦ Growth.of_eq rfl rfl rfl rfl rfl

theorem grows_newObject (o : HeapObject) : Keeps R (newObject o) :=
  (grows_allocate o).bind fun _ ↦ .pure _

theorem grows_putObject (id : ObjectId) (o : HeapObject) : Keeps R (putObject id o) :=
  Keeps.modify fun _ ↦ Growth.of_eq rfl rfl rfl rfl rfl

theorem grows_stackFault (fault : StackFault) : Keeps R (stackFault fault : DomainM α) := .throw _

theorem grows_notAn (id : ObjectId) (what : String) : Keeps R (notAn id what : DomainM α) :=
  (grows_ask _).bind fun _ ↦ grows_stackFault _

theorem grows_instanceFields (id : ObjectId) : Keeps R (instanceFields id) := by
  unfold instanceFields
  refine (grows_ask _).bind fun o ↦ ?_
  split
  · exact .pure _
  · exact grows_notAn _ _

theorem grows_field (id : ObjectId) (i : Nat) : Keeps R (field id i) := by
  unfold field
  refine (grows_instanceFields id).bind fun fields ↦ ?_
  split
  · exact .pure _
  · exact grows_stackFault _

theorem grows_setField (id : ObjectId) (i : Nat) (v : Value) : Keeps R (setField id i v) := by
  unfold setField
  refine (grows_ask _).bind fun o ↦ ?_
  split
  · split
    · exact grows_putObject _ _
    · exact grows_stackFault _
  · exact grows_notAn _ _

theorem grows_arrayItems (id : ObjectId) : Keeps R (arrayItems id) := by
  unfold arrayItems
  refine (grows_ask _).bind fun o ↦ ?_
  split
  · exact .pure _
  · exact grows_notAn _ _

theorem grows_length (id : ObjectId) : Keeps R (length id) :=
  (grows_arrayItems id).bind fun _ ↦ .pure _

theorem grows_element? (id : ObjectId) (i : Nat) : Keeps R (element? id i) :=
  (grows_arrayItems id).bind fun _ ↦ .pure _

theorem grows_setElement (id : ObjectId) (i : Nat) (v : Value) : Keeps R (setElement id i v) := by
  unfold setElement
  refine (grows_ask _).bind fun o ↦ ?_
  split
  · split
    · exact (grows_putObject _ _).seqRight (.pure _)
    · exact .pure _
  · exact grows_notAn _ _

theorem grows_isStructObject (id : ObjectId) : Keeps R (isStructObject id) := grows_ask _

/-- Copies are made field by field. Objects are only added. -/
theorem grows_copyStruct : (fuel : Nat) → (id : ObjectId) → Keeps R (copyStruct fuel id)
  | 0, _ => .throw _
  | fuel + 1, id => by
    unfold copyStruct
    refine (grows_isStructObject id).bind fun isStruct ↦ ?_
    split
    · exact .pure _
    · refine (grows_ask _).bind fun o ↦ ?_
      split
      · refine (Keeps.mapM (fun v ↦ ?_) _).bind fun _ ↦ grows_allocate _
        split
        · exact (grows_copyStruct fuel _).bind fun _ ↦ .pure _
        · exact .pure _
      · refine (grows_ask _).bind fun copy ↦ ?_
        split
        · exact grows_allocate _
        · exact .pure _
      · exact .pure _

/-- Default values may need objects for the structs in them. -/
theorem grows_defaultValue : (fuel : Nat) → (t : TypeId) → Keeps R (defaultValue fuel t)
  | 0, _ => .throw _
  | fuel + 1, t => by
    unfold defaultValue
    refine (grows_ask _).bind fun d ↦ ?_
    split
    · exact .pure _
    · split
      · exact .pure _
      · split
        · split
          · exact grows_newObject _
          · exact .pure _
        · exact (grows_inRegistry (Registry.grows_layout fuel t)).bind fun l ↦
            (Keeps.mapM (fun _ ↦ grows_defaultValue fuel _) _).bind fun _ ↦ grows_newObject _

/-! ### Static fields -/

theorem initState_insert (d : Domain) (t u : TypeId) (s : Statics) :
    initState { d with statics := d.statics.insert t s } u =
      if t = u then s.state else d.initState u := by
  rw [initState, Std.HashMap.getElem?_insert]
  by_cases h : t = u
  · rw [if_pos (beq_iff_eq.mpr h), if_pos h]
    rfl
  · rw [if_neg (by simpa using h), if_neg h]
    rfl

/-- Static fields are put in place without touching the initializer. -/
theorem idle_putStatics {d : Domain} {t : TypeId} {s : Statics} (h : s.state = d.initState t) :
    d.Idle { d with statics := d.statics.insert t s } := by
  refine ⟨.of_eq rfl rfl rfl, fun u ↦ ?_, rfl⟩
  rw [initState_insert]
  split
  · next heq => rw [h, heq]
  · rfl

theorem staticsOf_of_known {d : Domain} {fuel : Nat} {t : TypeId} {s : Statics}
    (h : d.statics[t]? = some s) : staticsOf fuel t d = .ok s d := by
  have hask : ask (fun d ↦ d.statics[t]?) d = .ok (some s) d := by rw [ask, h]
  exact bind_of_ok hask

/-- The static fields of a type are there afterwards, and its initializer is where it was. -/
theorem staticsOf_spec (fuel : Nat) (t : TypeId) (d : Domain) :
    match staticsOf fuel t d with
    | .ok s d' => d.Idle d' ∧ d'.statics[t]? = some s ∧ s.state = d.initState t
    | .error _ d' => d.Idle d' := by
  cases hknown : d.statics[t]? with
  | some s =>
    rw [staticsOf_of_known hknown]
    exact ⟨refl_of Idle d, hknown, by rw [initState, hknown]; rfl⟩
  | none =>
    have hmake : staticsOf fuel t d = (do
        let l ← inRegistry (Registry.layout fuel t)
        let values ← l.statics.mapM fun f : Field ↦ defaultValue fuel f.type
        modify fun d : Domain ↦
          { d with statics := d.statics.insert t ⟨values.toArray, .untouched⟩ }
        return ⟨values.toArray, .untouched⟩ : DomainM Statics) d := by
      have hask : ask (fun d ↦ d.statics[t]?) d = .ok none d :=
        congrArg (EStateM.Result.ok · d) hknown
      exact bind_of_ok hask
    have hlayout : Keeps Idle (inRegistry (Registry.layout fuel t)) :=
      grows_inRegistry (Registry.grows_layout fuel t)
    have hvalues (fs : List Field) :
        Keeps Idle (fs.mapM fun f : Field ↦ defaultValue fuel f.type) :=
      .mapM (fun _ ↦ grows_defaultValue fuel _) fs
    cases hl : inRegistry (Registry.layout fuel t) d with
    | error e d₁ =>
      rw [hmake, bind_of_error hl]
      exact hlayout.error hl
    | ok l d₁ =>
      cases hv : l.statics.mapM (fun f : Field ↦ defaultValue fuel f.type) d₁ with
      | error e d₂ =>
        rw [hmake, bind_of_ok hl, bind_of_error hv]
        exact trans_of Idle (hlayout.ok hl) ((hvalues _).error hv)
      | ok values d₂ =>
        rw [hmake, bind_of_ok hl, bind_of_ok hv]
        have hidle : d.Idle d₂ := trans_of Idle (hlayout.ok hl) ((hvalues _).ok hv)
        have hstate : InitState.untouched = d.initState t := by rw [initState, hknown]; rfl
        exact ⟨trans_of Idle hidle (idle_putStatics (hstate.trans (hidle.inits t).symm)),
          Std.HashMap.getElem?_insert_self, hstate⟩

theorem staticsOf_ok {d d' : Domain} {fuel : Nat} {t : TypeId} {s : Statics}
    (h : staticsOf fuel t d = .ok s d') : d.Idle d' ∧ d'.statics[t]? = some s ∧
      s.state = d.initState t := by
  have hspec := staticsOf_spec fuel t d
  rwa [h] at hspec

theorem grows_staticsOf (fuel : Nat) (t : TypeId) : Keeps R (staticsOf fuel t) := by
  intro d
  have hspec := staticsOf_spec fuel t d
  unfold endState
  cases h : staticsOf fuel t d with
  | ok s d' =>
    rw [h] at hspec
    exact Growth.idle hspec.1
  | error e d' =>
    rw [h] at hspec
    exact Growth.idle hspec

theorem grows_static (fuel : Nat) (t : TypeId) (i : Nat) : Keeps R (static fuel t i) := by
  unfold static
  refine (grows_staticsOf fuel t).bind fun s ↦ ?_
  split
  · exact .pure _
  · exact grows_stackFault _

/-- Statics are no part of what an extension has to keep. -/
theorem grows_setStatic (fuel : Nat) (t : TypeId) (i : Nat) (v : Value) :
    Keeps R (setStatic fuel t i v) := by
  intro d
  cases h : staticsOf fuel t d with
  | error e d' =>
    have hfail : setStatic fuel t i v d = .error e d' := bind_of_error h
    rw [endState_error hfail]
    exact (grows_staticsOf fuel t).error h
  | ok s d' =>
    obtain ⟨hidle, -, hstate⟩ := staticsOf_ok h
    have hstored (values : Array Value) :
        d.Idle { d' with statics := d'.statics.insert t { s with values } } :=
      trans_of Idle hidle
        (idle_putStatics (s := { s with values }) (hstate.trans (hidle.inits t).symm))
    by_cases hi : i < s.values.size
    · have hput : setStatic fuel t i v d = .ok () { d' with
          statics := d'.statics.insert t { s with values := s.values.setIfInBounds i v } } :=
        (bind_of_ok h).trans (congrFun (if_pos hi) d')
      rw [endState_ok hput]
      exact Growth.idle (hstored _)
    · have hfault : setStatic fuel t i v d = .error (.stack (.noStaticSlot i)) d' :=
        (bind_of_ok h).trans (congrFun (if_neg hi) d')
      rw [endState_error hfault]
      exact Growth.idle hidle

theorem grows_putStatics (t : TypeId) (s : Statics) : Grows (putStatics t s) :=
  Keeps.modify fun _ ↦ .of_eq rfl rfl rfl

theorem grows_beginInitialization (fuel : Nat) (t : TypeId) :
    Grows (beginInitialization fuel t) := by
  unfold beginInitialization
  refine (grows_staticsOf fuel t).bind fun s ↦ ?_
  split
  · exact (grows_putStatics _ _).seqRight (.pure _)
  · exact .pure _

theorem grows_finishInitialization (fuel : Nat) (t : TypeId) :
    Grows (finishInitialization fuel t) :=
  (grows_staticsOf fuel t).bind fun _ ↦ grows_putStatics _ _

/-! ### Types of values -/

theorem grows_primitive (p : Primitive) : Keeps R (inRegistry (Registry.primitive p)) :=
  grows_inRegistry (Registry.grows_primitive p)

theorem grows_coreType (name : String) : Keeps R (inRegistry (Registry.coreType name)) :=
  grows_inRegistry (Registry.grows_coreType name)

theorem grows_typeOfValue (v : Value) : Keeps R (typeOfValue v) := by
  cases v with
  | null => exact .pure _
  | object id => exact (grows_ask _).bind fun _ ↦ .pure _
  | string s => exact (grows_coreType _).bind fun _ ↦ .pure _
  | _ => exact (grows_primitive _).bind fun _ ↦ .pure _

theorem grows_faultError (f : CoreLibrary.Fault) (message : String) :
    Keeps R (faultError f message) :=
  (grows_coreType _).bind fun _ ↦ (grows_newObject _).bind fun _ ↦ .pure _

theorem grows_raise (f : CoreLibrary.Fault) (message : String) :
    Keeps R (raise f message : DomainM α) :=
  (grows_faultError f message).bind fun _ ↦ .throw _

/-! ### Reports -/

/-- Reports carry the objects they have met along. -/
abbrev ReportGrows (R : Domain → Domain → Prop) (x : StateT (List ObjectId) DomainM α) : Prop :=
  ∀ seen, Keeps R (x seen)

theorem reportGrows_bind {x : StateT (List ObjectId) DomainM α}
    {f : α → StateT (List ObjectId) DomainM β} (hx : ReportGrows R x)
    (hf : ∀ a, ReportGrows R (f a)) :
    ReportGrows R (x >>= f) :=
  fun seen ↦ (hx seen).bind fun found ↦ hf found.1 found.2

theorem reportGrows_lift {x : DomainM α} (hx : Keeps R x) :
    ReportGrows R (liftM x : StateT (List ObjectId) DomainM α) :=
  fun _ ↦ hx.bind fun _ ↦ .pure _

theorem reportGrows_pure (a : α) : ReportGrows R (pure a) := fun _ ↦ .pure _

theorem reportGrows_mapM {γ : Type} {f : γ → StateT (List ObjectId) DomainM α}
    (hf : ∀ c, ReportGrows R (f c)) : (cs : List γ) → ReportGrows R (cs.mapM f)
  | [] => reportGrows_pure []
  | c :: cs => by
    rw [List.mapM_cons]
    exact reportGrows_bind (hf c) fun _ ↦
      reportGrows_bind (reportGrows_mapM hf cs) fun _ ↦ reportGrows_pure _

theorem grows_numberOf (id : ObjectId) : Keeps R (numberOf id) := by
  unfold numberOf
  refine Keeps.get_bind fun d ↦ ?_
  split
  · exact refl_of R d
  · exact Growth.of_eq rfl rfl rfl rfl rfl

theorem reportGrows_reportData {f : Value → StateT (List ObjectId) DomainM Report}
    (hf : ∀ v, ReportGrows R (f v)) (data : HostData) : ReportGrows R (reportData f data) := by
  cases data with
  | record values =>
    exact reportGrows_bind (reportGrows_mapM hf values) fun _ ↦ reportGrows_pure _
  | _ => exact reportGrows_pure _

/-- Reports number the objects that they come across, which is all that they do to a domain. -/
theorem reportGrows_reportWithin : (depth : Nat) → (v : Value) →
    ReportGrows R (reportWithin depth v)
  | 0, v => by cases v <;> exact reportGrows_pure _
  | depth + 1, v => by
    cases v with
    | object id =>
      refine reportGrows_bind (reportGrows_lift (grows_numberOf id)) fun n ↦ ?_
      refine reportGrows_bind (fun _ ↦ .pure _) fun seen ↦ ?_
      split
      · exact reportGrows_pure _
      · refine reportGrows_bind (fun _ ↦ .pure _) fun _ ↦ ?_
        refine reportGrows_bind (reportGrows_lift (grows_ask _)) fun d ↦ ?_
        split
        · exact reportGrows_bind (reportGrows_mapM (reportGrows_reportWithin depth) _) fun _ ↦
            reportGrows_pure _
        · exact reportGrows_bind (reportGrows_mapM (reportGrows_reportWithin depth) _) fun _ ↦
            reportGrows_pure _
        · exact reportGrows_bind (reportGrows_reportData (reportGrows_reportWithin depth) _)
            fun _ ↦ reportGrows_pure _
    | _ => exact reportGrows_pure _

theorem grows_report (v : Value) : Keeps R (report v) :=
  (grows_ask _).bind fun size ↦ (reportGrows_reportWithin (size + 1) v []).bind fun _ ↦ .pure _

theorem grows_reportError (e : Error) : Keeps R (reportError e) := by
  unfold reportError
  refine Keeps.get.bind fun d ↦ ?_
  dsimp only
  split
  · exact (grows_report _).bind fun _ ↦ .pure _
  · exact .pure _

/-! ### Host code -/

theorem grows_modifyHost (f : HostWorld → HostWorld) : Keeps R (modifyHost f) :=
  Keeps.modify fun _ ↦ Growth.of_eq rfl rfl rfl rfl rfl

theorem grows_setData (id : ObjectId) (data : HostData) : Keeps R (setData id data) := by
  unfold setData
  refine (grows_ask _).bind fun o ↦ ?_
  split
  · exact grows_putObject _ _
  · exact .pure _

theorem grows_serveHost (r : HostRequest) : Keeps R (serveHost r) := by
  cases r with
  | setCell name v => exact grows_modifyHost fun h ↦ { h with cells := setNamed h.cells name v }
  | setData id data => exact grows_setData id data
  | report v => exact grows_report v
  | reportError e => exact grows_reportError e
  | log entry => exact grows_modifyHost fun h ↦ { h with log := h.log.push entry }
  | _ => exact grows_ask _

theorem grows_runHost (p : HostProgram α) : Keeps R (runHost p) := .program grows_serveHost p

/-! ### Calls from the host -/

/-- Whether a value fits a type is found out in the registry. -/
theorem grows_fits (fuel : Nat) (v : Value) (t : TypeId) : Keeps R (fits fuel v t) := by
  unfold fits
  refine (grows_ask _).bind fun expected ↦ ?_
  split
  · exact .pure _
  · split
    · exact .pure _
    · split
      · unfold fitsPrimitive
        split
        all_goals first | exact .pure _ | exact grows_ask _
      · refine (grows_typeOfValue v).bind fun source ↦ ?_
        split
        · exact .pure _
        · exact grows_inRegistry (Registry.grows_isAssignable _ _ _)

theorem grows_checkArguments (fuel : Nat) (args : List Value) (params : List TypeId) :
    Keeps R (checkArguments fuel args params) := by
  refine .forM (fun ⟨⟨v, t⟩, i⟩ ↦ (grows_fits fuel v t).bind fun fit ↦ ?_) _
  split
  · exact .pure _
  · exact (grows_ask _).bind fun _ ↦ .throw _

theorem grows_checkReceiver (m : Method) (receiver : Option Value) :
    Keeps R (checkReceiver m receiver) := by
  unfold checkReceiver
  split
  · exact .pure _
  · split
    · exact (grows_ask _).bind fun _ ↦ .throw _
    · exact (grows_ask _).bind fun _ ↦ .throw _
    · exact .pure _

theorem grows_findMethod (fuel : Nat) (typeName name : String) (count : Nat) :
    Keeps R (findMethod fuel typeName name count) := by
  unfold findMethod
  refine (grows_inRegistry (Registry.grows_resolve _)).bind fun t ↦ ?_
  refine (grows_inRegistry (Registry.grows_findMethod _ _ _ _)).bind fun found ↦ ?_
  split
  · exact .pure _
  · exact .throw _

end Domain

end ManagedMachine
