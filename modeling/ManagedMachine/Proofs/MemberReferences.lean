import ManagedMachine.Proofs.RepeatedSignatures
import ManagedMachine.Proofs.TokenAnswers

/-!
# Methods by reference

A reference to a method names a type and copies a row: the name, what the method takes and returns,
a receiver and an arity. It finds the first method of the type that looks like the row, where
parameters and results are compared as types. Those of a method are what its row was resolved to
when the methods of the type were made, and the reference resolves the same signatures again, so
`Registry.repeats_resolveSignature` decides the comparison. Where two rows differ in their
signatures but not in the types, the reference to the second one finds the first.
-/

set_option autoImplicit false
set_option relaxedAutoImplicit false

namespace ManagedMachine

/-- The reference to a method of a type that copies the row of the method. -/
def MethodDef.reference (d : MethodDef) (on : Signature) : MethodRef :=
  ⟨on, d.name, d.params, d.ret, d.flags.hasThis, d.generics.length⟩

namespace Registry

variable {r r' r₁ z : Registry} {t u : TypeId} {id : MethodId} {ids : List MethodId} {home : Home}
  {token : Token} {c p : GenericContext} {s on : Signature} {found : Resolution} {ref : MethodRef}
  {d : MethodDef} {fuel k : Nat}

/-! ### What a reference takes and returns -/

/-- The type of a signature is found again where the context of the type leaves parameters open and
the other context binds nothing. -/
theorem resolveInEither_again (hz : z.Steady) (ho : r.Orderly) (ht : r.Has t)
    (hx : resolveType home.id (.ofType t) s r = .ok u r') (hr : r'.Recalls z)
    (hfree : ∀ name, c.find? z name = none) :
    resolveInEither home.id s (.ofType t) c z = .ok u z := by
  rw [resolveType] at hx
  obtain ⟨found, r₁, hfound, hrest⟩ := exists_of_bind hx
  obtain ⟨-, ho₁⟩ := Tidies.ok (grows_resolveSignature _ _ s) ho hfound
  have hrepeats := repeats_resolveSignature hz home.id s ho (hasContext_ofType ht) found r₁ hfound
  cases found with
  | fixed v | dependent v =>
    cases hrest
    exact bind_of_ok (hrepeats hr).2
  | unbound name =>
    have hlast : r₁.Recalls z := ((Building.makeParameter name).ok hrest : Tidies r₁ r').1.trans hr
    refine (bind_of_ok (hrepeats hlast).2).trans ?_
    dsimp only
    rw [resolveType_of_unbound (hfree name) (root?_of_unbound hfound).1]
    exact (repeats_makeParameter ho₁ name u r' hrest hr).2

/-- The parameters of a reference stand for the types. -/
def StandFor (z : Registry) (home : ModuleId) (p c : GenericContext) (signatures : List Signature)
    (types : List TypeId) : Prop :=
  List.Forall₂ (fun s u ↦ resolveInEither home s p c z = .ok u z) signatures types

/-- Signatures that were resolved for the method stand for the same types when the reference
resolves them. -/
theorem standFor_again (hz : z.Steady) {signatures : List Signature} {types : List TypeId}
    (ho : r.Orderly) (ht : r.Has t)
    (hx : resolveTypes home.id (.ofType t) signatures r = .ok types r') (hr : r'.Recalls z)
    (hfree : ∀ name, c.find? z name = none) :
    z.StandFor home.id (.ofType t) c signatures types := by
  rw [resolveTypes] at hx
  induction signatures generalizing r types with
  | nil =>
    cases hx
    exact .nil
  | cons s rest ih =>
    rw [List.mapM_cons] at hx
    obtain ⟨u, r₁, hu, hx⟩ := exists_of_bind hx
    obtain ⟨us, r₂, hus, hlast⟩ := exists_of_bind hx
    cases hlast
    obtain ⟨hr₁, ho₁⟩ := Tidies.ok (grows_resolveType _ _ s) ho hu
    have hr₂ : Tidies r₁ r' := (grows_resolveTypes _ _ rest).ok hus
    exact .cons (resolveInEither_again hz ho ht hu (hr₂.1.trans hr) hfree) (ih ho₁ (hr₁.has ht) hus)

/-- So comparing parameters is comparing types. -/
theorem paramsAgree_eq {home : ModuleId} {signatures : List Signature} {types types' : List TypeId}
    (h : z.StandFor home p c signatures types) (hlength : types'.length = signatures.length) :
    paramsAgree home p c signatures types' z = .ok (decide (types = types')) z := by
  induction h generalizing types' with
  | nil =>
    obtain rfl := List.length_eq_zero_iff.mp hlength
    rfl
  | @cons s u signatures types hu _ ih =>
    cases types' with
    | nil => cases hlength
    | cons u' types' =>
      rw [paramsAgree, bind_of_ok hu]
      by_cases heq : u = u'
      · rw [if_pos heq, ih (Nat.succ_inj.mp hlength), heq]
        simp
      · rw [if_neg heq]
        simp [heq, pure, EStateM.pure]

/-! ### Candidates -/

/-- Does the method have the name, the receiver and the arity that the reference says, and does it
take the types? -/
def fits (r : Registry) (ref : MethodRef) (types : List TypeId) (id : MethodId) : Bool :=
  (r.method id).name == ref.name && (r.method id).params.length == ref.params.length &&
    (r.method id).flags.hasThis == ref.hasThis && (r.method id).generics.length == ref.arity &&
    decide (types = (r.method id).params)

/-- Methods that fit are those with the types that the reference has. -/
theorem fitting_eq {home : ModuleId} {types : List TypeId}
    (h : z.StandFor home (.ofType t) c ref.params types) (hids : ∀ id ∈ ids, z.Declares t id) :
    fitting home ref c ids z = .ok (ids.filter (z.fits ref types)) z := by
  induction ids with
  | nil => rfl
  | cons id rest ih =>
    rw [List.forall_mem_cons] at hids
    have hcontext : GenericContext.ofMethod (z.method id) = .ofType t := by
      rw [GenericContext.ofMethod, hids.1.declaring, hids.1.args, GenericContext.ofType]
    rw [fitting, ask_bind, hcontext, List.filter_cons, fits]
    have hrest := ih hids.2
    cases hshape : (z.method id).name == ref.name &&
        (z.method id).params.length == ref.params.length &&
        (z.method id).flags.hasThis == ref.hasThis && (z.method id).generics.length ==
          ref.arity with
    | false => exact (bind_of_ok hrest).trans rfl
    | true =>
      have hlength : (z.method id).params.length = ref.params.length := by
        simp only [Bool.and_eq_true, beq_iff_eq] at hshape
        exact hshape.1.1.2
      refine (bind_of_ok (paramsAgree_eq h hlength)).trans ((bind_of_ok hrest).trans ?_)
      rfl

theorem byReturnType_eq {home : ModuleId}
    (hret : resolveInEither home ref.ret (.ofType t) c z = .ok u z)
    (hids : ∀ id ∈ ids, z.Declares t id) :
    byReturnType home ref c ids z = .ok (ids.find? fun id ↦ decide ((z.method id).ret = u)) z := by
  induction ids with
  | nil => rfl
  | cons id rest ih =>
    rw [List.forall_mem_cons] at hids
    have hcontext : GenericContext.ofMethod (z.method id) = .ofType t := by
      rw [GenericContext.ofMethod, hids.1.declaring, hids.1.args, GenericContext.ofType]
    rw [byReturnType, ask_bind, hcontext, bind_of_ok hret]
    by_cases hsame : u = (z.method id).ret
    · rw [if_pos hsame, List.find?_cons_of_pos (by simp [hsame])]
      rfl
    · rw [if_neg hsame, List.find?_cons_of_neg (by simp [eq_comm, hsame])]
      exact ih hids.2

/-- Two methods that no reference tells apart. -/
def Alike (r : Registry) (id id' : MethodId) : Prop :=
  (r.method id).name = (r.method id').name ∧
    (r.method id).flags.hasThis = (r.method id').flags.hasThis ∧
    (r.method id).generics.length = (r.method id').generics.length ∧
    (r.method id).params = (r.method id').params ∧ (r.method id).ret = (r.method id').ret

/-- The first of the candidates that fits and returns the type is found, be it by its parameters
alone. -/
theorem findOn_of_first {home : ModuleId} {types : List TypeId}
    (hmethods : methodsOf t r = .ok ids z) (hids : ∀ id ∈ ids, z.Declares t id)
    (hparams : z.StandFor home (.ofType t) c ref.params types)
    (hret : resolveInEither home ref.ret (.ofType t) c z = .ok u z)
    (hfirst : ids.find? (fun id ↦ z.fits ref types id && decide ((z.method id).ret = u)) =
      some id) :
    findOn home ref c t r = .ok (some id) z := by
  have hfind : (ids.filter (z.fits ref types)).find? (fun id ↦ decide ((z.method id).ret = u)) =
      some id := by
    rw [List.find?_filter, ← hfirst]
    simp
  have hfitting := fitting_eq hparams hids
  have hdeclares : ∀ id ∈ ids.filter (z.fits ref types), z.Declares t id :=
    fun id hid ↦ hids id (List.mem_of_mem_filter hid)
  rw [findOn, bind_of_ok hmethods, bind_of_ok hfitting]
  generalize ids.filter (z.fits ref types) = fitted at hfind hdeclares
  rcases fitted with _ | ⟨x, _ | ⟨y, rest⟩⟩
  · cases hfind
  · obtain rfl := List.mem_singleton.mp (List.mem_of_find?_eq_some hfind)
    rfl
  · refine (bind_of_ok (byReturnType_eq hret hdeclares)).trans ?_
    rw [hfind]
    rfl

theorem findReferenced_of_findOn {home : ModuleId} (h : findOn home ref c t r = .ok (some id) r') :
    findReferenced (fuel + 1) home ref c t r = .ok (some id) r' := by
  rw [findReferenced, walk, bind_assoc, bind_of_ok h]
  rfl

/-- The method is the first one that its own row describes. -/
theorem find?_of_first {row : Token × MethodDef} (hmade : z.MadeFrom t home row id)
    (hlength : (z.method id).params.length = row.2.params.length) (hid : ids[k]? = some id)
    (hfirst : ∀ j id', j < k → ids[j]? = some id' → ¬z.Alike id' id) :
    ids.find? (fun id' ↦ z.fits (row.2.reference on) (z.method id).params id' &&
      decide ((z.method id').ret = (z.method id).ret)) = some id := by
  obtain ⟨hk, hidk⟩ := List.getElem?_eq_some_iff.mp hid
  refine List.find?_eq_some_iff_getElem.mpr ⟨?_, k, hk, hidk, fun j hj ↦ ?_⟩
  · simp [fits, MethodDef.reference, hmade.name, hmade.flags, hmade.generics, hlength]
  · have hother := hfirst j ids[j] hj (List.getElem?_eq_getElem (hj.trans hk))
    rw [Alike, hmade.name, hmade.flags, hmade.generics] at hother
    simp only [fits, MethodDef.reference, Bool.not_eq_true', Bool.and_eq_false_iff,
      beq_eq_false_iff_ne, decide_eq_false_iff_not]
    grind

/-! ### Tokens of references -/

theorem findMethodToken_of_memberRef {home : ModuleId} {m : Module} (hm : r.module home = .ok m)
    (htable : token.table? = some .memberRef) (hrow : m.memberRef token = .ok (.method ref)) :
    findMethodToken home c (fuel + 1) token r = resolveMethodRef fuel home token ref c r := by
  have hlift : lift (fun _ ↦ m.memberRef token) r = .ok (.method ref) r := lift_of_ok hrow
  rw [findMethodToken, bind_of_ok (lift_of_ok hm), htable]
  exact bind_of_ok hlift

theorem resolveMethod_of_find {home : ModuleId} {answer : Option MethodId} {dependent : Bool}
    (hnew : r.tokens.methods[Reference.mk home token]? = none)
    (h : findMethodToken home c fuel token r = .ok (answer, dependent) r') :
    ∃ r'', resolveMethod fuel home token c r = .ok answer r'' := by
  rw [resolveMethod, ask_bind, hnew]
  cases answer <;> cases dependent <;> exact ⟨_, bind_of_ok h⟩

/-! ### A module with tools -/

end Registry

/-- The signature of a rack of tools. -/
def Signature.rackOfTools : Signature :=
  .instantiation (.definition (Module.typeToken 1)) [.definition (Module.typeToken 0)]

/-- A method of racks that gives back a tool. -/
def MethodDef.ofRack (name : String) (param : Signature) (generics : List String) : MethodDef :=
  ⟨name, MethodKind.instance_.flags, [param], .definition (Module.typeToken 0), generics, none⟩

/-- The method that puts a tool into a rack, whatever it is a rack of. -/
def MethodDef.putTool : MethodDef := .ofRack "Put" (.definition (Module.typeToken 0)) []

def MethodDef.takeTool : MethodDef := .ofRack "Take" (.definition (Module.typeToken 0)) ["S"]

/-- A module with a type `Tool` and a generic type `Rack`. A rack takes what it is a rack of, or a
tool, under one name, and has a generic method, to which the module has a reference. -/
def Module.tools : Module :=
  { Module.empty "Tools" with
    types := #[⟨"", "Tool", .none, none, [], [], #[], #[]⟩,
      ⟨"", "Rack", .none, none, [], ["T"], #[],
        #[.ofRack "Put" (.parameter "T") [], .putTool, .takeTool]⟩]
    methodPlaces := #[⟨1, 0⟩, ⟨1, 1⟩, ⟨1, 2⟩]
    fieldLists := #[#[], #[]]
    methodLists := #[#[],
      #[Token.next .methodDef 0, Token.next .methodDef 1, Token.next .methodDef 2]]
    memberRefs := #[.method (MethodDef.takeTool.reference .rackOfTools)] }

namespace Registry

variable {r r₁ z : Registry} {t : TypeId} {id : MethodId} {ids : List MethodId} {home : Home}
  {token : Token} {c : GenericContext} {on : Signature} {found : Resolution} {d : MethodDef}
  {fuel k : Nat}

/-- The registry that loading the module leaves, up to the meaning of names. -/
def ofTools (names : Std.HashMap String TypeId) : Registry :=
  { empty with
    types := #[⟨"Tool", .interpreted ⟨⟨0⟩, .tools⟩ (Module.typeToken 0), [], none⟩,
      ⟨"Rack", .interpreted ⟨⟨0⟩, .tools⟩ (Module.typeToken 1), [], none⟩]
    names
    modules := #[.tools]
    definitions := (({} : Std.HashMap Reference TypeId).insert ⟨⟨0⟩, Module.typeToken 0⟩ ⟨0⟩).insert
      ⟨⟨0⟩, Module.typeToken 1⟩ ⟨1⟩ }

def toolNames : Std.HashMap String TypeId :=
  (({} : Std.HashMap String TypeId).insertIfNew "Tool" ⟨0⟩).insertIfNew "Rack" ⟨1⟩

theorem loadModule_tools : loadModule .tools empty = .ok ⟨0⟩ (ofTools toolNames) := by
  have htool (fields methods) : definitionName ⟨"", "Tool", .none, none, [], [], fields, methods⟩ =
      "Tool" := by cbv
  have hrack (fields methods) :
      definitionName ⟨"", "Rack", .none, none, [], ["T"], fields, methods⟩ = "Rack" := by cbv
  simp [loadModule, addDefinitions, Module.tools, Module.empty, htool, hrack, empty, addType,
    addName, ofTools, toolNames, bind, EStateM.bind, get, getThe, MonadStateOf.get, EStateM.get,
    set, EStateM.set, modify, modifyGet, MonadStateOf.modifyGet, EStateM.modifyGet, pure,
    EStateM.pure]

/-- The registry after the type of racks of tools has come. -/
def withRack (names : Std.HashMap String TypeId) : Registry :=
  { ofTools names with
    types := (ofTools names).types.push
      ⟨"Rack<Tool>", .interpreted ⟨⟨0⟩, .tools⟩ (Module.typeToken 1), [⟨"T", ⟨0⟩⟩], some ⟨1⟩⟩
    names }

def rackNames : Std.HashMap String TypeId := toolNames.insertIfNew "Rack<Tool>" ⟨2⟩

/-- In the sample, the type that the reference names comes into use with it. -/
theorem resolveSignature_rackOfTools :
    resolveSignature ⟨0⟩ .empty .rackOfTools (ofTools toolNames) =
    .ok (.fixed ⟨2⟩) (withRack rackNames) := by
  have hrack (names) :
      resolveSignature ⟨0⟩ .empty (.definition (Module.typeToken 1)) (ofTools names) =
      .ok (.fixed ⟨1⟩) (ofTools names) := by cbv
  have hargs (names) :
      resolveArguments ⟨0⟩ .empty [.definition (Module.typeToken 0)] (ofTools names) =
      .ok ([⟨0⟩], true) (ofTools names) := by cbv
  have harity (names) :
      ((ofTools names).type ((ofTools names).openOf ⟨1⟩)).generics.length =
      [(⟨0⟩ : TypeId)].length := by
    cbv
  have hinstance (names) : (ofTools names).instanceOf ((ofTools names).openOf ⟨1⟩) [⟨0⟩] =
      ⟨"Rack<Tool>", .interpreted ⟨⟨0⟩, .tools⟩ (Module.typeToken 1), [⟨"T", ⟨0⟩⟩], some ⟨1⟩⟩ := by
        cbv
  have hnew : (ofTools toolNames).names["Rack<Tool>"]? = none := by
    simp [ofTools, toolNames]
  rw [Signature.rackOfTools, resolveSignature, bind_of_ok (hrack _)]
  refine (bind_of_ok (hargs _)).trans ?_
  have hmake := makeInstance_of_arity (harity toolNames)
  rw [hinstance, intern_of_new hnew] at hmake
  exact (bind_of_ok hmake).trans rfl

/-- The registry after the type of racks of tools has been asked for its methods. -/
def rackAsked (names : Std.HashMap String TypeId) : Registry :=
  endState (methodsOf ⟨2⟩) (withRack names)

theorem methodsOf_withRack (names : Std.HashMap String TypeId) :
    methodsOf ⟨2⟩ (withRack names) = .ok [⟨0⟩, ⟨1⟩, ⟨2⟩] (rackAsked names) := by
  have hanswer : answer (methodsOf ⟨2⟩) (withRack names) = .ok [⟨0⟩, ⟨1⟩, ⟨2⟩] := by cbv
  obtain ⟨r', hx⟩ := exists_of_answer hanswer
  rw [rackAsked, endState_ok hx, hx]

theorem mem_of_rackNames {name : String} (h : rackNames[name]? = some t) :
    name ∈ ["Rack<Tool>", "Rack", "Tool"] := by
  have hmem : name ∈ rackNames := Std.HashMap.mem_iff_isSome_getElem?.mpr (h ▸ rfl)
  simp only [rackNames, toolNames, Std.HashMap.mem_insertIfNew, Std.HashMap.not_mem_empty, or_false,
    beq_iff_eq] at hmem
  grind

/-- The sample after the methods of that type were asked for. -/
theorem steady_rackAsked : (rackAsked rackNames).Steady := by
  have hscoped (names) : (rackAsked names).scoped_ = {} := by cbv
  have hnames (names) : (rackAsked names).names = names := by cbv
  have hhost (names) : (rackAsked names).host = #[CoreLibrary.library] := by cbv
  have htypes (names) : (rackAsked names).types = (withRack names).types := by cbv
  have hplain : ∀ name ∈ ["Rack<Tool>", "Rack", "Tool"],
      (name.map fun c ↦ if c = '/' then '+' else c) = name := by decide +kernel
  have hcore : ∀ name ∈ CoreLibrary.library.types.map HostType.fullName, '/' ∉ name.toList := by
    decide +kernel
  have hbuilt (i : Nat) (d : Descriptor) (hd : (withRack rackNames).types[i]? = some d) :
      (∀ b ∈ d.args, b.type.index < i) ∧ ∀ g, d.definition = some g → g.index < i := by
    rcases i with _ | _ | _ | i
    · cases hd
      exact ⟨List.forall_mem_nil _, fun g hg ↦ by cases hg⟩
    · cases hd
      exact ⟨List.forall_mem_nil _, fun g hg ↦ by cases hg⟩
    · cases hd
      refine ⟨List.forall_mem_singleton.mpr (by decide), fun g hg ↦ ?_⟩
      cases hg
      decide
    · exact absurd hd (by simp [withRack, ofTools])
  exact
    { toUnambiguous := unambiguous_of_plain (hscoped _) fun name t h ↦
        hplain name (mem_of_rackNames (hnames _ ▸ h))
      slashless := fun m hm type htype ↦ by
        rw [hhost] at hm
        obtain rfl := Array.mem_singleton.mp hm
        exact hcore _ (List.mem_map_of_mem htype)
      args := fun i d hd ↦ (hbuilt i d (htypes _ ▸ hd)).1
      definition := fun i d hd ↦ (hbuilt i d (htypes _ ▸ hd)).2 }

theorem reached_ofTools : (ofTools toolNames).Reached := by
  rw [← endState_ok loadModule_tools]
  exact Reached.empty.step (.loadModule _)

/-- The rows of the racks. -/
theorem methodsOf_tools : Module.tools.methodsOf (Module.typeToken 1) =
    .ok [(Token.next .methodDef 0, .ofRack "Put" (.parameter "T") []),
      (Token.next .methodDef 1, .putTool), (Token.next .methodDef 2, .takeTool)] := by
  cbv

/-! ### References to declared methods -/

/-- The method that a reference to a row of a type means, if there is something to do. -/
def referenced (ref : MethodRef) (name : String) (id : MethodId) : Option MethodId :=
  if ref.isIdle name then none else some id

/-- A reference that copies the row of a declared method finds the first method of the type that
looks like it, and so the method itself if it is the first one that takes and returns the same types
under its name, with its receiver and arity. Only a reference to a constructor that has nothing to
do finds nothing. -/
theorem reference_finds_declared (h : r.Reached) (hc : r.HasContext c)
    (hfree : ∀ name, c.find? r name = none)
    (hon : resolveSignature home.id c on r = .ok found r₁) (ht : found.type? = some t)
    (hmethods : methodsOf t r₁ = .ok ids z) (hz : z.Steady) {row own : Token}
    {rows : List (Token × MethodDef)} (hshape : (z.type t).shape = .interpreted home row)
    (hrows : home.content.methodsOf row = .ok rows) (hrow : rows[k]? = some (own, d))
    (hid : ids[k]? = some id)
    (hfirst : ∀ j id', j < k → ids[j]? = some id' → ¬z.Alike id' id) :
    (∃ dependent r', resolveMethodRef (fuel + 1) home.id token (d.reference on) c r =
        .ok (referenced (d.reference on) (z.typeName t) id, dependent) r') ∧
      ∀ m, r.module home.id = .ok m → token.table? = some .memberRef →
        m.memberRef token = .ok (.method (d.reference on)) →
        r.tokens.methods[Reference.mk home.id token]? = none →
        ∃ r', resolveMethod (fuel + 2) home.id token c r =
          .ok (referenced (d.reference on) (z.typeName t) id) r' := by
  have hcurated := h.curated
  obtain ⟨hr₁, hc₁⟩ := Curates.ok (grows_resolveSignature home.id c on) hcurated hon
  obtain ⟨hlast, hcz⟩ := Curates.ok (grows_methodsOf t) hc₁ hmethods
  have hthere : r₁.Has t :=
    (repeats_resolveSignature hz home.id on hcurated.orderly hc found r₁ hon hlast).1 t ht
  have hfree' (name : String) : c.find? z name = none :=
    ((hr₁.trans hlast).find?_eq hc name).trans (hfree name)
  have hknown := facts_of_methodsOf hmethods
  have hdeclares := hcz.declared t ids hknown
  -- the method was made from its row
  have hmade : z.MadeFrom t home (own, d) id := by
    obtain ⟨rows', hrows', hmade⟩ := hcz.rows t ids home row hknown hshape
      (List.ne_nil_of_mem (List.mem_of_getElem? hid))
    cases hrows.symm.trans hrows'
    obtain ⟨hk, hidk⟩ := List.getElem?_eq_some_iff.mp hid
    obtain ⟨hk', hrowk⟩ := List.getElem?_eq_some_iff.mp hrow
    have hget := hmade.get hk' hk
    rwa [List.get_eq_getElem, List.get_eq_getElem, hrowk, hidk] at hget
  have hparams : z.StandFor home.id (.ofType t) c d.params (z.method id).params := by
    obtain ⟨rₚ, rₚ', ho, hhas, hx, hr⟩ := hmade.params
    exact standFor_again hz ho hhas hx hr hfree'
  have hret : resolveInEither home.id d.ret (.ofType t) c z = .ok (z.method id).ret z := by
    obtain ⟨rₚ, rₚ', ho, hhas, hx, hr⟩ := hmade.ret
    exact resolveInEither_again hz ho hhas hx hr hfree'
  have hfind : findReferenced (fuel + 1) home.id (d.reference on) c t r₁ = .ok (some id) z := by
    refine findReferenced_of_findOn (findOn_of_first hmethods hdeclares hparams hret ?_)
    exact find?_of_first hmade hparams.length_eq.symm hid hfirst
  have hanswer : ∃ dependent r', resolveMethodRef (fuel + 1) home.id token (d.reference on) c r =
      .ok (referenced (d.reference on) (z.typeName t) id, dependent) r' := by
    rw [hlast.typeName_eq hthere, referenced]
    split
    · next hidle => exact ⟨false, r₁, resolveMethodRef_of_idle hon ht hidle⟩
    · next hidle =>
      exact ⟨!found.isFixed, z,
        resolveMethodRef_of_found hon ht (Bool.eq_false_iff.mpr hidle) hfind⟩
  refine ⟨hanswer, fun m hm htable hrow hnew ↦ ?_⟩
  obtain ⟨dependent, r', hx⟩ := hanswer
  exact resolveMethod_of_find hnew ((findMethodToken_of_memberRef hm htable hrow).trans hx)

/-- A reference to a method of an instantiation, in a context that binds nothing. -/
theorem reference_finds_declared_tools : (ofTools toolNames).Reached ∧
    methodsOf ⟨2⟩ (withRack rackNames) = .ok [⟨0⟩, ⟨1⟩, ⟨2⟩] (rackAsked rackNames) ∧
    (rackAsked rackNames).Steady ∧
    (∃ dependent r', resolveMethodRef 1 ⟨0⟩ (Token.next .memberRef 0)
      (MethodDef.takeTool.reference .rackOfTools) .empty (ofTools toolNames) =
        .ok (some ⟨2⟩, dependent) r') ∧
    ∃ r', resolveMethod 2 ⟨0⟩ (Token.next .memberRef 0) .empty (ofTools toolNames) =
      .ok (some ⟨2⟩) r' := by
  have hshape (names) : ((rackAsked names).type ⟨2⟩).shape =
      .interpreted ⟨⟨0⟩, .tools⟩ (Module.typeToken 1) := by cbv
  have hnames (names) : ((rackAsked names).method ⟨0⟩).name = "Put" ∧
      ((rackAsked names).method ⟨1⟩).name = "Put" ∧
      ((rackAsked names).method ⟨2⟩).name = "Take" := by
    refine ⟨?_, ?_, ?_⟩ <;> cbv
  obtain ⟨hput, hput', htake⟩ := hnames rackNames
  have hfirst : ∀ j id', j < 2 → [(⟨0⟩ : MethodId), ⟨1⟩, ⟨2⟩][j]? = some id' →
      ¬(rackAsked rackNames).Alike id' ⟨2⟩ := by
    intro j id' hj hid' halike
    have hname := halike.1.trans htake
    have hj' : j = 0 ∨ j = 1 := by omega
    rcases hj' with rfl | rfl <;> cases hid'
    · exact absurd (hput.symm.trans hname) (by decide)
    · exact absurd (hput'.symm.trans hname) (by decide)
  obtain ⟨hfound, htoken⟩ := reference_finds_declared (c := .empty) (k := 2) reached_ofTools
    hasContext_empty (fun _ ↦ rfl) resolveSignature_rackOfTools rfl (methodsOf_withRack _)
    steady_rackAsked (hshape _) methodsOf_tools rfl rfl hfirst
  refine ⟨reached_ofTools, methodsOf_withRack _, steady_rackAsked, hfound,
    htoken Module.tools rfl ?_ ?_ Std.HashMap.getElem?_empty⟩ <;> cbv

/-- A reference to a method may find another one whose parameters are the same types, though no
other method has the same signatures. -/
theorem overloads_confused : ¬∀ (r r₁ z : Registry) (c : GenericContext) (home : Home) (t : TypeId)
    (on : Signature) (found : Resolution) (ids : List MethodId) (id : MethodId)
    (row own token : Token) (rows : List (Token × MethodDef)) (k fuel : Nat) (d : MethodDef),
    r.Reached → r.HasContext c →
    (∀ name, c.find? r name = none) → resolveSignature home.id c on r = .ok found r₁ →
    found.type? = some t → methodsOf t r₁ = .ok ids z → z.Steady →
    (z.type t).shape = .interpreted home row → home.content.methodsOf row = .ok rows →
    rows[k]? = some (own, d) → ids[k]? = some id →
    (∀ j own' d', rows[j]? = some (own', d') → d'.name = d.name →
      d'.flags.hasThis = d.flags.hasThis → d'.generics.length = d.generics.length →
      d'.params = d.params → j = k) →
    ∃ dependent r', resolveMethodRef (fuel + 1) home.id token (d.reference on) c r =
      .ok (some id, dependent) r' := by
  intro h
  have hshape (names) : ((rackAsked names).type ⟨2⟩).shape =
      .interpreted ⟨⟨0⟩, .tools⟩ (Module.typeToken 1) := by cbv
  have hunlike :
      ∀ j own' d', [(Token.next .methodDef 0, MethodDef.ofRack "Put" (.parameter "T") []),
        (Token.next .methodDef 1, .putTool), (Token.next .methodDef 2, .takeTool)][j]? =
          some (own', d') →
      d'.name = MethodDef.putTool.name → d'.flags.hasThis = MethodDef.putTool.flags.hasThis →
      d'.generics.length = MethodDef.putTool.generics.length →
      d'.params = MethodDef.putTool.params → j = 1 := by
    intro j own' d' hrow hname _ _ hparams
    rcases j with _ | _ | _ | j
    · cases hrow
      simp [MethodDef.putTool, MethodDef.ofRack] at hparams
    · rfl
    · cases hrow
      simp [MethodDef.putTool, MethodDef.takeTool, MethodDef.ofRack] at hname
    · cases hrow
  obtain ⟨dependent, r', hx⟩ :=
    h _ _ _ .empty ⟨⟨0⟩, .tools⟩ ⟨2⟩ .rackOfTools _ _ ⟨1⟩ _ _ ⟨0⟩ _ 1 0 _
    reached_ofTools hasContext_empty (fun _ ↦ rfl) resolveSignature_rackOfTools rfl
    (methodsOf_withRack _) steady_rackAsked (hshape _) methodsOf_tools rfl rfl hunlike
  have hanswer (names) : answer (findReferenced 1 ⟨0⟩ (MethodDef.putTool.reference .rackOfTools)
      .empty ⟨2⟩) (withRack names) = .ok (some ⟨0⟩) := by cbv
  obtain ⟨r'', hfind⟩ := exists_of_answer (hanswer rackNames)
  have hfound : resolveMethodRef 1 ⟨0⟩ ⟨0⟩ (MethodDef.putTool.reference .rackOfTools) .empty
      (ofTools toolNames) = .ok (some ⟨0⟩, false) r'' :=
    resolveMethodRef_of_found resolveSignature_rackOfTools rfl rfl hfind
  cases hfound.symm.trans hx

end Registry

end ManagedMachine
