import ManagedMachine.Proofs.DeclaredMethods

/-!
# Virtual dispatch

A virtual method is looked for from the type of the receiver upwards, up to the type that declares
it. `Registry.Climbs` is the way along the bases as the search takes it, with the methods of the
types that are passed. On that way the search finds the first method that implements the signature
of the one that is called, and the method that is called itself if there is none. Which declaration
is called matters only through the place where the search ends, and below the lower of two
declarations both searches see the same.

The engine's search is a fold with an accumulator, and `Climbs` the line of types that it passes;
`findOverride_eq` has it as a search for the first of a list, about which nothing but the list
matters. The line of one declaration is a part of the line of the other, up to where the lower one
stands.
-/

set_option autoImplicit false
set_option relaxedAutoImplicit false

namespace ManagedMachine

/-- May the method stand in for the other one in a virtual call? Arities and generic arguments are
not compared. -/
def Method.implements (m other : Method) : Bool :=
  m.flags.virtual && !m.flags.abstract && m.sameSignature other

/-- Does the method override the other one, as a method of the same arity? -/
def Method.overrides (m other : Method) : Bool :=
  m.implements other && m.generics.length == other.generics.length

theorem Method.sameSignature_iff {m other : Method} :
    m.sameSignature other = true ↔ m.name = other.name ∧ m.params = other.params := by
  simp [sameSignature]

namespace Registry

variable {r r' r₁ r₂ z : Registry} {t u d : TypeId} {id x : MethodId} {ids : List MethodId}
  {m m' : Method} {line : List (TypeId × List MethodId)} {fuel : Nat} {α : Type}

/-! ### Steps of a walk -/

variable {visit : TypeId → RegistryM (Visit α)}

theorem walk_of_found {a : α} (h : visit t r = .ok (.found a) r') :
    walk visit (fuel + 1) t r = .ok (some a) r' := bind_of_ok h

theorem walk_of_stop (h : visit t r = .ok .stop r') : walk visit (fuel + 1) t r = .ok none r' :=
  bind_of_ok h

/-- What follows when a walk has left a type, if there is a base type. -/
def walkOn (visit : TypeId → RegistryM (Visit α)) (fuel : Nat) : Option TypeId →
    RegistryM (Option α)
  | some t => walk visit fuel t
  | none => pure none

theorem walk_of_onward {base : Option TypeId} (h : visit t r = .ok .onward r₁)
    (hbase : baseType t r₁ = .ok base r₂) :
    walk visit (fuel + 1) t r = walkOn visit fuel base r₂ := by
  refine (bind_of_ok h).trans ((bind_of_ok hbase).trans ?_)
  cases base <;> rfl

/-! ### What the search does at a type -/

/-- The search for an implementation of a method, at one type. -/
def seek (m : Method) (t : TypeId) : RegistryM (Visit MethodId) := do
  if t = m.declaring then return .stop
  else
    visitWith (fun t => do firstMethod (← methodsOf t) fun candidate => candidate.implements m) t

/-- The search, as a walk up the bases with the first method that implements the one that is called.
-/
theorem findOverride_eq (h : (r.method id).flags.virtual = true) (receiver : TypeId) :
    findOverride fuel receiver id r =
      (walk (seek (r.method id)) fuel receiver >>= fun found ↦ pure (found.getD id)) r := by
  have hvirtual : (!(r.method id).flags.virtual) = false := by rw [h]; rfl
  rw [findOverride, ask_bind, hvirtual]
  rfl

theorem seek_of_declaring (h : t = m.declaring) : seek m t r = .ok .stop r := by
  rw [seek, if_pos h]
  rfl

/-- The first of some methods that implements the signature of another one. -/
def implementation? (r : Registry) (m : Method) (ids : List MethodId) : Option MethodId :=
  ids.find? fun id ↦ (r.method id).implements m

theorem mem_of_implementation? (h : r.implementation? m ids = some x) :
    x ∈ ids ∧ (r.method x).implements m = true :=
  ⟨List.mem_of_find?_eq_some h, List.find?_some (p := fun id ↦ (r.method id).implements m) h⟩

theorem visitWith_of_some {find : TypeId → RegistryM (Option α)} {a : α}
    (h : find t r = .ok (some a) r') : visitWith find t r = .ok (.found a) r' := bind_of_ok h

theorem visitWith_of_none {find : TypeId → RegistryM (Option α)}
    (h : find t r = .ok none r') : visitWith find t r = .ok .onward r' := bind_of_ok h

theorem seek_of_found (h : t ≠ m.declaring) (hids : methodsOf t r = .ok ids r')
    (hx : r'.implementation? m ids = some x) : seek m t r = .ok (.found x) r' := by
  rw [seek, if_neg h]
  exact visitWith_of_some ((bind_of_ok hids).trans (congrArg (EStateM.Result.ok · r') hx))

theorem seek_of_none (h : t ≠ m.declaring) (hids : methodsOf t r = .ok ids r')
    (hnone : r'.implementation? m ids = none) : seek m t r = .ok .onward r' := by
  rw [seek, if_neg h]
  exact visitWith_of_none ((bind_of_ok hids).trans (congrArg (EStateM.Result.ok · r') hnone))

/-! ### The way up -/

/-- The way along the bases from a type, if there is one, as a search takes it: the types that are
passed, with their methods, and the type where it ends, if it does not end behind the last one. -/
inductive Climbs :
    Registry → Option TypeId → List (TypeId × List MethodId) → Registry → Option TypeId → Prop
  | here (r : Registry) (t : Option TypeId) : Climbs r t [] r t
  | up {r r₁ r₂ r' : Registry} {t : TypeId} {base u : Option TypeId} {ids : List MethodId}
    {line : List (TypeId × List MethodId)} (hids : methodsOf t r = .ok ids r₁)
    (hbase : baseType t r₁ = .ok base r₂) (hrest : Climbs r₂ base line r' u) :
    Climbs r (some t) ((t, ids) :: line) r' u

variable {o o' : Option TypeId} {below above : List (TypeId × List MethodId)}

/-- The way up only finds out base types and methods. -/
theorem Climbs.recalls (h : Climbs r o line r' o') (hc : r.Curated) :
    r.Recalls r' ∧ r'.Curated := by
  induction h with
  | here => exact ⟨.refl _, hc⟩
  | up hids hbase _ ih =>
    obtain ⟨hr₁, hc₁⟩ := Curates.ok (grows_methodsOf _) hc hids
    obtain ⟨hr₂, hc₂⟩ := Curates.ok (grows_baseType _) hc₁ hbase
    obtain ⟨hr', hc'⟩ := ih hc₂
    exact ⟨hr₁.trans (hr₂.trans hr'), hc'⟩

/-- The same way again finds all that it needs. -/
theorem Climbs.again (h : Climbs r o line r' o') (hc : r.Curated) (hz : r'.Recalls z) :
    Climbs z o line z o' := by
  induction h with
  | here => exact .here z _
  | up hids hbase hrest ih =>
    obtain ⟨-, hc₁⟩ := Curates.ok (grows_methodsOf _) hc hids
    obtain ⟨hr₂, hc₂⟩ := Curates.ok (grows_baseType _) hc₁ hbase
    have hlast := (hrest.recalls hc₂).1.trans hz
    exact .up (methodsOf_of_known ((hr₂.trans hlast).declared _ _ (facts_of_methodsOf hids)))
      (baseType_of_known (hlast.bases _ _ (facts_of_baseType hbase))) (ih hc₂ hz)

/-- The way to a type that is passed comes first. -/
theorem Climbs.split (h : Climbs r o (below ++ (u, ids) :: above) r' o') :
    ∃ r₁ r₂, Climbs r o below r₁ (some u) ∧ methodsOf u r₁ = .ok ids r₂ ∧
      Climbs r₁ (some u) ((u, ids) :: above) r' o' := by
  induction below generalizing r o with
  | nil =>
    cases h with
    | up hids hbase hrest => exact ⟨r, _, .here r _, hids, .up hids hbase hrest⟩
  | cons p below ih =>
    cases h with
    | up hids hbase hrest =>
      obtain ⟨r₁, r₂, hbelow, hmethods, habove⟩ := ih hrest
      exact ⟨r₁, r₂, .up hids hbase hbelow, hmethods, habove⟩

theorem implementation?_recalls (hr : r.Recalls r') (hids : ∀ id ∈ ids, r.HasMethod id) :
    r'.implementation? m ids = r.implementation? m ids :=
  List.find?_congr fun id hid ↦ by rw [hr.method_eq (hids id hid)]

theorem implementation?_congr (hname : m'.name = m.name) (hparams : m'.params = m.params) :
    r.implementation? m' ids = r.implementation? m ids := by
  simp only [implementation?, Method.implements, Method.sameSignature, hname, hparams]

/-! ### What the search finds -/

/-- Where nothing on the way implements the method, the search goes on where the way ends. -/
theorem Climbs.walkOn_eq (h : Climbs r o line r' o') (hc : r.Curated)
    (hd : m.declaring ∉ line.map Prod.fst)
    (hnone : r'.implementation? m (line.flatMap Prod.snd) = none) :
    walkOn (seek m) (fuel + line.length) o r = walkOn (seek m) fuel o' r' := by
  induction h with
  | here => rfl
  | @up r r₁ r₂ r' t base u ids line hids hbase hrest ih =>
    obtain ⟨-, hc₁⟩ := Curates.ok (grows_methodsOf _) hc hids
    obtain ⟨hr₂, hc₂⟩ := Curates.ok (grows_baseType _) hc₁ hbase
    have hlast := hr₂.trans (hrest.recalls hc₂).1
    rw [List.map_cons, List.mem_cons, not_or] at hd
    rw [List.flatMap_cons, implementation?, List.find?_append, Option.or_eq_none_iff] at hnone
    have hhere : r₁.implementation? m ids = none := by
      rw [← implementation?_recalls hlast fun id hid ↦
        (hc₁.declared _ _ (facts_of_methodsOf hids) id hid).method]
      exact hnone.1
    rw [← ih hc₂ hd.2 hnone.2]
    exact walk_of_onward (seek_of_none (Ne.symm hd.1) hids hhere) hbase

/-- More fuel than the way is long is enough for the type where it ends. -/
theorem Climbs.walkOn_of_lt (h : Climbs r o line r' o') (hc : r.Curated)
    (hd : m.declaring ∉ line.map Prod.fst)
    (hnone : r'.implementation? m (line.flatMap Prod.snd) = none) (hfuel : line.length < fuel) :
    ∃ left, walkOn (seek m) fuel o r = walkOn (seek m) (left + 1) o' r' := by
  obtain ⟨left, rfl⟩ := Nat.exists_eq_add_of_lt hfuel
  refine ⟨left, ?_⟩
  rw [← h.walkOn_eq hc hd hnone, Nat.add_assoc, Nat.add_comm line.length]

/-- The method is one of those that the type is known to declare. -/
def DeclaredOn (r : Registry) (t : TypeId) (id : MethodId) : Prop :=
  ∃ ids, r.facts.methods[t]? = some ids ∧ id ∈ ids

/-- A method is declared by the type whose methods it is among. -/
theorem DeclaredOn.declares (h : r.DeclaredOn t id) (hc : r.Curated) : r.Declares t id := by
  obtain ⟨ids, hids, hmem⟩ := h
  exact hc.declared t ids hids id hmem

/-- The search from a type finds an implementation on the way: one of a type that is passed, with
none on the way to that type. Every search for the same signature finds it that does not end
earlier. -/
structure Finds (r : Registry) (m : Method) (o : Option TypeId)
    (line : List (TypeId × List MethodId)) (x : MethodId) (r' : Registry) : Prop where
  recalls : r.Recalls r'
  curated : r'.Curated
  declared : r'.DeclaredOn (r'.method x).declaring x
  implements : (r'.method x).implements m = true
  passed : (r'.method x).declaring ∈ line.map Prod.fst
  runs : ∀ m' : Method, m'.name = m.name → m'.params = m.params →
    m'.declaring ∉ line.map Prod.fst → ∀ fuel, line.length ≤ fuel →
    walkOn (seek m') fuel o r = .ok (some x) r'
  way : ∃ below, Climbs r' o below r' (some (r'.method x).declaring) ∧
    below.length < line.length ∧ (r'.method x).declaring ∉ below.map Prod.fst ∧
    r'.implementation? m (below.flatMap Prod.snd) = none

/-- By induction on the way: the first type that has an implementation is where it is found. -/
theorem Climbs.finds (h : Climbs r o line r' o') (hc : r.Curated)
    (hx : r'.implementation? m (line.flatMap Prod.snd) = some x) :
    ∃ r'', Finds r m o line x r'' ∧ r''.Recalls r' := by
  induction h with
  | here => cases hx
  | @up r r₁ r₂ r' t base u ids line hids hbase hrest ih =>
    obtain ⟨hr₁, hc₁⟩ := Curates.ok (grows_methodsOf _) hc hids
    obtain ⟨hr₂, hc₂⟩ := Curates.ok (grows_baseType _) hc₁ hbase
    have hlast := (hrest.recalls hc₂).1
    have hdeclares := hc₁.declared _ _ (facts_of_methodsOf hids)
    have hsame : r'.implementation? m ids = r₁.implementation? m ids :=
      implementation?_recalls (hr₂.trans hlast) fun id hid ↦ (hdeclares id hid).method
    rw [List.flatMap_cons, implementation?, List.find?_append] at hx
    change (r'.implementation? m ids).or (r'.implementation? m (line.flatMap Prod.snd)) = _ at hx
    rw [hsame] at hx
    cases hhere : r₁.implementation? m ids with
    | some y =>
      rw [hhere] at hx
      cases hx
      obtain ⟨hmem, himplements⟩ := mem_of_implementation? hhere
      have ht := (hdeclares x hmem).declaring
      refine ⟨r₁, ⟨hr₁, hc₁, ?_, himplements, ?_, ?_, ?_⟩, hr₂.trans hlast⟩
      · rw [ht]
        exact ⟨ids, facts_of_methodsOf hids, hmem⟩
      · rw [ht]
        exact .head _
      · intro m' hname hparams hd fuel hfuel
        rw [List.map_cons, List.mem_cons, not_or] at hd
        obtain ⟨fuel, rfl⟩ := Nat.exists_eq_add_of_le' hfuel
        exact walk_of_found (seek_of_found (Ne.symm hd.1) hids
          ((implementation?_congr hname hparams).trans hhere))
      · rw [ht]
        exact ⟨[], .here _ _, Nat.succ_pos _, List.not_mem_nil, rfl⟩
    | none =>
      rw [hhere] at hx
      obtain ⟨r'', hfinds, hr''⟩ := ih hc₂ hx
      refine ⟨r'', ⟨hr₁.trans (hr₂.trans hfinds.recalls), hfinds.curated, hfinds.declared,
        hfinds.implements, .tail _ hfinds.passed, ?_, ?_⟩, hr''⟩
      · intro m' hname hparams hd fuel hfuel
        rw [List.map_cons, List.mem_cons, not_or] at hd
        obtain ⟨fuel, rfl⟩ := Nat.exists_eq_add_of_le' hfuel
        rw [List.length_cons, ← Nat.add_assoc]
        have hseek := seek_of_none (Ne.symm hd.1) hids
          ((implementation?_congr hname hparams).trans hhere)
        exact (walk_of_onward hseek hbase).trans
          (hfinds.runs m' hname hparams hd.2 _ (Nat.le_add_left _ _))
      · by_cases ht : t = (r''.method x).declaring
        · rw [← ht]
          exact ⟨[], .here _ _, Nat.succ_pos _, List.not_mem_nil, rfl⟩
        · obtain ⟨below, hclimbs, hlength, hd, hnone⟩ := hfinds.way
          refine ⟨(t, ids) :: below, ?_, Nat.succ_lt_succ hlength, ?_, ?_⟩
          · exact .up (methodsOf_of_known ((hr₂.trans hfinds.recalls).declared _ _
              (facts_of_methodsOf hids)))
              (baseType_of_known (hfinds.recalls.bases _ _ (facts_of_baseType hbase))) hclimbs
          · rw [List.map_cons, List.mem_cons, not_or]
            exact ⟨Ne.symm ht, hd⟩
          · rw [List.flatMap_cons, implementation?, List.find?_append, Option.or_eq_none_iff]
            refine ⟨?_, hnone⟩
            rw [← hhere]
            exact implementation?_recalls (hr₂.trans hfinds.recalls) fun id hid ↦
              (hdeclares id hid).method

theorem findOverride_of_found (hv : (r.method id).flags.virtual = true)
    (h : walkOn (seek (r.method id)) fuel (some t) r = .ok (some x) r') :
    findOverride fuel t id r = .ok x r' :=
  (findOverride_eq hv t).trans (bind_of_ok h)

theorem findOverride_of_none (hv : (r.method id).flags.virtual = true)
    (h : walkOn (seek (r.method id)) fuel (some t) r = .ok none r') :
    findOverride fuel t id r = .ok id r' :=
  (findOverride_eq hv t).trans (bind_of_ok h)

/-- A way that leads to the declaring type without an implementation leads to the method itself. -/
theorem Climbs.findOverride_eq (h : Climbs r (some t) line r' (some (r.method id).declaring))
    (hc : r.Curated) (hv : (r.method id).flags.virtual = true)
    (hd : (r.method id).declaring ∉ line.map Prod.fst)
    (hnone : r'.implementation? (r.method id) (line.flatMap Prod.snd) = none)
    (hfuel : line.length < fuel) : findOverride fuel t id r = .ok id r' := by
  obtain ⟨left, hrest⟩ := h.walkOn_of_lt hc hd hnone hfuel
  exact findOverride_of_none hv (hrest.trans (walk_of_stop (seek_of_declaring rfl)))

theorem Method.virtual_of_implements (h : m.implements m' = true) : m.flags.virtual = true := by
  simp only [Method.implements, Bool.and_eq_true] at h
  exact h.1.1

/-- What was found is found again, and by itself. -/
theorem Finds.findOverride_eq (h : Finds r m (some t) line x r') (hfuel : line.length ≤ fuel) :
    findOverride fuel t x r' = .ok x r' := by
  obtain ⟨below, hclimbs, hlength, hd, hnone⟩ := h.way
  have hsame : (r'.method x).name = m.name ∧ (r'.method x).params = m.params := by
    have himplements := h.implements
    rw [Method.implements, Bool.and_eq_true] at himplements
    exact Method.sameSignature_iff.mp himplements.2
  exact hclimbs.findOverride_eq h.curated (Method.virtual_of_implements h.implements) hd
    ((implementation?_congr hsame.1 hsame.2).trans hnone) (Nat.lt_of_lt_of_le hlength hfuel)

/-! ### A module with shapes -/

end Registry

/-- A module with a type `Shape`, a type `Square` that is derived from it, and a type `Tile` that is
derived from `Square`. The method `Area` is plain in all of them, `Scale` is generic, and only
`Shape` makes `Move` generic. -/
def Module.shapes : Module :=
  let row (name : String) (generics : List String) : MethodDef :=
    ⟨name, MethodKind.virtual.flags, [], .definition (typeToken 0), generics, none⟩
  { Module.empty "Shapes" with
    types := #[⟨"", "Shape", .none, none, [], [], #[],
        #[row "Area" [], row "Scale" ["T"], row "Move" ["T"]]⟩,
      ⟨"", "Square", .none, some (.definition (typeToken 0)), [], [], #[],
        #[row "Area" [], row "Scale" ["T"], row "Move" []]⟩,
      ⟨"", "Tile", .none, some (.definition (typeToken 1)), [], [], #[], #[row "Area" []]⟩]
    methodPlaces := #[⟨0, 0⟩, ⟨0, 1⟩, ⟨0, 2⟩, ⟨1, 0⟩, ⟨1, 1⟩, ⟨1, 2⟩, ⟨2, 0⟩]
    fieldLists := #[#[], #[], #[]]
    methodLists := #[
      #[Token.next .methodDef 0, Token.next .methodDef 1, Token.next .methodDef 2],
      #[Token.next .methodDef 3, Token.next .methodDef 4, Token.next .methodDef 5],
      #[Token.next .methodDef 6]] }

namespace Registry

variable {r r' r₁ r₂ : Registry} {t : TypeId} {id x : MethodId} {ids : List MethodId}
  {line below above : List (TypeId × List MethodId)} {o : Option TypeId} {fuel : Nat}

/-- The registry that loading the module leaves, up to the meaning of names, which no search below
asks for. -/
def ofShapes (names : Std.HashMap String TypeId) : Registry :=
  let home : Home := ⟨⟨0⟩, .shapes⟩
  { empty with
    types := #[⟨"Shape", .interpreted home (Module.typeToken 0), [], none⟩,
      ⟨"Square", .interpreted home (Module.typeToken 1), [], none⟩,
      ⟨"Tile", .interpreted home (Module.typeToken 2), [], none⟩]
    names
    modules := #[.shapes]
    definitions :=
      ((({} : Std.HashMap Reference TypeId).insert ⟨⟨0⟩, Module.typeToken 0⟩ ⟨0⟩).insert
      ⟨⟨0⟩, Module.typeToken 1⟩ ⟨1⟩).insert ⟨⟨0⟩, Module.typeToken 2⟩ ⟨2⟩ }

def shapeNames : Std.HashMap String TypeId :=
  ((({} : Std.HashMap String TypeId).insertIfNew "Shape" ⟨0⟩).insertIfNew "Square" ⟨1⟩).insertIfNew
    "Tile" ⟨2⟩

/-- The sample, with three types in a line. -/
theorem loadModule_shapes : loadModule .shapes empty = .ok ⟨0⟩ (ofShapes shapeNames) := by
  have hshape (fields methods) :
      definitionName ⟨"", "Shape", .none, none, [], [], fields, methods⟩ = "Shape" := by cbv
  have hsquare (fields methods) : definitionName
      ⟨"", "Square", .none, some (.definition (Module.typeToken 0)), [], [], fields, methods⟩ =
        "Square" := by cbv
  have htile (fields methods) : definitionName
      ⟨"", "Tile", .none, some (.definition (Module.typeToken 1)), [], [], fields, methods⟩ =
        "Tile" := by cbv
  simp [loadModule, addDefinitions, Module.shapes, Module.empty, hshape, hsquare, htile, empty,
    addType, addName, ofShapes, shapeNames, bind, EStateM.bind, get, getThe, MonadStateOf.get,
    EStateM.get, set, EStateM.set, modify, modifyGet, MonadStateOf.modifyGet,
    EStateM.modifyGet, pure, EStateM.pure]

/-- The registry after two of the types have been asked for their methods. -/
def shapesAsked (names : Std.HashMap String TypeId) : Registry :=
  endState (methodsOf ⟨1⟩) (endState (methodsOf ⟨0⟩) (ofShapes names))

theorem reached_shapesAsked : (shapesAsked shapeNames).Reached := by
  rw [shapesAsked, ← endState_ok loadModule_shapes]
  exact ((Reached.empty.step (.loadModule _)).step (.methodsOf _)).step (.methodsOf _)

/-- The way from `Tile` to `Shape`, and the names and arities of what is passed. -/
theorem climbs_shapesAsked (names : Std.HashMap String TypeId) : ∃ r',
    Climbs (shapesAsked names) (some ⟨2⟩) [(⟨2⟩, [⟨6⟩]), (⟨1⟩, [⟨3⟩, ⟨4⟩, ⟨5⟩])] r' (some ⟨0⟩) ∧
    [⟨6⟩, ⟨3⟩, ⟨4⟩, ⟨5⟩].map (fun id ↦ ((r'.method id).name, (r'.method id).generics.length)) =
      [("Area", 0), ("Area", 0), ("Scale", 1), ("Move", 0)] := by
  have hanswer : answer (do
      let ids ← methodsOf ⟨2⟩
      let base ← baseType ⟨2⟩
      let ids' ← methodsOf ⟨1⟩
      let base' ← baseType ⟨1⟩
      let rows ← ask fun r ↦ [⟨6⟩, ⟨3⟩, ⟨4⟩, ⟨5⟩].map fun id ↦
        ((r.method id).name, (r.method id).generics.length)
      return (ids, base, ids', base', rows)) (shapesAsked names) =
      .ok ([⟨6⟩], some ⟨1⟩, [⟨3⟩, ⟨4⟩, ⟨5⟩], some ⟨0⟩,
        [("Area", 0), ("Area", 0), ("Scale", 1), ("Move", 0)]) := by cbv
  obtain ⟨r', hx⟩ := exists_of_answer hanswer
  obtain ⟨ids, r₁, hids, hx⟩ := exists_of_bind hx
  obtain ⟨base, r₂, hbase, hx⟩ := exists_of_bind hx
  obtain ⟨ids', r₃, hids', hx⟩ := exists_of_bind hx
  obtain ⟨base', r₄, hbase', hx⟩ := exists_of_bind hx
  simp only [ask_bind, pure, EStateM.pure, EStateM.Result.ok.injEq, Prod.mk.injEq] at hx
  obtain ⟨⟨rfl, rfl, rfl, rfl, hrows⟩, rfl⟩ := hx
  exact ⟨_, .up hids hbase (.up hids' hbase' (.here _ _)), hrows⟩

/-! ### Two declarations -/

/-- No two virtual methods that the type is known to declare have the same name and parameter
types. -/
def Unoverloaded (r : Registry) (t : TypeId) : Prop :=
  ∀ x y, r.DeclaredOn t x → r.DeclaredOn t y → (r.method x).flags.virtual = true →
    (r.method y).flags.virtual = true → (r.method x).sameSignature (r.method y) = true → x = y

/-- The methods of `Square` have names of their own. -/
theorem unoverloaded_shapesAsked : (shapesAsked shapeNames).Unoverloaded ⟨1⟩ := by
  have hmethods (names) :
      (shapesAsked names).facts.methods[(⟨1⟩ : TypeId)]? = some [⟨3⟩, ⟨4⟩, ⟨5⟩] := by cbv
  have hnames (names) : ([⟨3⟩, ⟨4⟩, ⟨5⟩].map fun id ↦ ((shapesAsked names).method id).name) =
      ["Area", "Scale", "Move"] := by cbv
  have hnodup : ([⟨3⟩, ⟨4⟩, ⟨5⟩].map fun id ↦ ((shapesAsked shapeNames).method id).name).Nodup := by
    rw [hnames]
    decide
  rintro x y ⟨ids, hids, hx⟩ ⟨ids', hids', hy⟩ - - hsame
  cases (hmethods _).symm.trans hids
  cases (hmethods _).symm.trans hids'
  exact List.inj_on_of_nodup_map hnodup hx hy (Method.sameSignature_iff.mp hsame).1

/-- It does not matter which of two declarations of a virtual method is called, where one is on a
base type of the other. The implementation that is found is the same, it is declared at or below the
lower declaration, and a call of it on the receiver finds it again. -/
theorem dispatch_agrees (h : r.Reached) {receiver d₁ d₂ : TypeId} {m₁ m₂ : MethodId}
    (hclimbs : Climbs r (some receiver) (below ++ (d₂, ids) :: above) r' (some d₁))
    (hacyclic : ((below ++ (d₂, ids) :: above).map Prod.fst ++ [d₁]).Nodup)
    (hm₁ : r.DeclaredOn d₁ m₁) (hm₂ : r.DeclaredOn d₂ m₂) (hv₁ : (r.method m₁).flags.virtual = true)
    (hv₂ : (r.method m₂).flags.virtual = true) (hconcrete : (r.method m₂).flags.abstract = false)
    (hsame : (r.method m₂).sameSignature (r.method m₁) = true) (honly : r.Unoverloaded d₂)
    (hfuel : below.length < fuel) :
    ∃ x r₁, findOverride fuel receiver m₁ r = .ok x r₁ ∧ findOverride fuel receiver m₂ r =
      .ok x r₁ ∧
      (∃ d ∈ below.map Prod.fst ++ [d₂], r₁.DeclaredOn d x) ∧
      findOverride fuel receiver x r₁ = .ok x r₁ := by
  have hc := h.curated
  have hd₁ := (hm₁.declares hc).declaring
  have hd₂ := (hm₂.declares hc).declaring
  obtain ⟨hname, hparams⟩ := Method.sameSignature_iff.mp hsame
  obtain ⟨r₁, r₂, hbelow, -, -⟩ := hclimbs.split
  obtain ⟨hr₁, hc₁⟩ := hbelow.recalls hc
  -- on an acyclic way neither declaring type stands below the lower one
  obtain ⟨hbelow₁, hbelow₂, hne⟩ :
      d₁ ∉ below.map Prod.fst ∧ d₂ ∉ below.map Prod.fst ∧ d₂ ≠ d₁ := by
    rw [List.map_append, List.map_cons, List.append_assoc, List.cons_append,
      List.nodup_append] at hacyclic
    obtain ⟨-, hupper, hapart⟩ := hacyclic
    have hlast : d₁ ∈ above.map Prod.fst ++ [d₁] := List.mem_append_right _ (.head _)
    exact ⟨fun hmem ↦ hapart d₁ hmem d₁ (.tail _ hlast) rfl,
      fun hmem ↦ hapart d₂ hmem d₂ (.head _) rfl,
      fun heq ↦ (List.nodup_cons.mp hupper).1 (heq ▸ hlast)⟩
  cases hfind : r₁.implementation? (r.method m₁) (below.flatMap Prod.snd) with
  | some x =>
    obtain ⟨s, hfinds, -⟩ := hbelow.finds hc hfind
    have hrun₁ := hfinds.runs (r.method m₁) rfl rfl (hd₁ ▸ hbelow₁) fuel hfuel.le
    have hrun₂ := hfinds.runs (r.method m₂) hname hparams (hd₂ ▸ hbelow₂) fuel hfuel.le
    exact ⟨x, s, findOverride_of_found hv₁ hrun₁, findOverride_of_found hv₂ hrun₂,
      ⟨_, List.mem_append_left _ hfinds.passed, hfinds.declared⟩, hfinds.findOverride_eq hfuel.le⟩
  | none =>
    have hnone₂ := (implementation?_congr hname hparams).trans hfind
    obtain ⟨ids₂, hknown, hmem⟩ := id hm₂
    have hids₂ := methodsOf_of_known (hr₁.declared _ _ hknown)
    have hmethod := hr₁.method_eq (hm₂.declares hc).method
    have hlower : r₁.implementation? (r.method m₁) ids₂ = some m₂ := by
      have hm₂' : (r₁.method m₂).implements (r.method m₁) = true := by
        rw [hmethod, Method.implements, hv₂, hconcrete, hsame]
        rfl
      cases hfound : r₁.implementation? (r.method m₁) ids₂ with
      | none => exact absurd hm₂' (List.find?_eq_none.mp hfound m₂ hmem)
      | some y =>
        obtain ⟨hy, himplements⟩ := mem_of_implementation? hfound
        have hy' : r.DeclaredOn d₂ y := ⟨ids₂, hknown, hy⟩
        rw [hr₁.method_eq (hy'.declares hc).method] at himplements
        have hvirtual := Method.virtual_of_implements himplements
        rw [Method.implements, Bool.and_eq_true] at himplements
        obtain ⟨hname', hparams'⟩ := Method.sameSignature_iff.mp himplements.2
        exact congrArg some (honly y m₂ hy' hm₂ hvirtual hv₂ (Method.sameSignature_iff.mpr
          ⟨hname'.trans hname.symm, hparams'.trans hparams.symm⟩))
    have hrun₁ : findOverride fuel receiver m₁ r = .ok m₂ r₁ := by
      obtain ⟨left, hrest⟩ := hbelow.walkOn_of_lt hc (hd₁ ▸ hbelow₁) hfind hfuel
      exact findOverride_of_found hv₁
        (hrest.trans (walk_of_found (seek_of_found (hd₁ ▸ hne) hids₂ hlower)))
    have hrun₂ : findOverride fuel receiver m₂ r = .ok m₂ r₁ :=
      (hd₂ ▸ hbelow).findOverride_eq hc hv₂ (hd₂ ▸ hbelow₂) hnone₂ hfuel
    have hagain : findOverride fuel receiver m₂ r₁ = .ok m₂ r₁ := by
      rw [← hmethod] at hd₂ hv₂ hnone₂
      exact (hd₂ ▸ hbelow.again hc (.refl r₁)).findOverride_eq hc₁ hv₂ (hd₂ ▸ hbelow₂) hnone₂ hfuel
    exact ⟨m₂, r₁, hrun₁, hrun₂, ⟨d₂, by simp, ids₂, hr₁.declared _ _ hknown, hmem⟩, hagain⟩

/-- A call through the topmost declaration, and one through the declaration between. -/
theorem dispatch_agrees_shapes : ∃ r', Climbs (shapesAsked shapeNames) (some ⟨2⟩)
      [(⟨2⟩, [⟨6⟩]), (⟨1⟩, [⟨3⟩, ⟨4⟩, ⟨5⟩])] r' (some ⟨0⟩) ∧
    (shapesAsked shapeNames).DeclaredOn ⟨0⟩ ⟨0⟩ ∧ (shapesAsked shapeNames).DeclaredOn ⟨1⟩ ⟨3⟩ ∧
    ∃ x r₁, findOverride 5 ⟨2⟩ ⟨0⟩ (shapesAsked shapeNames) = .ok x r₁ ∧
      findOverride 5 ⟨2⟩ ⟨3⟩ (shapesAsked shapeNames) = .ok x r₁ ∧
      (∃ d ∈ [⟨2⟩, ⟨1⟩], r₁.DeclaredOn d x) ∧ findOverride 5 ⟨2⟩ x r₁ = .ok x r₁ := by
  have hmethods (names) : (shapesAsked names).facts.methods[(⟨0⟩ : TypeId)]? =
      some [⟨0⟩, ⟨1⟩, ⟨2⟩] ∧
      (shapesAsked names).facts.methods[(⟨1⟩ : TypeId)]? = some [⟨3⟩, ⟨4⟩, ⟨5⟩] := by
    constructor <;> cbv
  have hflags (names) : ((shapesAsked names).method ⟨0⟩).flags = MethodKind.virtual.flags ∧
      ((shapesAsked names).method ⟨3⟩).flags = MethodKind.virtual.flags := by
    constructor <;> cbv
  have hsame (names) :
      ((shapesAsked names).method ⟨3⟩).sameSignature ((shapesAsked names).method ⟨0⟩) =
      true := by cbv
  have hm₁ : (shapesAsked shapeNames).DeclaredOn ⟨0⟩ ⟨0⟩ := ⟨_, (hmethods _).1, by decide⟩
  have hm₂ : (shapesAsked shapeNames).DeclaredOn ⟨1⟩ ⟨3⟩ := ⟨_, (hmethods _).2, by decide⟩
  obtain ⟨r', hclimbs, -⟩ := climbs_shapesAsked shapeNames
  have hway : Climbs (shapesAsked shapeNames) (some ⟨2⟩)
      ([(⟨2⟩, [⟨6⟩])] ++ (⟨1⟩, [⟨3⟩, ⟨4⟩, ⟨5⟩]) :: []) r' (some ⟨0⟩) := hclimbs
  exact ⟨r', hclimbs, hm₁, hm₂,
    dispatch_agrees reached_shapesAsked hway (by decide) hm₁ hm₂
      (by rw [(hflags _).1]; rfl) (by rw [(hflags _).2]; rfl) (by rw [(hflags _).2]; rfl) (hsame _)
      unoverloaded_shapesAsked (by decide)⟩

/-! ### Arities and generic arguments -/

theorem hasMethod_of_virtual (h : (r.method id).flags.virtual = true) : r.HasMethod id := by
  by_contra habsent
  rw [Registry.method, Array.getD_eq_getD_getElem?,
    Array.getElem?_eq_none (Nat.le_of_not_lt habsent)] at h
  cases h

/-- A method is dispatched to its most derived override, or to itself if nothing overrides it, and
so to a method of its arity with its generic arguments, where no method that takes the same
parameters has another arity. An instantiation is dispatched to itself, where nothing on the way
takes its parameters. -/
theorem dispatch_keeps_shape (h : r.Reached) {receiver : TypeId}
    (hv : (r.method id).flags.virtual = true) (hclimbs : Climbs r (some receiver) line r' o)
    (hend : ∀ d, o = some d → d = (r.method id).declaring)
    (hbelow : (r.method id).declaring ∉ line.map Prod.fst)
    (hshape : ∀ x ∈ line.flatMap Prod.snd, (r'.method x).implements (r.method id) = true →
      (r'.method x).generics.length = (r.method id).generics.length ∧ (r.method id).args = [])
    (hfuel : line.length < fuel) :
    ∃ x r₁, findOverride fuel receiver id r = .ok x r₁ ∧
      (r₁.method x).generics.length = (r.method id).generics.length ∧
      (r₁.method x).args = (r.method id).args ∧
      x = ((line.flatMap Prod.snd).find? fun y ↦
        (r'.method y).overrides (r.method id)).getD id := by
  have hc := h.curated
  have hoverride : ((line.flatMap Prod.snd).find? fun y ↦ (r'.method y).overrides (r.method id)) =
      r'.implementation? (r.method id) (line.flatMap Prod.snd) := by
    refine List.find?_congr fun y hy ↦ ?_
    cases himplements : (r'.method y).implements (r.method id) with
    | false => rw [Method.overrides, himplements, Bool.false_and]
    | true =>
      rw [Method.overrides, himplements, Bool.true_and, beq_iff_eq]
      exact (hshape y hy himplements).1
  rw [hoverride]
  cases hfind : r'.implementation? (r.method id) (line.flatMap Prod.snd) with
  | some x =>
    obtain ⟨r₁, hfinds, hr₁⟩ := hclimbs.finds hc hfind
    obtain ⟨hmem, himplements⟩ := mem_of_implementation? hfind
    obtain ⟨harity, hargs⟩ := hshape x hmem himplements
    have hdeclares := hfinds.declared.declares hfinds.curated
    refine ⟨x, r₁, findOverride_of_found hv (hfinds.runs _ rfl rfl hbelow fuel hfuel.le), ?_,
      ?_, rfl⟩
    · rw [← hr₁.method_eq hdeclares.method]
      exact harity
    · rw [hdeclares.args, hargs]
  | none =>
    have hmethod := (hclimbs.recalls hc).1.method_eq (hasMethod_of_virtual hv)
    refine ⟨id, r', ?_, by rw [hmethod], by rw [hmethod], rfl⟩
    cases o with
    | some d =>
      obtain rfl := hend d rfl
      exact hclimbs.findOverride_eq hc hv hbelow hfind hfuel
    | none =>
      obtain ⟨left, hrest⟩ := hclimbs.walkOn_of_lt hc hbelow hfind hfuel
      exact findOverride_of_none hv (hrest.trans rfl)

/-- The method that is found has as many parameters as the one that is called. -/
theorem dispatch_keeps_shape_shapes : ((shapesAsked shapeNames).method ⟨1⟩).flags.virtual = true ∧
    (∃ r', Climbs (shapesAsked shapeNames) (some ⟨2⟩)
      [(⟨2⟩, [⟨6⟩]), (⟨1⟩, [⟨3⟩, ⟨4⟩, ⟨5⟩])] r' (some ⟨0⟩)) ∧
    ∃ x r₁, findOverride 5 ⟨2⟩ ⟨1⟩ (shapesAsked shapeNames) = .ok x r₁ ∧ x = ⟨4⟩ ∧
      (r₁.method x).generics.length = 1 ∧ (r₁.method x).args = [] := by
  have hm (names) : ((shapesAsked names).method ⟨1⟩).flags = MethodKind.virtual.flags ∧
      ((shapesAsked names).method ⟨1⟩).name = "Scale" ∧
      ((shapesAsked names).method ⟨1⟩).declaring = ⟨0⟩ ∧
      ((shapesAsked names).method ⟨1⟩).generics.length = 1 ∧
      ((shapesAsked names).method ⟨1⟩).args = [] := by
    refine ⟨?_, ?_, ?_, ?_, ?_⟩ <;> cbv
  have hanswer (names) : answer (findOverride 5 ⟨2⟩ ⟨1⟩) (shapesAsked names) = .ok ⟨4⟩ := by cbv
  obtain ⟨hflags, hname, hdeclaring, harity, hargs⟩ := hm shapeNames
  obtain ⟨r', hclimbs, hrows⟩ := climbs_shapesAsked shapeNames
  have hvirtual : ((shapesAsked shapeNames).method ⟨1⟩).flags.virtual = true := by rw [hflags]; rfl
  have hshape : ∀ x ∈ [(⟨6⟩ : MethodId), ⟨3⟩, ⟨4⟩, ⟨5⟩],
      (r'.method x).implements ((shapesAsked shapeNames).method ⟨1⟩) = true →
      (r'.method x).generics.length = ((shapesAsked shapeNames).method ⟨1⟩).generics.length ∧
        ((shapesAsked shapeNames).method ⟨1⟩).args = [] := by
    intro x hx himplements
    rw [Method.implements, Bool.and_eq_true, Method.sameSignature_iff, hname] at himplements
    have hx' : ((r'.method x).name, (r'.method x).generics.length) ∈
        [("Area", 0), ("Area", 0), ("Scale", 1), ("Move", 0)] := hrows ▸ List.mem_map_of_mem hx
    rw [himplements.2.1] at hx'
    rw [harity, hargs]
    refine ⟨?_, rfl⟩
    simpa using hx'
  obtain ⟨x, r₁, hfind, hkept, hkept', -⟩ := dispatch_keeps_shape reached_shapesAsked hvirtual
    hclimbs (by rw [hdeclaring]; simp) (by rw [hdeclaring]; decide) hshape (show 2 < 5 by decide)
  exact ⟨hvirtual, ⟨r', hclimbs⟩, x, r₁, hfind,
    Except.ok.inj ((answer_ok hfind).symm.trans (hanswer _)), hkept.trans harity,
      hkept'.trans hargs⟩

/-- A generic method is dispatched to a plain one of its name. -/
theorem dispatch_mixes_arities : ¬∀ (fuel : Nat) (receiver : TypeId) (r r' : Registry)
    (id x : MethodId), r.Reached → (r.method id).flags.virtual = true →
    findOverride fuel receiver id r = .ok x r' →
    (r'.method x).generics.length = (r.method id).generics.length ∧
      (r'.method x).args = (r.method id).args := by
  intro h
  have hm (names) : ((shapesAsked names).method ⟨2⟩).flags = MethodKind.virtual.flags ∧
      ((shapesAsked names).method ⟨2⟩).generics.length = 1 := by
    constructor <;> cbv
  have hanswer (names) : answer (do
      let x ← findOverride 5 ⟨2⟩ ⟨2⟩
      ask fun r ↦ (x, (r.method x).generics.length)) (shapesAsked names) = .ok (⟨5⟩, 0) := by cbv
  obtain ⟨r', hx⟩ := exists_of_answer (hanswer shapeNames)
  obtain ⟨x, r₁, hfind, hx⟩ := exists_of_bind hx
  obtain ⟨hanswered, rfl⟩ := EStateM.Result.ok.inj hx
  have harity := (h _ _ _ _ _ _ reached_shapesAsked (by rw [(hm _).1]; rfl) hfind).1
  rw [(hm _).2, (Prod.mk.inj hanswered).2] at harity
  cases harity

end Registry

end ManagedMachine
