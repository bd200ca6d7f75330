import ManagedMachine.Proofs.CoreTypes
import ManagedMachine.Proofs.DeclaredMethods

/-!
# A generic class and ever larger instantiations of it

A generic class `G<T>` may mention `G<G<T>>`, for example as its base type or in the body of a
method. The mention means another type in every instantiation. Who follows it from one instantiation
comes to a larger one, and from there to a larger one again
(`Registry.Turned.resolveSignature_turn`), although the module that defines all of them is finite.
`Registry.Turned` describes the registry after a number of these turns, and says nothing of what
else the class declares.

The names of the types of the registry are those of `turnName`, each longer than the one before, and
the parameter of each instantiation means the one before (`resolveSignature_parameter`). A turn
resolves the mention once more and adds one type.
-/

set_option autoImplicit false
set_option relaxedAutoImplicit false

namespace ManagedMachine

/-- The type `G<G<T>>`, as `G<T>` mentions it. -/
def Signature.turn : Signature :=
  .instantiation (.definition (Module.typeToken 0))
    [.instantiation (.definition (Module.typeToken 0)) [.parameter "T"]]

namespace Registry

variable {r : Registry} {m : Module} {n k : Nat}

/-! ### The instantiations -/

/-- The names of the instantiations, each with the one before as its argument. -/
def turnName : Nat → String
  | 0 => "G"
  | n + 1 => "G" ++ "<" ++ turnName n ++ ">"

/-- Every turn adds the brackets and the name of the class, so the names grow by three characters.
-/
theorem length_turnName (n : Nat) : (turnName n).length = 1 + 3 * n := by
  induction n with
  | zero => rfl
  | succ n ih =>
    have hg : "G".length = 1 := rfl
    have hopen : "<".length = 1 := rfl
    have hclose : ">".length = 1 := rfl
    simp only [turnName, String.length_append, ih, hg, hopen, hclose]
    omega

theorem turnName_injective : Function.Injective turnName := by
  intro m n h
  have hlength := congrArg String.length h
  rw [length_turnName, length_turnName] at hlength
  omega

/-- The class is the first type of the module `m`, which is loaded first. -/
def openTurn (m : Module) : Descriptor :=
  ⟨"G", .interpreted ⟨⟨0⟩, m⟩ (Module.typeToken 0), [], none⟩

/-- The instantiation whose argument is the type at a position. -/
def turnOf (m : Module) (n : Nat) : Descriptor :=
  ⟨turnName (n + 1), .interpreted ⟨⟨0⟩, m⟩ (Module.typeToken 0), [⟨"T", ⟨n⟩⟩], some ⟨0⟩⟩

/-- The registry in which the instantiations have been followed up to a number. -/
structure Turned (m : Module) (r : Registry) (n : Nat) : Prop where
  generics : (openTurn m).generics = ["T"]
  definition : r.definitions[Reference.mk ⟨0⟩ (Module.typeToken 0)]? = some ⟨0⟩
  size : r.types.size = n + 2
  first : r.types[0]? = some (openTurn m)
  turns : ∀ k ≤ n, r.types[k + 1]? = some (turnOf m k)
  named : r.names[turnName (n + 1)]? = some ⟨n + 1⟩
  fresh : ∀ k, n + 1 < k → r.names[turnName k]? = none

/-- In the context of an instantiation the parameter means what it was instantiated with. -/
theorem resolveSignature_parameter (htype : r.type ⟨k + 1⟩ = turnOf m k) (args : List Binding) :
    resolveSignature ⟨0⟩ ⟨some ⟨k + 1⟩, args⟩ (.parameter "T") r = .ok (.dependent ⟨k⟩) r := by
  have hfound : GenericContext.find? ⟨some ⟨k + 1⟩, args⟩ r "T" = some ⟨k⟩ := by
    rw [GenericContext.find?, Option.bind_some, htype]
    rfl
  rw [resolveSignature, ask_bind, hfound]
  rfl

/-- The registry with the next instantiation. -/
def withTurn (m : Module) (r : Registry) (n : Nat) : Registry :=
  { r with
    types := r.types.push (turnOf m (n + 1))
    names := r.names.insertIfNew (turnName (n + 2)) ⟨n + 2⟩ }

/-- An instantiation is interned under the name of the next turn. -/
theorem makeInstance_turn (hgenerics : (openTurn m).generics = ["T"])
    (hopen : r.type ⟨0⟩ = openTurn m) (hname : r.typeName ⟨k⟩ = turnName k) :
    makeInstance ⟨0⟩ [⟨k⟩] r = intern (turnOf m k) r := by
  have hself : r.openOf ⟨0⟩ = ⟨0⟩ := by rw [openOf, hopen]; rfl
  have hfirst : r.typeName ⟨0⟩ = "G" := by rw [typeName, hopen]; rfl
  have hone : String.intercalate "," [turnName k] = turnName k := rfl
  rw [makeInstance_of_arity (by rw [hself, hopen, hgenerics]; rfl), hself, instanceOf, hopen,
    hgenerics, List.map_singleton, hname, hfirst, hone]
  rfl

namespace Turned

theorem type_zero (h : Turned m r n) : r.type ⟨0⟩ = openTurn m := type_eq_of_getElem? h.first

/-- The types of the registry, from the open class on, in the order in which they came into use. -/
theorem type_succ (h : Turned m r n) (hk : k ≤ n) : r.type ⟨k + 1⟩ = turnOf m k :=
  type_eq_of_getElem? (t := ⟨k + 1⟩) (h.turns k hk)

/-- Each of them is called after the turns that were made for it. -/
theorem typeName_eq (h : Turned m r n) (hk : k ≤ n + 1) : r.typeName ⟨k⟩ = turnName k := by
  cases k with
  | zero => rw [typeName, h.type_zero]; rfl
  | succ k => rw [typeName, h.type_succ (Nat.le_of_succ_le_succ hk)]; rfl

theorem definedType_eq (h : Turned m r n) : definedType ⟨0⟩ (Module.typeToken 0) r = .ok ⟨0⟩ r := by
  rw [definedType, ask_bind, h.definition]
  rfl

theorem resolveSignature_definition (h : Turned m r n) (c : GenericContext) :
    resolveSignature ⟨0⟩ c (.definition (Module.typeToken 0)) r = .ok (.fixed ⟨0⟩) r := by
  rw [resolveSignature]
  exact bind_of_ok h.definedType_eq

/-- In the last instantiation the signature stands for a new one. -/
theorem resolveSignature_turn (h : Turned m r n) (args : List Binding) :
    resolveSignature ⟨0⟩ ⟨some ⟨n + 1⟩, args⟩ .turn r =
      .ok (.dependent ⟨n + 2⟩) (withTurn m r n) := by
  have hhead := h.resolveSignature_definition ⟨some ⟨n + 1⟩, args⟩
  have hparameter := resolveSignature_parameter (h.type_succ le_rfl) args
  have hinner : resolveSignature ⟨0⟩ ⟨some ⟨n + 1⟩, args⟩
      (.instantiation (.definition (Module.typeToken 0)) [.parameter "T"]) r =
      .ok (.dependent ⟨n + 1⟩) r := by
    have hargs : resolveArguments ⟨0⟩ ⟨some ⟨n + 1⟩, args⟩ [.parameter "T"] r =
        .ok ([⟨n⟩], false) r := by
      rw [resolveArguments]
      refine (bind_of_ok hparameter).trans ?_
      rw [resolveArguments]
      rfl
    have hmade : makeInstance ⟨0⟩ [⟨n⟩] r = .ok ⟨n + 1⟩ r :=
      (makeInstance_turn h.generics h.type_zero (h.typeName_eq (Nat.le_succ n))).trans
        (intern_of_known h.named)
    rw [resolveSignature]
    refine (bind_of_ok hhead).trans ((bind_of_ok hargs).trans ((bind_of_ok hmade).trans rfl))
  have hargs : resolveArguments ⟨0⟩ ⟨some ⟨n + 1⟩, args⟩
      [.instantiation (.definition (Module.typeToken 0)) [.parameter "T"]] r =
      .ok ([⟨n + 1⟩], false) r := by
    rw [resolveArguments]
    refine (bind_of_ok hinner).trans ?_
    rw [resolveArguments]
    rfl
  have hmade : makeInstance ⟨0⟩ [⟨n + 1⟩] r = .ok ⟨n + 2⟩ (withTurn m r n) := by
    have hnew : r.names[(turnOf m (n + 1)).name]? = none := h.fresh (n + 2) (Nat.lt_succ_self _)
    rw [makeInstance_turn h.generics h.type_zero (h.typeName_eq le_rfl), intern_of_new hnew, h.size]
    rfl
  rw [Signature.turn, resolveSignature]
  exact (bind_of_ok hhead).trans ((bind_of_ok hargs).trans ((bind_of_ok hmade).trans rfl))

/-- Only the types, their names and the definitions matter. -/
theorem of_eq {r' : Registry} (h : Turned m r n) (htypes : r'.types = r.types)
    (hnames : r'.names = r.names) (hdefinitions : r'.definitions = r.definitions) :
    Turned m r' n where
  generics := h.generics
  definition := hdefinitions ▸ h.definition
  size := htypes ▸ h.size
  first := htypes ▸ h.first
  turns k hk := htypes ▸ h.turns k hk
  named := hnames ▸ h.named
  fresh k hk := hnames ▸ h.fresh k hk

theorem type_withTurn (h : Turned m r n) : (withTurn m r n).type ⟨n + 2⟩ = turnOf m (n + 1) :=
  type_eq_of_getElem? (t := ⟨n + 2⟩) (by simp [withTurn, ← h.size])

/-- With the next instantiation the registry has been followed one turn further. -/
theorem withTurn (h : Turned m r n) : Turned m (withTurn m r n) (n + 1) where
  generics := h.generics
  definition := h.definition
  size := by
    show (r.types.push _).size = _
    rw [Array.size_push, h.size]
  first := getElem?_push_of_some h.first
  turns k hk := by
    rcases Nat.le_succ_iff.mp hk with hk | rfl
    · exact getElem?_push_of_some (h.turns k hk)
    · show (r.types.push _)[n + 2]? = _
      rw [← h.size, Array.getElem?_push_size]
  named := getElem?_insertIfNew_of_none (h.fresh (n + 2) (Nat.lt_succ_self _))
  fresh k hk := by
    have hlater : turnName (n + 2) ≠ turnName k := turnName_injective.ne (by omega)
    exact (getElem?_insertIfNew_of_ne hlater).trans (h.fresh k (Nat.lt_of_succ_lt hk))

end Turned

/-! ### The first instantiation -/

/-- The registry that loading the module leaves. -/
def ofTurns (m : Module) : Registry :=
  { empty with
    types := #[openTurn m]
    names := ({} : Std.HashMap String TypeId).insertIfNew (turnName 0) ⟨0⟩
    modules := #[m]
    definitions := ({} : Std.HashMap Reference TypeId).insert ⟨⟨0⟩, Module.typeToken 0⟩ ⟨0⟩ }

theorem loadModule_turns {d : TypeDef} (htypes : m.types = #[d]) (hname : definitionName d = "G")
    (hversion : m.version = 0) : loadModule m empty = .ok ⟨0⟩ (ofTurns m) := by
  simp [loadModule, addDefinitions, htypes, hname, hversion, empty, addType, addName, ofTurns,
    turnName, openTurn, bind, EStateM.bind, get, getThe, MonadStateOf.get, EStateM.get, set,
    EStateM.set, modify, modifyGet, MonadStateOf.modifyGet, EStateM.modifyGet, pure, EStateM.pure]

/-- The registry with the first instantiation. -/
def turnsBegun (m : Module) : Registry :=
  { ofTurns m with
    types := #[openTurn m, turnOf m 0]
    names := (ofTurns m).names.insertIfNew (turnName 1) ⟨1⟩ }

/-- The registry in which it is known as it was spelled. -/
def turnsNamed (m : Module) : Registry :=
  { turnsBegun m with names := (turnsBegun m).names.insertIfNew "G<G>" ⟨1⟩ }

/-- The first instantiation comes into use by its name. -/
theorem resolve_turns (hgenerics : (openTurn m).generics = ["T"]) :
    resolve "G<G>" (ofTurns m) = .ok ⟨1⟩ (turnsNamed m) := by
  have hnew : (ofTurns m).names["G<G>"]? = none := by simp [ofTurns, turnName]
  have hparse : TypeName.parse? "G<G>" = some (.generic (.simple "G" none) [.simple "G" none]) := by
    cbv
  have hhead : resolveParsed (.simple "G" none) (ofTurns m) = .ok ⟨0⟩ (ofTurns m) := by
    rw [resolveParsed]
    refine resolveIn_of_some (lookup?_of_known ?_)
    exact getElem?_insertIfNew_of_none Std.HashMap.getElem?_empty
  have htype : (ofTurns m).type ⟨0⟩ = openTurn m := rfl
  have hmade : makeInstance ⟨0⟩ [⟨0⟩] (ofTurns m) = .ok ⟨1⟩ (turnsBegun m) := by
    rw [makeInstance_turn (k := 0) hgenerics htype rfl, intern_of_new hnew]
    rfl
  have hargs : resolveAllParsed [.simple "G" none] (ofTurns m) = .ok [⟨0⟩] (ofTurns m) := by
    rw [resolveAllParsed]
    refine (bind_of_ok hhead).trans ?_
    rw [resolveAllParsed]
    rfl
  have hparsed : resolveParsed (.generic (.simple "G" none) [.simple "G" none]) (ofTurns m) =
      .ok ⟨1⟩ (turnsBegun m) := by
    rw [resolveParsed]
    exact (bind_of_ok hhead).trans ((bind_of_ok hargs).trans hmade)
  rw [resolve, ask_bind, hnew]
  dsimp only
  rw [hparse]
  exact (bind_of_ok hparsed).trans rfl

/-- The registry after that, before any turn. -/
theorem turned_turnsNamed (hgenerics : (openTurn m).generics = ["T"]) :
    Turned m (turnsNamed m) 0 where
  generics := hgenerics
  definition := Std.HashMap.getElem?_insert_self
  size := rfl
  first := rfl
  turns k hk := by
    obtain rfl := Nat.le_zero.mp hk
    rfl
  named := by
    refine getElem?_insertIfNew_of_some (getElem?_insertIfNew_of_none ?_)
    simp [ofTurns, turnName]
  fresh k hk := by
    have hone : turnName 1 ≠ turnName k := turnName_injective.ne hk.ne
    have hzero : turnName 0 ≠ turnName k := turnName_injective.ne (by omega)
    have hspelled : "G<G>" = turnName 1 := rfl
    show (((ofTurns m).names.insertIfNew (turnName 1) ⟨1⟩).insertIfNew "G<G>" ⟨1⟩)[turnName k]? =
        none
    rw [hspelled, getElem?_insertIfNew_of_ne hone, getElem?_insertIfNew_of_ne hone, ofTurns,
      getElem?_insertIfNew_of_ne hzero, Std.HashMap.getElem?_empty]

end Registry

end ManagedMachine
