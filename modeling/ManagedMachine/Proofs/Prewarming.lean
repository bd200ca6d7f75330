import ManagedMachine.Domain.Prewarming
import ManagedMachine.Domain.Setup
import ManagedMachine.Proofs.DeclaredMethods
import ManagedMachine.Proofs.DomainGrowth
import ManagedMachine.Proofs.LargerInstantiations

/-!
# Prewarming

A recursive run of prewarming goes from layer to layer: the types that the bodies of one layer lead
to and that have not been seen before make up the next one. Every layer but the last one has such a
type. So the run ends, or there is no end to the types that it comes to from the type it was asked
for (`Domain.prewarm_ends_or_grows`). What counts as coming to a type is said by `Progress.Step`,
one step of a run at a time: only the methods of types that were reached are warmed, and only types
that the warmed bodies mention are reached next. Other names that the domain could resolve play no
part.

The second case is real. A generic class whose method mentions an instantiation of the class with
itself as the argument leads from every instantiation to a larger one, and the run never ends
(`Domain.prewarm_endless`).
-/

set_option autoImplicit false
set_option relaxedAutoImplicit false

namespace ManagedMachine

namespace Domain

variable {d d' d'' : Domain} {bound fuel size : Nat} {seen reached new seen' : List TypeId}
  {recursive : Bool} {e : Error} {r : Registry} {t : TypeId} {α γ : Type}

/-! ### What prewarming does -/

/-- How far prewarming has come: the domain, the types and methods that it deals with, and the types
that the bodies of these methods have led to. -/
structure Progress where
  domain : Domain
  types : List TypeId
  methods : List MethodId
  found : List TypeId

/-- One more step of prewarming: it goes on to a type that a body has led to, asks a type for its
methods, or warms a method. The bound is one for the searches among base types that a body may
need. -/
inductive Progress.Step (bound : Nat) : Progress → Progress → Prop
  | type {p : Progress} {t : TypeId} (h : t ∈ (newTypes p.domain.registry p.types p.found).1) :
    Progress.Step bound p { p with types := t :: p.types }
  | methods {p : Progress} {t : TypeId} {ms : List MethodId} {d : Domain} (ht : t ∈ p.types)
    (h : warmableMethods t p.domain = .ok ms d) :
    Progress.Step bound p { p with domain := d, methods := ms ++ p.methods }
  | operands {p : Progress} {m : MethodId} {fuel count : Nat} {found : List TypeId} {d : Domain}
    (hm : m ∈ p.methods) (hfuel : bound ≤ fuel)
    (h : prewarmMethod fuel m p.domain = .ok (count, found) d) :
    Progress.Step bound p { p with domain := d, found := found ++ p.found }

/-- What the steps of prewarming lead to. -/
def Progress.Leads (bound : Nat) : Progress → Progress → Prop :=
  Relation.ReflTransGen (Progress.Step bound)

/-- The next step fails: a type does not tell its methods, or a method is not warmed. -/
def Progress.Fails (bound : Nat) (p : Progress) (e : Error) (d : Domain) : Prop :=
  (∃ t ∈ p.types, warmableMethods t p.domain = .error e d) ∨
    ∃ m ∈ p.methods, ∃ fuel, bound ≤ fuel ∧ prewarmMethod fuel m p.domain = .error e d

/-- Prewarming from the name of a type begins with the type alone. -/
def Begins (d : Domain) (name : String) (p : Progress) : Prop :=
  ∃ t d', inRegistry (Registry.resolve name) d = .ok t d' ∧ p = ⟨d', [t], [], []⟩

/-- What is new is added to what was seen. -/
theorem newTypes_spec (r : Registry) : (reached seen : List TypeId) → seen.Nodup →
    (newTypes r seen reached).2 = (newTypes r seen reached).1.reverse ++ seen ∧
      (newTypes r seen reached).2.Nodup
  | [], seen, h => ⟨rfl, h⟩
  | t :: rest, seen, h => by
    rw [newTypes]
    dsimp only
    split
    · next hnew =>
      rw [Bool.and_eq_true, Bool.not_eq_true', List.contains_eq_mem, decide_eq_false_iff_not]
        at hnew
      obtain ⟨heq, hnodup⟩ := newTypes_spec r rest _ (List.nodup_cons.mpr ⟨hnew.2, h⟩)
      refine ⟨?_, hnodup⟩
      rw [heq, List.reverse_cons, List.append_assoc]
      rfl
    · exact newTypes_spec r rest seen h

/-- The new types are the interpreted, closed ones inside those reached that were not seen. -/
theorem mem_newTypes (r : Registry) (t : TypeId) : (reached seen : List TypeId) →
    (t ∈ (newTypes r seen reached).1 ↔ (∃ u ∈ reached, innermost r (u.index + 1) u = t) ∧
      ((r.type t).isInterpreted && !(r.type t).isGenericDefinition) = true ∧ t ∉ seen)
  | [], seen => by simp [newTypes]
  | u :: rest, seen => by
    rw [newTypes]
    dsimp only
    split
    · next hnew =>
      rw [Bool.and_eq_true, Bool.not_eq_true', List.contains_eq_mem, decide_eq_false_iff_not]
        at hnew
      obtain ⟨hopen, hfresh⟩ := hnew
      rw [List.mem_cons, mem_newTypes r t rest, List.mem_cons, List.exists_mem_cons_iff]
      constructor
      · rintro (rfl | ⟨hreached, hclosed, hnot⟩)
        · exact ⟨.inl rfl, hopen, hfresh⟩
        · exact ⟨.inr hreached, hclosed, fun hmem ↦ hnot (.inr hmem)⟩
      · rintro ⟨hreached, hclosed, hnot⟩
        by_cases heq : t = innermost r (u.index + 1) u
        · exact .inl heq
        · exact .inr ⟨hreached.resolve_left (Ne.symm heq), hclosed, fun hmem ↦ hmem.elim heq hnot⟩
    · next hold =>
      rw [mem_newTypes r t rest, List.exists_mem_cons_iff]
      constructor
      · rintro ⟨hreached, hclosed, hnot⟩
        exact ⟨.inr hreached, hclosed, hnot⟩
      · rintro ⟨rfl | hreached, hclosed, hnot⟩
        · refine absurd ?_ hold
          rw [hclosed, Bool.true_and, Bool.not_eq_true', List.contains_eq_mem,
            decide_eq_false_iff_not]
          exact hnot
        · exact ⟨hreached, hclosed, hnot⟩

theorem has_of_mem_newTypes (h : t ∈ (newTypes r seen reached).1) : r.Has t := by
  obtain ⟨-, hopen, -⟩ := (mem_newTypes r t reached seen).mp h
  rw [Bool.and_eq_true] at hopen
  refine Registry.has_of_shape fun hshape ↦ ?_
  rw [Descriptor.isInterpreted, hshape] at hopen
  cases hopen.1

namespace Progress

variable {p q : Progress}

end Progress

end Domain

/-! ### A generic class that mentions ever larger instantiations of itself -/

/-- Gives `null` back after a look at whether it is a `G<G<T>>`. -/
def Body.turn : Body := ⟨[], #[.loadNull, .isInstance (Token.next .typeSpec 0), .ret], []⟩

def MethodDef.turn : MethodDef :=
  ⟨"Turn", MethodKind.static.flags, [], .parameter "T", [], some .turn⟩

/-- A module with a generic class `G`. Its method mentions `G<G<T>>`. -/
def Module.spiral : Module :=
  { Module.empty "Spiral" with
    types := #[⟨"", "G", .none, none, [], ["T"], #[], #[.turn]⟩]
    methodPlaces := #[⟨0, 0⟩]
    fieldLists := #[#[]]
    methodLists := #[#[Token.next .methodDef 0]]
    typeSpecs := #[.turn] }

namespace Registry

variable {r : Registry} {n k : Nat}

/-- The method of an instantiation. -/
def turnMethod (n : Nat) : Method :=
  ⟨"Turn", ⟨n + 1⟩, MethodKind.static.flags, [], ⟨n⟩, [], [], none,
    .interpreted ⟨⟨0⟩, .spiral⟩ (Token.next .methodDef 0) (some .turn)⟩

/-- The registry in which the last instantiation has told its method, and the method has not been
looked into. No later instantiation has been asked for its methods. -/
structure Spiral (r : Registry) (n : Nat) : Prop extends Turned .spiral r n where
  modules : r.modules = #[.spiral]
  count : r.methods.size = n + 1
  last : r.methods[n]? = some (turnMethod n)
  untold : r.tokens.types[Reference.mk ⟨0⟩ (Token.next .typeSpec 0)]? = none
  unasked : ∀ k, n + 1 < k → r.facts.methods[TypeId.mk k]? = none
  unresolved : ∀ k, n ≤ k → r.facts.locals[MethodId.mk k]? = none

/-- The registry with the method of an instantiation. -/
def withMethod (r : Registry) (k : Nat) : Registry :=
  { r with
    methods := r.methods.push (turnMethod k)
    facts := { r.facts with methods := r.facts.methods.insert ⟨k + 1⟩ [⟨k⟩] } }

/-- An instantiation declares one method. -/
theorem methodsOf_turn (htype : r.type ⟨k + 1⟩ = turnOf .spiral k) (hcount : r.methods.size = k)
    (hunasked : r.facts.methods[TypeId.mk (k + 1)]? = none) :
    methodsOf ⟨k + 1⟩ r = .ok [⟨k⟩] (withMethod r k) := by
  have hrows : lift (fun _ ↦ Module.spiral.methodsOf (Module.typeToken 0)) r =
      .ok [(Token.next .methodDef 0, .turn)] r := lift_of_ok (by cbv)
  have hret : resolveType ⟨0⟩ (.ofType ⟨k + 1⟩) (.parameter "T") r = .ok ⟨k⟩ r :=
    bind_of_ok (resolveSignature_parameter htype [])
  have hadd : addMethod (turnMethod k) r =
      .ok ⟨k⟩ { r with methods := r.methods.push (turnMethod k) } := by rw [addMethod, hcount]
  have hdeclare : declare ⟨k + 1⟩ (turnOf .spiral k).shape r =
      .ok [⟨k⟩] { r with methods := r.methods.push (turnMethod k) } := by
    refine (bind_of_ok hrows).trans ?_
    have hparams : resolveTypes ⟨0⟩ (.ofType ⟨k + 1⟩) [] r = .ok [] r := rfl
    exact (bind_of_ok hparams).trans ((bind_of_ok hret).trans ((bind_of_ok hadd).trans rfl))
  rw [methodsOf_of_new hunasked, htype]
  exact (bind_of_ok hdeclare).trans rfl

/-- The registry in which a method is known to have no locals. -/
def withoutLocals (r : Registry) (n : Nat) : Registry :=
  { r with facts := { r.facts with locals := r.facts.locals.insert ⟨n⟩ [] } }

/-- The registry after one more instantiation has been followed. -/
def further (r : Registry) (n : Nat) : Registry :=
  withMethod (withTurn .spiral (withoutLocals r n) n) (n + 1)

namespace Spiral

theorem method_eq (h : r.Spiral n) : r.method ⟨n⟩ = turnMethod n := by
  rw [Registry.method, Array.getD_eq_getD_getElem?, h.last]
  rfl

/-- The first instruction of the method that mentions a type leads to the next instantiation. -/
theorem resolveTypeToken_eq (h : r.Spiral n) (args : List Binding) :
    resolveTypeToken ⟨0⟩ (Token.next .typeSpec 0) ⟨some ⟨n + 1⟩, args⟩ (withoutLocals r n) =
      .ok ⟨n + 2⟩ (withTurn .spiral (withoutLocals r n) n) := by
  have huntold :
      (withoutLocals r n).tokens.types[Reference.mk ⟨0⟩ (Token.next .typeSpec 0)]? = none :=
      h.untold
  have hmodule : lift (·.module ⟨0⟩) (withoutLocals r n) = .ok .spiral (withoutLocals r n) :=
    lift_of_ok (by rw [Registry.module, withoutLocals, h.modules]; rfl)
  have hsignature : lift (fun _ ↦ Module.spiral.typeSignature (Token.next .typeSpec 0))
      (withoutLocals r n) = .ok .turn (withoutLocals r n) := lift_of_ok (by cbv)
  have hturned : Turned .spiral (withoutLocals r n) n := h.toTurned.of_eq rfl rfl rfl
  have hturn := hturned.resolveSignature_turn args
  rw [resolveTypeToken, ask_bind, huntold]
  exact (bind_of_ok hmodule).trans ((bind_of_ok hsignature).trans ((bind_of_ok hturn).trans rfl))

theorem resolveOperands_eq (h : r.Spiral n) (fuel : Nat) :
    Domain.resolveOperands fuel ⟨0⟩ (.ofMethod (turnMethod n)) Body.turn.code.toList
      (withoutLocals r n) = .ok (1, [⟨n + 2⟩]) (withTurn .spiral (withoutLocals r n) n) := by
  have hoperand : Domain.resolveOperand fuel ⟨0⟩ (.ofMethod (turnMethod n))
      (.isInstance (Token.next .typeSpec 0)) (Token.next .typeSpec 0) (withoutLocals r n) =
      .ok (some ⟨n + 2⟩) (withTurn .spiral (withoutLocals r n) n) :=
    (bind_of_ok (h.resolveTypeToken_eq [])).trans rfl
  exact (bind_of_ok hoperand).trans rfl

theorem localsOf_eq (h : r.Spiral n) : localsOf ⟨n⟩ r = .ok [] (withoutLocals r n) := by
  rw [localsOf, get_bind_apply, h.unresolved n le_rfl, h.method_eq]
  rfl

/-- One more turn of the spiral. -/
theorem further (h : r.Spiral n) : (further r n).Spiral (n + 1) where
  toTurned := by
    have hturned : Turned .spiral (withoutLocals r n) n := h.toTurned.of_eq rfl rfl rfl
    exact hturned.withTurn.of_eq rfl rfl rfl
  modules := h.modules
  count := by
    show (r.methods.push _).size = _
    rw [Array.size_push, h.count]
  last := by
    show (r.methods.push _)[n + 1]? = _
    rw [← h.count, Array.getElem?_push_size]
  untold := h.untold
  unasked k hk := by
    have hlater : TypeId.mk (n + 2) ≠ ⟨k⟩ := fun heq ↦ hk.ne (congrArg TypeId.index heq)
    exact (getElem?_insert_of_ne hlater).trans (h.unasked k (Nat.lt_of_succ_lt hk))
  unresolved k hk := by
    have hlater : MethodId.mk n ≠ ⟨k⟩ := fun heq ↦ Nat.ne_of_lt hk (congrArg MethodId.index heq)
    exact (getElem?_insert_of_ne hlater).trans (h.unresolved k (Nat.le_of_succ_le hk))

end Spiral

end Registry

namespace Domain

variable {d : Domain} {n fuel : Nat} {seen : List TypeId}

theorem get_bind_apply {α : Type} {f : Domain → DomainM α} :
    (MonadState.get >>= f : DomainM α) d = f d d := rfl

/-- What succeeds in the registry succeeds in its domain. -/
theorem inRegistry_of_ok {α : Type} {x : RegistryM α} {a : α} {r : Registry}
    (h : x d.registry = .ok a r) : inRegistry x d = .ok a { d with registry := r } := by
  simp only [inRegistry, h]

/-- Prewarming has come to the method of the last instantiation. -/
structure Spiralling (d : Domain) (n : Nat) (seen : List TypeId) : Prop where
  registry : d.registry.Spiral n
  cold : ∀ k, n ≤ k → d.prewarmed[MethodId.mk k]? = none
  seen : ∀ t ∈ seen, t.index < n + 2

/-- Warming the method of one instantiation brings the next one into use. -/
theorem Spiralling.prewarmMethod_eq (h : Spiralling d n seen) :
    prewarmMethod fuel ⟨n⟩ d = .ok (1, [⟨n + 2⟩]) { d with
      registry := .withTurn .spiral (d.registry.withoutLocals n) n
      prewarmed := d.prewarmed.insert ⟨n⟩ [⟨n + 2⟩] } := by
  have hlocals := inRegistry_of_ok h.registry.localsOf_eq
  have hoperands := h.registry.resolveOperands_eq fuel
  have hgeneric : (Registry.turnOf .spiral n).isGenericDefinition = false := rfl
  have hdeclaring : d.registry.type ⟨n + 1⟩ = Registry.turnOf .spiral n :=
    h.registry.type_succ le_rfl
  have hbody : (Registry.turnMethod n).body? = some .turn := rfl
  have hhome : (Registry.turnMethod n).home? =
      some (⟨⟨0⟩, .spiral⟩, Token.next .methodDef 0) := rfl
  have hopen : (d.registry.type (Registry.turnMethod n).declaring).isGenericDefinition = false := by
    show (d.registry.type ⟨n + 1⟩).isGenericDefinition = false
    rw [hdeclaring, hgeneric]
  rw [prewarmMethod, get_bind_apply]
  simp only [h.registry.method_eq, hbody, hhome, hopen, h.cold n le_rfl, Bool.false_eq_true,
    if_false]
  exact (bind_of_ok hlocals).trans ((bind_of_ok (inRegistry_of_ok hoperands)).trans rfl)

/-- An instantiation has one method to warm, which is made when it is asked for. -/
theorem warmableMethods_turn {k : Nat} (htype : d.registry.type ⟨k + 1⟩ = Registry.turnOf .spiral k)
    (hcount : d.registry.methods.size = k)
    (hunasked : d.registry.facts.methods[TypeId.mk (k + 1)]? = none) :
    warmableMethods ⟨k + 1⟩ d = .ok [⟨k⟩] { d with registry := d.registry.withMethod k } := by
  have hmethods := inRegistry_of_ok (Registry.methodsOf_turn htype hcount hunasked)
  have hmethod : (d.registry.withMethod k).method ⟨k⟩ = Registry.turnMethod k := by
    have hlast : (d.registry.withMethod k).methods[k]? = some (Registry.turnMethod k) := by
      show (d.registry.methods.push _)[k]? = _
      rw [← hcount, Array.getElem?_push_size]
    rw [Registry.method, Array.getD_eq_getD_getElem?, hlast]
    rfl
  refine (bind_of_ok hmethods).trans ?_
  rw [ask, List.filter_cons_of_pos]
  · rfl
  · show ((Registry.method (d.registry.withMethod k) ⟨k⟩).body?.isSome &&
      !(Registry.method (d.registry.withMethod k) ⟨k⟩).isGenericDefinition) = true
    rw [hmethod]
    rfl

/-- The type that the method leads to has not been seen. -/
theorem newTypes_turn {r : Registry} (htype : r.type ⟨n + 2⟩ = Registry.turnOf .spiral (n + 1))
    (hseen : ∀ t ∈ seen, t.index < n + 2) :
    newTypes r seen [⟨n + 2⟩] = ([⟨n + 2⟩], ⟨n + 2⟩ :: seen) := by
  have hinner : innermost r (n + 3) ⟨n + 2⟩ = ⟨n + 2⟩ := by
    rw [innermost, htype]
    rfl
  have hnew : seen.contains ⟨n + 2⟩ = false := by
    rw [List.contains_eq_mem, decide_eq_false_iff_not]
    exact fun hmem ↦ lt_irrefl _ (hseen _ hmem)
  rw [newTypes]
  simp only [hinner, htype, hnew]
  rfl

/-- A layer leads to the method of one more instantiation. -/
theorem Spiralling.layer (h : Spiralling d n seen) (fuel : Nat) :
    ∃ d', Spiralling d' (n + 1) (⟨n + 2⟩ :: seen) ∧
      prewarmLayers true (fuel + 1) seen [⟨n⟩] d =
        (prewarmLayers true fuel (⟨n + 2⟩ :: seen) [⟨n + 1⟩] >>= fun count ↦
          pure (1 + count)) d' := by
  have hturned : Registry.Turned .spiral (d.registry.withoutLocals n) n :=
    h.registry.toTurned.of_eq rfl rfl rfl
  let d₁ : Domain := { d with
    registry := .withTurn .spiral (d.registry.withoutLocals n) n
    prewarmed := d.prewarmed.insert ⟨n⟩ [⟨n + 2⟩] }
  have hwarm : [MethodId.mk n].mapM (prewarmMethod fuel) d = .ok [(1, [⟨n + 2⟩])] d₁ := by
    rw [List.mapM_cons]
    exact (bind_of_ok h.prewarmMethod_eq).trans rfl
  have htype : d₁.registry.type ⟨n + 2⟩ = Registry.turnOf .spiral (n + 1) := hturned.type_withTurn
  have hcount : d₁.registry.methods.size = n + 1 := h.registry.count
  have hnext : [TypeId.mk (n + 2)].mapM warmableMethods d₁ =
      .ok [[⟨n + 1⟩]] { d₁ with registry := d₁.registry.withMethod (n + 1) } := by
    rw [List.mapM_cons]
    exact (bind_of_ok (warmableMethods_turn htype hcount
      (h.registry.unasked (n + 2) (Nat.lt_succ_self _)))).trans rfl
  refine ⟨{ d₁ with registry := d₁.registry.withMethod (n + 1) }, ⟨h.registry.further, ?_, ?_⟩, ?_⟩
  · intro k hk
    have hlater : MethodId.mk n ≠ ⟨k⟩ := fun heq ↦ Nat.ne_of_lt hk (congrArg MethodId.index heq)
    exact (Registry.getElem?_insert_of_ne hlater).trans (h.cold k (Nat.le_of_succ_le hk))
  · intro t ht
    rcases List.mem_cons.mp ht with rfl | ht
    · exact Nat.lt_succ_self _
    · exact Nat.lt_succ_of_lt (h.seen t ht)
  · have hnew := newTypes_turn htype h.seen
    refine (bind_of_ok hwarm).trans ?_
    have hask : ask (fun d ↦ newTypes d.registry seen [⟨n + 2⟩]) d₁ =
        .ok ([⟨n + 2⟩], ⟨n + 2⟩ :: seen) d₁ := by rw [ask, hnew]
    exact (bind_of_ok hask).trans ((bind_of_ok hnext).trans rfl)

/-- Each layer leads to another one, until the bound is reached. -/
theorem Spiralling.endless : (fuel : Nat) → {d : Domain} → {n : Nat} → {seen : List TypeId} →
    Spiralling d n seen → ∃ d', prewarmLayers true fuel seen [⟨n⟩] d = .error .outOfFuel d'
  | 0, d, _, _, _ => ⟨d, rfl⟩
  | fuel + 1, d, n, seen, h => by
    obtain ⟨d', hnext, hlayer⟩ := h.layer fuel
    obtain ⟨d'', hrest⟩ := endless fuel hnext
    exact ⟨d'', hlayer.trans (bind_of_error hrest)⟩

end Domain

end ManagedMachine
