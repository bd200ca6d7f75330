import ManagedMachine.Proofs.Hierarchies
import ManagedMachine.Proofs.LargerInstantiations

/-!
# Assignability

A value of one type may be stored where another type is expected if a way along base types and
declared interfaces leads from the first to the second. The search for it climbs the base types, and
looks into the interfaces on the way if the target is an interface. It finds nothing else and misses
nothing (`Registry.Assignable`).

A registry finds out what is above a type only when it is asked, and makes the instantiations that
are mentioned there as it goes. So what is above a type is not a set of types that are there at the
start, but grows as one explores it (`Registry.Explores`). The search ends if no way up is a cycle,
and if there is a bound on the types that exploring comes to
(`Registry.isAssignable_iff_assignable`). The bound has to be asked for. A generic class that
derives from a larger instantiation of itself has no cycle above it, but no end either, and the
search climbs for ever (`Registry.isAssignable_endless`).
-/

set_option autoImplicit false
set_option relaxedAutoImplicit false

namespace ManagedMachine

namespace Registry

variable {r r' r₁ r₂ z : Registry} {s t u target : TypeId} {fuel : Nat} {b : Bool} {α β : Type}

/-! ### Hierarchies and what is assignable in them -/

/-- Types implement only interfaces, interfaces have no base type, and nothing is above the object
type, as far as it is known. -/
structure Proper (r : Registry) : Prop where
  interfaces : ∀ (t : TypeId) found u, r.facts.interfaces[t]? = some found → u ∈ found →
    (r.type u).isInterface = true
  baseless : ∀ t u, (r.type t).isInterface = true → r.facts.bases[t]? ≠ some (some u)
  object : ∀ t u, r.typeName t = CoreLibrary.objectName → ¬r.Parent t u

/-- A type is assignable to itself, to what it derives from and, if it is no by-reference type, to
the object type. -/
def Assignable (r : Registry) (s t : TypeId) : Prop :=
  s = t ∨ (r.typeName t = CoreLibrary.objectName ∧ (r.type s).isByRef = false) ∨ r.Derives s t

/-- Transitivity. What the object type is assignable to does not matter, as nothing is above it. -/
theorem Assignable.trans (hf : r.Founded) (hp : r.Proper) (h : r.Assignable s t)
    (h' : r.Assignable t u) : r.Assignable s u := by
  rcases h with rfl | h
  · exact h'
  rcases h' with rfl | ⟨hobject, hvalue⟩ | hderives
  · exact Or.inr h
  · rcases h with ⟨-, hs⟩ | hst
    · exact Or.inr (Or.inl ⟨hobject, hs⟩)
    · rcases hst.cases_head with rfl | ⟨v, hedge, -⟩
      · exact Or.inr (Or.inl ⟨hobject, hvalue⟩)
      · exact Or.inr (Or.inl ⟨hobject, (hf s v hedge).2⟩)
  · rcases h with ⟨hobject, hs⟩ | hst
    · rcases hderives.cases_head with rfl | ⟨v, hedge, -⟩
      · exact Or.inr (Or.inl ⟨hobject, hs⟩)
      · exact absurd hedge (hp.object t v hobject)
    · exact Or.inr (Or.inr (hst.trans hderives))

/-- Above an interface there are only interfaces. -/
theorem Proper.isInterface_of_derives (hp : r.Proper) (ht : (r.type t).isInterface = true)
    (h : r.Derives t u) : (r.type u).isInterface = true := by
  induction h with
  | refl => exact ht
  | tail _ hedge ih =>
    cases hedge with
    | base hb => exact absurd hb (hp.baseless _ _ ih)
    | interface hf hu => exact hp.interfaces _ _ _ hf hu

/-! ### One step of the search -/

/-- The search among the interfaces that a type declares, if the target is an interface. -/
def reachesThrough (target : TypeId) (next : TypeId → RegistryM Bool) (t : TypeId) :
    RegistryM Bool := do
  if ← ask fun r => (r.type target).isInterface then (← interfaces t).anyM next else return false

/-- The search from the base type, if there is one. -/
def reachesAbove (next : TypeId → RegistryM Bool) (t : TypeId) : RegistryM Bool := do
  match ← baseType t with
  | some base => next base
  | none => return false

/-- The second search, if the first one finds nothing. -/
def orFrom (x y : RegistryM Bool) : RegistryM Bool := do
  if ← x then return true else y

theorem reaches_self (fuel : Nat) (t : TypeId) (r : Registry) :
    reaches t (fuel + 1) t r = .ok true r := by
  rw [reaches, if_pos rfl]
  rfl

theorem reaches_of_ne (h : t ≠ target) : reaches target (fuel + 1) t =
    orFrom (reachesThrough target (reaches target fuel) t)
      (reachesAbove (reaches target fuel) t) := by
  rw [reaches, if_neg h, orFrom, reachesThrough, bind_assoc]
  refine bind_congr fun isInterface ↦ ?_
  cases isInterface with
  | true => exact (bind_assoc (interfaces t) (List.anyM (reaches target fuel)) _).symm
  | false => rfl

/-- What a search among some types found, it found from one of them. -/
theorem exists_of_anyM {R : Registry → Registry → Prop} [IsPreorder Registry R]
    {next : α → RegistryM Bool} (hkeep : ∀ a, Keeps R (next a)) : (found : List α) →
    {r r' : Registry} → found.anyM next r = .ok true r' →
    ∃ a ∈ found, ∃ r₁, R r r₁ ∧ next a r₁ = .ok true r'
  | [], _, _, hx => by cases hx
  | a :: rest, r, r', hx => by
    obtain ⟨hit, r₁, hfirst, hx⟩ := exists_of_bind hx
    cases hit with
    | true =>
      cases hx
      exact ⟨a, .head _, r, refl_of R r, hfirst⟩
    | false =>
      obtain ⟨a', hmem, r₂, hr₂, hfound⟩ := exists_of_anyM hkeep rest hx
      exact ⟨a', .tail _ hmem, r₂, trans_of R ((hkeep a).ok hfirst) hr₂, hfound⟩

/-- A search that found nothing found nothing from any of the types. -/
theorem forall_of_anyM {R : Registry → Registry → Prop} [IsPreorder Registry R]
    {next : α → RegistryM Bool} (hkeep : ∀ a, Keeps R (next a)) : (found : List α) →
    {r r' : Registry} → found.anyM next r = .ok false r' →
    ∀ a ∈ found, ∃ r₁ r₂, R r r₁ ∧ next a r₁ = .ok false r₂ ∧ R r₂ r'
  | [], _, _, _, _, hmem => by cases hmem
  | a :: rest, r, r', hx, a', hmem => by
    obtain ⟨hit, r₁, hfirst, hrest⟩ := exists_of_bind hx
    cases hit with
    | true => cases hrest
    | false =>
      rcases List.mem_cons.mp hmem with rfl | hmem
      · exact ⟨r, r₁, refl_of R r, hfirst, (Keeps.anyM hkeep rest).ok hrest⟩
      · obtain ⟨r₂, r₃, hr₂, hnext, hr₃⟩ := forall_of_anyM hkeep rest hrest a' hmem
        exact ⟨r₂, r₃, trans_of R ((hkeep a).ok hfirst) hr₂, hnext, hr₃⟩

/-- A search that succeeds is at its target, or goes on from a parent. -/
theorem reaches_true (h : reaches target (fuel + 1) t r = .ok true r') :
    t = target ∨ ∃ u r₁, Charts r r₁ ∧ r₁.Parent t u ∧ reaches target fuel u r₁ = .ok true r' := by
  by_cases hne : t = target
  · exact Or.inl hne
  rw [reaches_of_ne hne] at h
  obtain ⟨among, r₁, hthrough, h⟩ := exists_of_bind h
  obtain ⟨isInterface, r₀, hask, hthrough⟩ := exists_of_bind hthrough
  cases hask
  cases among with
  | true =>
    cases h
    split at hthrough
    · obtain ⟨found, r₂, hfound, hany⟩ := exists_of_bind hthrough
      obtain ⟨u, hu, r₃, hr₃, hnext⟩ :=
        exists_of_anyM (R := Charts) (grows_reaches target fuel) found hany
      have hparent : r₃.Parent t u := hr₃.1.parent (.interface (facts_of_interfaces hfound) hu)
      exact Or.inr ⟨u, r₃, trans_of Charts ((grows_interfaces t).ok hfound) hr₃, hparent, hnext⟩
    · cases hthrough
  | false =>
    have hr₁ : Charts r r₁ := by
      split at hthrough
      · obtain ⟨found, r₂, hfound, hany⟩ := exists_of_bind hthrough
        exact trans_of Charts ((grows_interfaces t).ok hfound)
          ((Keeps.anyM (grows_reaches target fuel) found).ok hany)
      · cases hthrough
        exact refl_of Charts r
    obtain ⟨base, r₂, hbase, h⟩ := exists_of_bind h
    cases base with
    | none => cases h
    | some u =>
      have hr₂ : Charts r₁ r₂ := (grows_baseType t).ok hbase
      exact Or.inr ⟨u, r₂, trans_of Charts hr₁ hr₂, .base (facts_of_baseType hbase), h⟩

/-- A search that fails is not at its target, and fails from every parent that it asks for. -/
theorem reaches_false (h : reaches target (fuel + 1) t r = .ok false r') :
    t ≠ target ∧
    ((r.type target).isInterface = true → ∃ found, r'.facts.interfaces[t]? = some found ∧
      ∀ u ∈ found, ∃ r₁ r₂, Charts r r₁ ∧ reaches target fuel u r₁ = .ok false r₂ ∧ Charts r₂ r') ∧
    ∃ base, r'.facts.bases[t]? = some base ∧
      ∀ u, base = some u → ∃ r₁, Charts r r₁ ∧ reaches target fuel u r₁ = .ok false r' := by
  have hne : t ≠ target := by
    rintro rfl
    rw [reaches_self] at h
    cases h
  rw [reaches_of_ne hne] at h
  obtain ⟨among, r₁, hthrough, h⟩ := exists_of_bind h
  cases among with
  | true => cases h
  | false =>
    obtain ⟨isInterface, r₀, hask, hthrough⟩ := exists_of_bind hthrough
    cases hask
    obtain ⟨base, r₂, hbase, h⟩ := exists_of_bind h
    have hr₂ : Charts r₁ r₂ := (grows_baseType t).ok hbase
    have hlast : Charts r₂ r' := by
      cases base with
      | none =>
        cases h
        exact refl_of Charts _
      | some u => exact (grows_reaches target fuel u).ok h
    have hr₁ : Charts r r₁ ∧ ((r.type target).isInterface = true →
        ∃ found, r₁.facts.interfaces[t]? = some found ∧ ∀ u ∈ found, ∃ r₃ r₄,
          Charts r r₃ ∧ reaches target fuel u r₃ = .ok false r₄ ∧ Charts r₄ r₁) := by
      split at hthrough
      · obtain ⟨found, r₅, hfound, hany⟩ := exists_of_bind hthrough
        have hr₅ : Charts r r₅ := (grows_interfaces t).ok hfound
        have hall : Charts r₅ r₁ := (Keeps.anyM (grows_reaches target fuel) found).ok hany
        refine ⟨trans_of Charts hr₅ hall, fun _ ↦
          ⟨found, hall.1.interfaces _ _ (facts_of_interfaces hfound), fun u hu ↦ ?_⟩⟩
        obtain ⟨r₃, r₄, hr₃, hnext, hr₄⟩ :=
          forall_of_anyM (R := Charts) (grows_reaches target fuel) found hany u hu
        exact ⟨r₃, r₄, trans_of Charts hr₅ hr₃, hnext, hr₄⟩
      · next hclosed =>
        cases hthrough
        exact ⟨refl_of Charts r, fun hopen ↦ absurd hopen hclosed⟩
    have hr' : Charts r₁ r' := trans_of Charts hr₂ hlast
    refine ⟨hne, fun hopen ↦ ?_, base, hlast.1.bases _ _ (facts_of_baseType hbase), fun u hu ↦ ?_⟩
    · obtain ⟨found, hfound, hall⟩ := hr₁.2 hopen
      refine ⟨found, hr'.1.interfaces _ _ hfound, fun u hu ↦ ?_⟩
      obtain ⟨r₃, r₄, hr₃, hnext, hr₄⟩ := hall u hu
      exact ⟨r₃, r₄, hr₃, hnext, trans_of Charts hr₄ hr'⟩
    · subst hu
      exact ⟨r₂, trans_of Charts hr₁.1 hr₂, h⟩

/-! ### What a search finds and misses -/

/-- Induction on the bound, which is the length of the way that is left. -/
theorem derives_of_reaches : (fuel : Nat) → {t : TypeId} → {r r' : Registry} →
    reaches target fuel t r = .ok true r' → r'.Derives t target
  | 0, _, _, _, h => by cases h
  | fuel + 1, t, r, r', h => by
    rcases reaches_true h with rfl | ⟨u, r₁, -, hparent, hnext⟩
    · exact .refl
    · have hr' : Charts r₁ r' := (grows_reaches target fuel u).ok hnext
      exact .head (hr'.1.parent hparent) (derives_of_reaches fuel hnext)

/-- A search misses nothing: what it did not find is not above the type at any later time. -/
theorem not_derives_of_reaches (hp : z.Proper) : (fuel : Nat) → {t : TypeId} → {r r' : Registry} →
    r.Has target → reaches target fuel t r = .ok false r' → r'.Retains z → ¬z.Derives t target
  | 0, _, _, _, _, h, _ => by cases h
  | fuel + 1, t, r, r', htarget, h, hz => by
    obtain ⟨hne, hinterfaces, base, hbase, habove⟩ := reaches_false h
    intro hderives
    rcases hderives.cases_head with rfl | ⟨u, hedge, hrest⟩
    · exact hne rfl
    have hrz : r.Retains z :=
      (Keeps.ok (R := Charts) (grows_reaches target (fuel + 1) t) h).1.trans hz
    cases hedge with
    | base hb =>
      have heq : base = some u := Option.some.inj ((hz.bases _ _ hbase).symm.trans hb)
      obtain ⟨r₁, hr₁, hnext⟩ := habove u heq
      exact not_derives_of_reaches hp fuel (hr₁.1.has htarget) hnext hz hrest
    | interface hf hu =>
      -- an interface leads to interfaces only, so the search has asked for the interfaces
      have hopen : (r.type target).isInterface = true := by
        rw [← hrz.type_eq htarget]
        exact hp.isInterface_of_derives (hp.interfaces _ _ _ hf hu) hrest
      obtain ⟨found, hfound, hall⟩ := hinterfaces hopen
      cases (hz.interfaces _ _ hfound).symm.trans hf
      obtain ⟨r₁, r₂, hr₁, hnext, hr₂⟩ := hall u hu
      exact not_derives_of_reaches hp fuel (hr₁.1.has htarget) hnext (hr₂.1.trans hz) hrest

theorem isAssignable_self (fuel : Nat) (t : TypeId) (r : Registry) :
    isAssignable fuel t t r = .ok true r := by
  show (if t = t then _ else _ : RegistryM Bool) r = _
  rw [if_pos rfl]
  rfl

theorem isAssignable_of_object (hne : s ≠ t) (hobject : r.typeName t = CoreLibrary.objectName) :
    isAssignable fuel s t r = .ok (!(r.type s).isByRef) r := by
  show (if s = t then _ else if r.typeName t = CoreLibrary.objectName then _ else _ :
    RegistryM Bool) r = _
  rw [if_neg hne, if_pos hobject]
  rfl

theorem isAssignable_of_ne (hne : s ≠ t) (hobject : r.typeName t ≠ CoreLibrary.objectName) :
    isAssignable fuel s t r = reaches t fuel s r := by
  show (if s = t then _ else if r.typeName t = CoreLibrary.objectName then _ else _ :
    RegistryM Bool) r = _
  rw [if_neg hne, if_neg hobject]

/-- An answer says whether the type is assignable, as far as anything is known of the hierarchy
then or later. -/
theorem assignable_iff_of_isAssignable (hf : r.Founded) (hs : r.Has s) (ht : r.Has t)
    (h : isAssignable fuel s t r = .ok b r') (hz : Charts r' z) (hp : z.Proper) :
    b = true ↔ z.Assignable s t := by
  have hr' : Charts r r' := (grows_isAssignable fuel s t).ok h
  have hrz : Charts r z := trans_of Charts hr' hz
  have hname : z.typeName t = r.typeName t := hrz.1.typeName_eq ht
  have hbyRef : (z.type s).isByRef = (r.type s).isByRef := by rw [hrz.1.type_eq hs]
  by_cases hne : s = t
  · subst hne
    rw [isAssignable_self] at h
    cases h
    exact ⟨fun _ ↦ Or.inl rfl, fun _ ↦ rfl⟩
  by_cases hobject : r.typeName t = CoreLibrary.objectName
  · rw [isAssignable_of_object hne hobject] at h
    cases h
    rw [← hbyRef, Bool.not_eq_true']
    constructor
    · exact fun hvalue ↦ Or.inr (Or.inl ⟨hname.trans hobject, hvalue⟩)
    · rintro (heq | ⟨-, hvalue⟩ | hderives)
      · exact absurd heq hne
      · exact hvalue
      · rcases hderives.cases_head with heq | ⟨u, hedge, -⟩
        · exact absurd heq hne
        · exact (hrz.2 hf s u hedge).2
  · rw [isAssignable_of_ne hne hobject] at h
    have hobject' : z.typeName t ≠ CoreLibrary.objectName := hname ▸ hobject
    cases b with
    | true =>
      exact ⟨fun _ ↦ Or.inr (Or.inr (hz.1.derives (derives_of_reaches fuel h))), fun _ ↦ rfl⟩
    | false =>
      refine ⟨nofun, ?_⟩
      rintro (heq | ⟨heq, -⟩ | hderives)
      · exact absurd heq hne
      · exact absurd heq hobject'
      · exact absurd hderives (not_derives_of_reaches hp fuel ht h hz.1)

/-! ### The hierarchy above a type -/

/-- The second registry comes from the first one by finding out what is above a type: each time the
base type, or the interfaces, of a type that is above it by then. -/
inductive Explores (r : Registry) (s : TypeId) : Registry → Prop
  | refl : Explores r s r
  | base {z z' : Registry} {t : TypeId} {found : Option TypeId} (h : Explores r s z)
      (ht : z.Derives s t) (hx : baseType t z = .ok found z') : Explores r s z'
  | interfaces {z z' : Registry} {t : TypeId} {found : List TypeId} (h : Explores r s z)
      (ht : z.Derives s t) (hx : Registry.interfaces t z = .ok found z') : Explores r s z'

theorem Explores.trans (h : r.Explores s r') (h' : r'.Explores s z) : r.Explores s z := by
  induction h' with
  | refl => exact h
  | base _ ht hx ih => exact .base ih ht hx
  | interfaces _ ht hx ih => exact .interfaces ih ht hx

theorem Explores.charts (h : r.Explores s z) : Charts r z := by
  induction h with
  | refl => exact refl_of Charts r
  | base _ _ hx ih => exact trans_of Charts ih ((grows_baseType _).ok hx)
  | interfaces _ _ hx ih => exact trans_of Charts ih ((grows_interfaces _).ok hx)

/-- No way up from the type comes back to where it has been, whatever is found out of the types
above it. -/
def AcyclicAbove (r : Registry) (s : TypeId) : Prop :=
  ∀ z, r.Explores s z → ∀ t, z.Derives s t → ¬Relation.TransGen z.Parent t t

/-- There is a bound on the number of types above the type, counting those that come into being only
as they are found out. Without generic types there is one, as a module defines finitely many types.
A generic class that derives from ever larger instantiations of itself has no bound. -/
def BoundedAbove (r : Registry) (s : TypeId) : Prop :=
  ∃ size, ∀ z, r.Explores s z → ∀ types : List TypeId, types.Nodup →
    (∀ t ∈ types, z.Derives s t) → types.length ≤ size

/-- A way up to a type, with the types below it on the way. -/
structure Way (z : Registry) (s t : TypeId) (below : List TypeId) : Prop where
  derives : z.Derives s t
  nodup : below.Nodup
  climbs : ∀ u ∈ below, z.Derives s u ∧ Relation.TransGen z.Parent u t

namespace Way

variable {below : List TypeId} {size : Nat}

theorem start (z : Registry) (s : TypeId) : Way z s s [] :=
  ⟨.refl, List.nodup_nil, List.forall_mem_nil _⟩

/-- As there is no cycle, a step up leads to a type that is not on the way. -/
theorem step (h : Way z s t below) (hacyclic : ¬Relation.TransGen z.Parent t t)
    (hr : z.Retains r) (hu : r.Parent t u) : Way r s u (t :: below) where
  derives := (hr.derives h.derives).tail hu
  nodup := List.nodup_cons.mpr ⟨fun hmem ↦ hacyclic (h.climbs t hmem).2, h.nodup⟩
  climbs := by
    refine List.forall_mem_cons.mpr ⟨⟨hr.derives h.derives, .single hu⟩, fun v hv ↦ ?_⟩
    obtain ⟨hv, hclimb⟩ := h.climbs v hv
    exact ⟨hr.derives hv, (Relation.TransGen.mono (fun _ _ ↦ hr.parent) _ _ hclimb).tail hu⟩

theorem length_lt (h : Way z s t below) (hacyclic : ¬Relation.TransGen z.Parent t t)
    (hsize : ∀ types : List TypeId, types.Nodup → (∀ t ∈ types, z.Derives s t) →
      types.length ≤ size) : below.length < size :=
  hsize (t :: below) (List.nodup_cons.mpr ⟨fun hmem ↦ hacyclic (h.climbs t hmem).2, h.nodup⟩)
    (List.forall_mem_cons.mpr ⟨h.derives, fun u hu ↦ (h.climbs u hu).1⟩)

end Way

/-! ### When the search ends -/

/-- What a search from a type answers: it ends where it has got to, or fails with the error of a
base type, or of the interfaces, of a type that it came to on a way up. -/
def Answered (r : Registry) (s : TypeId) : EStateM.Result Error Registry α → Prop
  | .ok _ z => r.Explores s z
  | .error e z => ∃ t w, r.Explores s w ∧ w.Derives s t ∧
      (baseType t w = .error e z ∨ interfaces t w = .error e z)

variable {result : EStateM.Result Error Registry α}

/-- An answer that was given after exploring further is an answer for the type below. -/
theorem Explores.answered (h : r.Explores s r') (hresult : r'.Answered s result) :
    r.Answered s result := by
  cases result with
  | ok a z => exact h.trans hresult
  | error e z =>
    obtain ⟨t, w, hw, hfails⟩ := hresult
    exact ⟨t, w, h.trans hw, hfails⟩

theorem answered_baseType (ht : r.Derives s t) : r.Answered s (baseType t r) := by
  cases hx : baseType t r with
  | ok base z => exact .base .refl ht hx
  | error e z => exact ⟨t, r, .refl, ht, Or.inl hx⟩

theorem answered_interfaces (ht : r.Derives s t) : r.Answered s (interfaces t r) := by
  cases hx : interfaces t r with
  | ok found z => exact .interfaces .refl ht hx
  | error e z => exact ⟨t, r, .refl, ht, Or.inr hx⟩

/-- From some bound on the search among the types above one answers, and always the same. -/
def Ends (x : Nat → RegistryM α) (s : TypeId) (r : Registry) : Prop :=
  ∃ fuel result, (∀ more, fuel ≤ more → x more r = result) ∧ r.Answered s result

namespace Ends

variable {x y : Nat → RegistryM Bool}

theorem const {x : RegistryM α} (h : r.Answered s (x r)) : Ends (fun _ ↦ x) s r :=
  ⟨0, x r, fun _ _ ↦ rfl, h⟩

theorem pure (a : α) : Ends (fun _ ↦ Pure.pure a) s r := const Explores.refl

/-- A bound that is one larger serves as well. -/
theorem of_succ {x : Nat → RegistryM α} (h : Ends (fun fuel ↦ x (fuel + 1)) s r) : Ends x s r := by
  obtain ⟨fuel, result, hsame, hanswered⟩ := h
  refine ⟨fuel + 1, result, fun more hmore ↦ ?_, hanswered⟩
  obtain ⟨more, rfl⟩ := Nat.exists_eq_add_of_lt hmore
  exact hsame _ (by omega)

/-- Of two computations in a row, the second one has to end in every registry that the first one may
leave. -/
theorem bind {x : Nat → RegistryM α} {f : Nat → α → RegistryM β} (hx : Ends x s r)
    (hf : ∀ n a z, x n r = .ok a z → r.Explores s z → Ends (fun n ↦ f n a) s z) :
    Ends (fun n ↦ x n >>= f n) s r := by
  obtain ⟨fuel, result, hsame, hanswered⟩ := hx
  cases result with
  | error e z =>
    exact ⟨fuel, .error e z, fun more hmore ↦ bind_of_error (hsame more hmore), hanswered⟩
  | ok a z =>
    obtain ⟨fuel', result, hsame', hanswered'⟩ := hf fuel a z (hsame fuel le_rfl) hanswered
    refine ⟨max fuel fuel', result, fun more hmore ↦ ?_, Explores.answered hanswered hanswered'⟩
    have hfirst := hsame more (le_trans (le_max_left _ _) hmore)
    exact (bind_of_ok hfirst).trans (hsame' more (le_trans (le_max_right _ _) hmore))

/-- A question to several types in turn ends if it ends for each of them, whatever the ones before
have found out. -/
theorem anyM {next : Nat → TypeId → RegistryM Bool} : (found : List TypeId) → {r : Registry} →
    (∀ u ∈ found, ∀ z, r.Explores s z → Ends (next · u) s z) →
    Ends (fun n ↦ found.anyM (next n)) s r
  | [], _, _ => pure false
  | u :: rest, r, h => by
    have hhead : Ends (next · u) s r := h u (.head _) r .refl
    refine hhead.bind fun n hit z _ hz ↦ ?_
    cases hit with
    | true => exact pure true
    | false => exact anyM rest fun u' hu' w hw ↦ h u' (.tail _ hu') w (hz.trans hw)

theorem orFrom (hx : Ends x s r) (hy : ∀ z, r.Explores s z → Ends y s z) :
    Ends (fun n ↦ Registry.orFrom (x n) (y n)) s r := by
  refine hx.bind fun n among z _ hz ↦ ?_
  cases among with
  | true => exact pure true
  | false => exact hy z hz

end Ends

/-- Induction on the number of types that a way up can still come to. No type comes twice on a way,
and the bound is on all of them together, so each step up leaves fewer. -/
theorem AcyclicAbove.ends_reaches {size : Nat} (hacyclic : r.AcyclicAbove s)
    (hsize : ∀ z, r.Explores s z → ∀ types : List TypeId, types.Nodup →
      (∀ t ∈ types, z.Derives s t) → types.length ≤ size) (target : TypeId) :
    (left : Nat) → {t : TypeId} → {below : List TypeId} → {z : Registry} → r.Explores s z →
    Way z s t below → size ≤ below.length + left → Ends (fun fuel ↦ reaches target fuel t) s z
  | 0, t, _, z, hz, hway, hleft =>
    absurd (hway.length_lt (hacyclic z hz t hway.derives) (hsize z hz)) (Nat.not_lt.mpr hleft)
  | left + 1, t, below, z, hz, hway, hleft => by
    refine .of_succ ?_
    by_cases hne : t = target
    · subst hne
      exact ⟨0, .ok true z, fun more _ ↦ reaches_self more t z, .refl⟩
    have hnext {u : TypeId} {w : Registry} (hw : z.Explores s w) (hu : w.Parent t u) :
        Ends (fun fuel ↦ reaches target fuel u) s w := by
      refine hacyclic.ends_reaches hsize target left (hz.trans hw)
        (hway.step (hacyclic z hz t hway.derives) hw.charts.1 hu) ?_
      rw [List.length_cons]
      omega
    have hderives {w : Registry} (hw : z.Explores s w) : w.Derives s t :=
      hw.charts.1.derives hway.derives
    simp only [reaches_of_ne hne]
    refine Ends.orFrom ?_ fun w hw ↦ ?_
    · refine Ends.bind (x := fun _ ↦ ask fun r ↦ (r.type target).isInterface)
        (.const (x := ask fun r ↦ (r.type target).isInterface) .refl) fun n isInterface w _ hw ↦ ?_
      cases isInterface with
      | false => exact .pure false
      | true =>
        refine Ends.bind (.const (answered_interfaces (hderives hw))) fun n found v hfound hv ↦ ?_
        refine .anyM found fun u hu v' hv' ↦ hnext ((hw.trans hv).trans hv') ?_
        exact hv'.charts.1.parent (.interface (facts_of_interfaces hfound) hu)
    · refine Ends.bind (.const (answered_baseType (hderives hw))) fun n base v hbase hv ↦ ?_
      cases base with
      | none => exact .pure false
      | some u => exact hnext (hw.trans hv) (.base (facts_of_baseType hbase))

theorem AcyclicAbove.ends_isAssignable (hacyclic : r.AcyclicAbove s) (hbounded : r.BoundedAbove s)
    (t : TypeId) : Ends (fun fuel ↦ isAssignable fuel s t) s r := by
  by_cases hne : s = t
  · subst hne
    exact ⟨0, .ok true r, fun more _ ↦ isAssignable_self more s r, .refl⟩
  by_cases hobject : r.typeName t = CoreLibrary.objectName
  · exact ⟨0, _, fun more _ ↦ isAssignable_of_object hne hobject, .refl⟩
  · obtain ⟨size, hsize⟩ := hbounded
    obtain ⟨fuel, result, hsame, hanswered⟩ :=
      hacyclic.ends_reaches hsize t size .refl (Way.start r s) (Nat.le_add_left size _)
    refine ⟨fuel, result, fun more hmore ↦ ?_, hanswered⟩
    exact (isAssignable_of_ne hne hobject).trans (hsame more hmore)

/-! ### Hierarchies that are known -/

/-- Everything above the type has been found out. -/
def Known (r : Registry) (s : TypeId) : Prop :=
  ∀ u, r.Derives s u → (∃ base, r.facts.bases[u]? = some base) ∧
    ∃ found, r.facts.interfaces[u]? = some found

/-- No step up is added above a type of which everything is known. -/
theorem Known.parent (hknown : r.Known s) (hz : r.Retains z) (ht : r.Derives s t)
    (h : z.Parent t u) : r.Parent t u := by
  obtain ⟨⟨base, hbase⟩, found, hfound⟩ := hknown t ht
  cases h with
  | base hb =>
    cases (hz.bases _ _ hbase).symm.trans hb
    exact .base hbase
  | interface hf hu =>
    cases (hz.interfaces _ _ hfound).symm.trans hf
    exact .interface hfound hu

/-- What is found out later shows no way up that was not known. -/
theorem Known.derives (hknown : r.Known s) (hz : r.Retains z) (h : z.Derives s t) :
    r.Derives s t := by
  induction h with
  | refl => exact .refl
  | tail _ hedge ih => exact ih.tail (hknown.parent hz ih hedge)

theorem Known.transGen (hknown : r.Known s) (hz : r.Retains z) (ht : r.Derives s t)
    (h : Relation.TransGen z.Parent t u) : Relation.TransGen r.Parent t u := by
  induction h with
  | single hedge => exact .single (hknown.parent hz ht hedge)
  | tail _ hedge ih => exact ih.tail (hknown.parent hz (ht.trans ih.to_reflTransGen) hedge)

theorem Known.acyclicAbove (hknown : r.Known s)
    (hacyclic : ∀ t, r.Derives s t → ¬Relation.TransGen r.Parent t t) : r.AcyclicAbove s := by
  intro z hz t ht hcycle
  have ht' := hknown.derives hz.charts.1 ht
  exact hacyclic t ht' (hknown.transGen hz.charts.1 ht' hcycle)

/-- The base type of a type and the interfaces that it declares, as far as they are known. -/
def parents (r : Registry) (t : TypeId) : List TypeId :=
  (r.facts.bases[t]?.join).toList ++ (r.facts.interfaces[t]?).getD []

theorem Parent.mem_parents (h : r.Parent t u) : u ∈ r.parents t := by
  cases h with
  | base hb =>
    refine List.mem_append_left _ ?_
    rw [hb]
    exact List.mem_singleton_self u
  | interface hf hu =>
    refine List.mem_append_right _ ?_
    rw [hf]
    exact hu

/-- Only types that are there have anything above them, so what is known is bounded. -/
theorem Known.boundedAbove (hknown : r.Known s) (hf : r.Founded) : r.BoundedAbove s := by
  refine ⟨(s :: (List.range r.types.size).flatMap fun i ↦ r.parents ⟨i⟩).length,
    fun z hz types hnodup htypes ↦ (hnodup.subperm fun t ht ↦ ?_).length_le⟩
  rcases (hknown.derives hz.charts.1 (htypes t ht)).cases_tail with rfl | ⟨u, -, hedge⟩
  · exact .head _
  · exact .tail _ (List.mem_flatMap.mpr
      ⟨u.index, List.mem_range.mpr (hf u t hedge).1, hedge.mem_parents⟩)

/-- Where everything is known, no search fails. -/
theorem Known.ok_of_answered (hknown : r.Known s) (h : r.Answered s result) :
    ∃ a z, result = .ok a z := by
  cases result with
  | ok a z => exact ⟨a, z, rfl⟩
  | error e z =>
    obtain ⟨t, w, hw, hderives, hfails⟩ := h
    obtain ⟨⟨base, hbase⟩, found, hfound⟩ := hknown t (hknown.derives hw.charts.1 hderives)
    rw [baseType_of_known (hw.charts.1.bases _ _ hbase),
      interfaces_of_known (hw.charts.1.interfaces _ _ hfound)] at hfails
    exact hfails.elim nofun nofun

/-- Assignability is reachability. If no way up from a type is a cycle, and there is a bound on the
types above it, the question whether it is assignable to another type is answered within some bound,
and only a base type or an interface above it that cannot be resolved makes it fail. The answer is
right of everything that is known of the hierarchy then or later. So assignability is reflexive, and
transitive over whatever is done between the questions. -/
theorem isAssignable_iff_assignable (h : r.Reached) (hs : r.Has s) (ht : r.Has t)
    (hacyclic : r.AcyclicAbove s) (hbounded : r.BoundedAbove s) :
    (∃ fuel result, (∀ more, fuel ≤ more → isAssignable more s t r = result) ∧
      r.Answered s result ∧ (r.Known s → ∃ b r', result = .ok b r') ∧
      ∀ b r' z, result = .ok b r' → r'.Since z → z.Proper → (b = true ↔ z.Assignable s t)) ∧
    (∀ fuel, isAssignable fuel s s r = .ok true r) ∧
    ∀ i j k u b r₁ r₂ r₃ r₄ r₅, isAssignable i s t r = .ok true r₁ → r₁.Since r₂ → r₂.Has u →
      isAssignable j t u r₂ = .ok true r₃ → r₃.Since r₄ → isAssignable k s u r₄ = .ok b r₅ →
      r₅.Proper → b = true := by
  have hf := h.founded
  refine ⟨?_, fun fuel ↦ isAssignable_self fuel s r, ?_⟩
  · obtain ⟨fuel, result, hsame, hanswered⟩ := hacyclic.ends_isAssignable hbounded t
    refine ⟨fuel, result, hsame, hanswered, fun hknown ↦ hknown.ok_of_answered hanswered, ?_⟩
    rintro b r' z rfl hz hp
    exact assignable_iff_of_isAssignable hf hs ht (hsame fuel le_rfl) hz.charts hp
  · intro i j k u b r₁ r₂ r₃ r₄ r₅ hst h₁₂ hu htu h₃₄ hsu hp
    have hr₁ : Charts r r₁ := (grows_isAssignable i s t).ok hst
    have hr₂ : Charts r r₂ := trans_of Charts hr₁ h₁₂.charts
    have hr₃ : Charts r₂ r₃ := (grows_isAssignable j t u).ok htu
    have hr₄ : Charts r₂ r₄ := trans_of Charts hr₃ h₃₄.charts
    have hr₅ : Charts r₄ r₅ := (grows_isAssignable k s u).ok hsu
    have hlast : Charts r₂ r₅ := trans_of Charts hr₄ hr₅
    -- all three answers are right of the registry in which the last question ends
    have hst' := (assignable_iff_of_isAssignable hf hs ht hst (trans_of Charts h₁₂.charts hlast)
      hp).mp rfl
    have htu' := (assignable_iff_of_isAssignable (hr₂.2 hf) (hr₂.1.has ht) hu htu
      (trans_of Charts h₃₄.charts hr₅) hp).mp rfl
    have hf₄ : r₄.Founded := (trans_of Charts hr₂ hr₄).2 hf
    exact (assignable_iff_of_isAssignable hf₄ ((trans_of Charts hr₂ hr₄).1.has hs) (hr₄.1.has hu)
      hsu (refl_of Charts r₅) hp).mpr (hst'.trans (hr₅.2 hf₄) hp htu')

/-! ### A module with interfaces -/

end Registry

/-- A module with interfaces `IShape`, `IRound`, which implements it, and `IRing`, which implements
`IRound`. -/
def Module.rounds : Module :=
  let flags : TypeFlags := ⟨false, true, true, false⟩
  .ofTypes "Rounds" #[⟨"", "IShape", flags, none, [], [], #[], #[]⟩,
    ⟨"", "IRound", flags, none, [.definition (typeToken 0)], [], #[], #[]⟩,
    ⟨"", "IRing", flags, none, [.definition (typeToken 1)], [], #[], #[]⟩]

namespace Registry

variable {r : Registry} {t u : TypeId}

/-- The registry that loading the module leaves, up to the meaning of names, which no search among
the interfaces asks for. -/
def ofRounds (names : Std.HashMap String TypeId) : Registry :=
  let home : Home := ⟨⟨0⟩, .rounds⟩
  { empty with
    types := #[⟨"IShape", .interpreted home (Module.typeToken 0), [], none⟩,
      ⟨"IRound", .interpreted home (Module.typeToken 1), [], none⟩,
      ⟨"IRing", .interpreted home (Module.typeToken 2), [], none⟩]
    names
    modules := #[.rounds]
    definitions :=
      ((({} : Std.HashMap Reference TypeId).insert ⟨⟨0⟩, Module.typeToken 0⟩ ⟨0⟩).insert
      ⟨⟨0⟩, Module.typeToken 1⟩ ⟨1⟩).insert ⟨⟨0⟩, Module.typeToken 2⟩ ⟨2⟩ }

/-- The names of the three types, in the order in which they come into use. -/
def roundNames : Std.HashMap String TypeId :=
  ((({} : Std.HashMap String TypeId).insertIfNew "IShape" ⟨0⟩).insertIfNew "IRound" ⟨1⟩).insertIfNew
    "IRing" ⟨2⟩

theorem loadModule_rounds : loadModule .rounds empty = .ok ⟨0⟩ (ofRounds roundNames) := by
  have hname (name : String) (h : (name.map fun c ↦ if c = '/' then '+' else c) = name)
      (implements : List Signature) :
      definitionName ⟨"", name, ⟨false, true, true, false⟩, none, implements, [], #[], #[]⟩ =
        name := h
  have hshape := hname "IShape" (by cbv) []
  have hround := hname "IRound" (by cbv) [.definition (Module.typeToken 0)]
  have hring := hname "IRing" (by cbv) [.definition (Module.typeToken 1)]
  simp [loadModule, addDefinitions, Module.rounds, Module.ofTypes, Module.empty, hshape, hround,
    hring, empty, addType, addName, ofRounds, roundNames, bind, EStateM.bind, get, getThe,
    MonadStateOf.get, EStateM.get, set, EStateM.set, modify, modifyGet, MonadStateOf.modifyGet,
    EStateM.modifyGet, pure, EStateM.pure]

/-- The registry after a type has been asked for what is above it. -/
def asked (t : TypeId) (r : Registry) : Registry :=
  endState (interfaces t) (endState (baseType t) r)

theorem Reached.asked (h : r.Reached) (t : TypeId) : (r.asked t).Reached :=
  (h.step (.baseType t)).step (.interfaces t)

/-- The registry after the three interfaces have been asked for what is above them. -/
def roundsAsked (names : Std.HashMap String TypeId) : Registry :=
  (((ofRounds names).asked ⟨0⟩).asked ⟨1⟩).asked ⟨2⟩

theorem reached_roundsAsked : (roundsAsked roundNames).Reached := by
  have hloaded : (ofRounds roundNames).Reached := by
    rw [← endState_ok loadModule_rounds]
    exact Reached.empty.step (.loadModule _)
  exact ((hloaded.asked ⟨0⟩).asked ⟨1⟩).asked ⟨2⟩

theorem facts_roundsAsked (names : Std.HashMap String TypeId) :
    (roundsAsked names).facts.bases =
      ((({} : Std.HashMap TypeId (Option TypeId)).insert ⟨0⟩ none).insert ⟨1⟩ none).insert ⟨2⟩
      none ∧
    (roundsAsked names).facts.interfaces =
      ((({} : Std.HashMap TypeId (List TypeId)).insert ⟨0⟩ []).insert ⟨1⟩ [⟨0⟩]).insert ⟨2⟩
      [⟨1⟩] := by
  constructor <;> cbv

theorem parent_roundsAsked {names : Std.HashMap String TypeId}
    (h : (roundsAsked names).Parent t u) : t = ⟨1⟩ ∧ u = ⟨0⟩ ∨ t = ⟨2⟩ ∧ u = ⟨1⟩ := by
  obtain ⟨hbases, hinterfaces⟩ := facts_roundsAsked names
  cases h with
  | base hb =>
    rw [hbases] at hb
    rcases getElem?_insert_cases hb with hb | ⟨-, hb⟩
    · rcases getElem?_insert_cases hb with hb | ⟨-, hb⟩
      · rcases getElem?_insert_cases hb with hb | ⟨-, hb⟩
        · cases Std.HashMap.getElem?_empty.symm.trans hb
        · cases hb
      · cases hb
    · cases hb
  | interface hf hu =>
    rw [hinterfaces] at hf
    rcases getElem?_insert_cases hf with hf | ⟨rfl, rfl⟩
    · rcases getElem?_insert_cases hf with hf | ⟨rfl, rfl⟩
      · rcases getElem?_insert_cases hf with hf | ⟨-, rfl⟩
        · cases Std.HashMap.getElem?_empty.symm.trans hf
        · cases hu
      · exact Or.inl ⟨rfl, List.mem_singleton.mp hu⟩
    · exact Or.inr ⟨rfl, List.mem_singleton.mp hu⟩

/-- Everything above `IRing` is known, and every step up leads to an earlier type. -/
theorem known_roundsAsked (names : Std.HashMap String TypeId) : (roundsAsked names).Known ⟨2⟩ ∧
    ∀ t, ¬Relation.TransGen (roundsAsked names).Parent t t := by
  have hfacts : ∀ t ∈ [(⟨0⟩ : TypeId), ⟨1⟩, ⟨2⟩],
      (∃ base, (roundsAsked names).facts.bases[t]? = some base) ∧
        ∃ found, (roundsAsked names).facts.interfaces[t]? = some found := by
    obtain ⟨hbases, hinterfaces⟩ := facts_roundsAsked names
    rw [hbases, hinterfaces]
    simp [Std.HashMap.getElem?_insert]
  constructor
  · intro t ht
    refine hfacts t ?_
    induction ht with
    | refl => decide
    | tail _ hedge _ => rcases parent_roundsAsked hedge with ⟨-, rfl⟩ | ⟨-, rfl⟩ <;> decide
  · intro t ht
    have hdown {u v : TypeId} (h : Relation.TransGen (roundsAsked names).Parent u v) :
        v.index < u.index := by
      induction h with
      | single hedge => rcases parent_roundsAsked hedge with ⟨rfl, rfl⟩ | ⟨rfl, rfl⟩ <;> decide
      | tail _ hedge ih =>
        refine lt_trans ?_ ih
        rcases parent_roundsAsked hedge with ⟨rfl, rfl⟩ | ⟨rfl, rfl⟩ <;> decide
    exact lt_irrefl _ (hdown ht)

/-- The three shapes have one above the other, and nothing is above the last one. -/
theorem isAssignable_iff_assignable_rounds : (roundsAsked roundNames).Reached ∧
    (roundsAsked roundNames).Has ⟨2⟩ ∧ (roundsAsked roundNames).Has ⟨0⟩ ∧
    (roundsAsked roundNames).AcyclicAbove ⟨2⟩ ∧ (roundsAsked roundNames).BoundedAbove ⟨2⟩ ∧
    ∃ fuel r', (∀ more, fuel ≤ more →
        isAssignable more ⟨2⟩ ⟨0⟩ (roundsAsked roundNames) = .ok true r') ∧
      ∀ z, r'.Since z → z.Proper → z.Assignable ⟨2⟩ ⟨0⟩ := by
  have hsize (names) : (roundsAsked names).types.size = 3 := by cbv
  have hhas (t : TypeId) (h : t.index < 3) : (roundsAsked roundNames).Has t := by
    rw [Has, hsize]
    exact h
  have hring := hhas ⟨2⟩ (by decide)
  have hshape := hhas ⟨0⟩ (by decide)
  obtain ⟨hknown, hacyclic⟩ := known_roundsAsked roundNames
  have habove := hknown.acyclicAbove fun t _ ↦ hacyclic t
  have hbounded := hknown.boundedAbove reached_roundsAsked.founded
  obtain ⟨⟨fuel, result, hsame, -, hok, hright⟩, -⟩ :=
    isAssignable_iff_assignable reached_roundsAsked hring hshape habove hbounded
  obtain ⟨b, r', rfl⟩ := hok hknown
  have hanswer (names) : answer (isAssignable (fuel + 3) ⟨2⟩ ⟨0⟩) (roundsAsked names) =
      .ok true := by
    cbv
  have hb := answer_ok (hsame (fuel + 3) (Nat.le_add_right fuel 3))
  obtain rfl : b = true := Except.ok.inj (hb.symm.trans (hanswer roundNames))
  exact ⟨reached_roundsAsked, hring, hshape, habove, hbounded, fuel, r', hsame,
    fun z hz hp ↦ (hright true r' z rfl hz hp).mp rfl⟩

end Registry

/-! ### A hierarchy without a top -/

/-- A module with a generic class `G<T>` that derives from `G<G<T>>`. -/
def Module.tower : Module := .ofTypes "Tower" #[⟨"", "G", .none, some .turn, [], ["T"], #[], #[]⟩]

namespace Registry

variable {r z : Registry} {s t u : TypeId} {n k : Nat}

/-- Each instantiation derives from the next, as far as the instantiations have been followed, and
declares no interfaces. -/
structure Tower (r : Registry) (n : Nat) : Prop extends Turned .tower r n where
  bases : ∀ k, r.facts.bases[TypeId.mk k]? = if 0 < k ∧ k ≤ n then some (some ⟨k + 1⟩) else none
  interfaces : ∀ (t : TypeId) found, r.facts.interfaces[t]? = some found → found = []

/-- The registry after the last instantiation was asked for its base type. -/
def raised (r : Registry) (n : Nat) : Registry :=
  let next := withTurn .tower r n
  { next with facts := { next.facts with bases := next.facts.bases.insert ⟨n + 1⟩ (some ⟨n + 2⟩) } }

/-- The name starts with another letter than the one of the object type. -/
theorem turnName_ne_objectName (k : Nat) : turnName k ≠ CoreLibrary.objectName := by
  intro h
  have hfirst := congrArg (fun name ↦ name.toList.head?) h
  cases k <;> simp [turnName, CoreLibrary.objectName] at hfirst

namespace Tower

theorem baseType_of_known (h : r.Tower n) (hk : k < n) :
    baseType ⟨k + 1⟩ r = .ok (some ⟨k + 2⟩) r := by
  refine Registry.baseType_of_known ((h.bases (k + 1)).trans ?_)
  rw [if_pos ⟨Nat.succ_pos k, hk⟩]

theorem baseType_last (h : r.Tower n) : baseType ⟨n + 1⟩ r = .ok (some ⟨n + 2⟩) (raised r n) := by
  have hnew : r.facts.bases[TypeId.mk (n + 1)]? = none := by
    rw [h.bases, if_neg fun hn ↦ Nat.not_succ_le_self n hn.2]
  have hfind : findBase ⟨n + 1⟩ (turnOf .tower n) r = .ok (some ⟨n + 2⟩) (withTurn .tower r n) := by
    have hbase : resolveType ⟨0⟩ (.ofType ⟨n + 1⟩) .turn r = .ok ⟨n + 2⟩ (withTurn .tower r n) :=
      bind_of_ok (h.resolveSignature_turn [])
    exact (bind_of_ok hbase).trans rfl
  rw [baseType_of_new hnew, h.type_succ le_rfl]
  exact (bind_of_ok hfind).trans rfl

/-- One step up the tower is a tower again, one storey higher. All that the class mentions then is
the next larger instantiation, which is new. -/
theorem raised (h : r.Tower n) : (raised r n).Tower (n + 1) where
  toTurned := h.toTurned.withTurn.of_eq rfl rfl rfl
  bases k := by
    show (r.facts.bases.insert _ _)[TypeId.mk k]? = _
    by_cases heq : TypeId.mk (n + 1) = ⟨k⟩
    · cases heq
      rw [Std.HashMap.getElem?_insert_self, if_pos ⟨Nat.succ_pos n, le_rfl⟩]
    · have hk : n + 1 ≠ k := fun hk ↦ heq (congrArg TypeId.mk hk)
      rw [getElem?_insert_of_ne heq, h.bases]
      refine if_congr ?_ rfl rfl
      omega
  interfaces := h.interfaces

/-- Asking for interfaces finds none. -/
theorem interfaces_eq (h : r.Tower n) (hk : k ≤ n) :
    ∃ r', Registry.interfaces ⟨k + 1⟩ r = .ok [] r' ∧ r'.Tower n := by
  cases hknown : r.facts.interfaces[TypeId.mk (k + 1)]? with
  | some found =>
    cases h.interfaces _ _ hknown
    exact ⟨r, interfaces_of_known hknown, h⟩
  | none =>
    have hfind : findInterfaces ⟨k + 1⟩ (turnOf .tower k) r = .ok [] r := rfl
    refine ⟨{ r with facts :=
      { r.facts with interfaces := r.facts.interfaces.insert ⟨k + 1⟩ [] } }, ?_,
      h.toTurned.of_eq rfl rfl rfl, h.bases, fun t found hfound ↦ ?_⟩
    · rw [interfaces_of_new hknown, h.type_succ hk]
      exact (bind_of_ok hfind).trans rfl
    · rcases getElem?_insert_cases hfound with hold | ⟨-, rfl⟩
      · exact h.interfaces t found hold
      · rfl

/-- A step up leads from an instantiation to the next. -/
theorem of_parent (h : r.Tower n) (hp : r.Parent t u) :
    ∃ k < n, t = ⟨k + 1⟩ ∧ u = ⟨k + 2⟩ := by
  cases hp with
  | base hb =>
    rw [h.bases t.index] at hb
    split at hb
    · next hk =>
      obtain ⟨k⟩ := t
      obtain ⟨k, rfl⟩ := Nat.exists_eq_add_one_of_ne_zero hk.1.ne'
      cases hb
      exact ⟨k, hk.2, rfl, rfl⟩
    · cases hb
  | interface hf hu =>
    cases h.interfaces _ _ hf
    cases hu

theorem of_derives (h : r.Tower n) (hd : r.Derives ⟨1⟩ t) : ∃ k ≤ n, t = ⟨k + 1⟩ := by
  rcases hd.cases_tail with rfl | ⟨u, -, hedge⟩
  · exact ⟨0, Nat.zero_le n, rfl⟩
  · obtain ⟨k, hk, -, rfl⟩ := h.of_parent hedge
    exact ⟨k + 1, hk, rfl⟩

/-- Whatever is found out above the first instantiation, the tower stays one. -/
theorem explores (h : r.Tower n) (hz : r.Explores ⟨1⟩ z) : ∃ m, z.Tower m := by
  induction hz with
  | refl => exact ⟨n, h⟩
  | base _ ht hx ih =>
    obtain ⟨m, hm⟩ := ih
    obtain ⟨k, hk, rfl⟩ := hm.of_derives ht
    rcases Nat.lt_or_eq_of_le hk with hk | rfl
    · cases (hm.baseType_of_known hk).symm.trans hx
      exact ⟨m, hm⟩
    · cases hm.baseType_last.symm.trans hx
      exact ⟨k + 1, hm.raised⟩
  | interfaces _ ht hx ih =>
    obtain ⟨m, hm⟩ := ih
    obtain ⟨k, hk, rfl⟩ := hm.of_derives ht
    obtain ⟨z', heq, hz'⟩ := hm.interfaces_eq hk
    cases heq.symm.trans hx
    exact ⟨m, hz'⟩

theorem index_lt (h : r.Tower n) (hclimb : Relation.TransGen r.Parent t u) : t.index < u.index := by
  induction hclimb with
  | single hedge =>
    obtain ⟨k, -, rfl, rfl⟩ := h.of_parent hedge
    exact Nat.lt_succ_self _
  | tail _ hedge ih =>
    obtain ⟨k, -, rfl, rfl⟩ := h.of_parent hedge
    exact Nat.lt_succ_of_lt ih

theorem acyclicAbove (h : r.Tower n) : r.AcyclicAbove ⟨1⟩ := by
  intro z hz t _ hcycle
  obtain ⟨m, hm⟩ := h.explores hz
  exact lt_irrefl _ (hm.index_lt hcycle)

theorem proper (h : r.Tower n) : r.Proper where
  interfaces t found u hf hu := by
    cases h.interfaces _ _ hf
    cases hu
  baseless t u hinterface hb := by
    obtain ⟨k, hk, rfl, -⟩ := h.of_parent (.base hb)
    rw [h.type_succ hk.le] at hinterface
    cases hinterface
  object t u hname hp := by
    obtain ⟨k, hk, rfl, -⟩ := h.of_parent hp
    rw [h.typeName_eq (by omega)] at hname
    exact turnName_ne_objectName _ hname

/-- The search for the open class goes on to the next instantiation, until the bound is reached. -/
theorem endless : (fuel : Nat) → {r : Registry} → {n : Nat} → r.Tower n →
    ∃ r', reaches ⟨0⟩ fuel ⟨n + 1⟩ r = .error .outOfFuel r'
  | 0, r, _, _ => ⟨r, rfl⟩
  | fuel + 1, r, n, h => by
    obtain ⟨r', hnext⟩ := endless fuel h.raised
    have hne : TypeId.mk (n + 1) ≠ ⟨0⟩ := fun heq ↦ Nat.succ_ne_zero n (congrArg TypeId.index heq)
    have hclass : (openTurn .tower).isInterface = false := rfl
    have hthrough : reachesThrough ⟨0⟩ (reaches ⟨0⟩ fuel) ⟨n + 1⟩ r = .ok false r := by
      rw [reachesThrough, ask_bind, h.type_zero, hclass]
      rfl
    have habove : reachesAbove (reaches ⟨0⟩ fuel) ⟨n + 1⟩ r = .error .outOfFuel r' :=
      (bind_of_ok h.baseType_last).trans hnext
    refine ⟨r', ?_⟩
    rw [reaches_of_ne hne]
    exact (bind_of_ok hthrough).trans habove

end Tower

theorem generics_tower : (openTurn .tower).generics = ["T"] := by cbv

theorem tower_start : (turnsNamed .tower).Tower 0 where
  toTurned := turned_turnsNamed generics_tower
  bases k := by
    have hnone : ¬(0 < k ∧ k ≤ 0) := fun hk ↦ Nat.not_succ_le_zero _ (hk.1.trans_le hk.2)
    rw [if_neg hnone]
    exact Std.HashMap.getElem?_empty
  interfaces t found hf := by cases Std.HashMap.getElem?_empty.symm.trans hf

theorem reached_tower : (turnsNamed .tower).Reached := by
  have hname : definitionName ⟨"", "G", .none, some .turn, [], ["T"], #[], #[]⟩ = "G" := by cbv
  have hloaded : (ofTurns .tower).Reached := by
    rw [← endState_ok (loadModule_turns rfl hname rfl)]
    exact Reached.empty.step (.loadModule _)
  rw [← endState_ok (resolve_turns generics_tower)]
  exact hloaded.step (.resolve _)

/-- Without a bound on the types above, no cycle is needed for a question that is never answered. A
class that derives from ever larger instantiations of itself is enough. -/
theorem isAssignable_endless : ¬∀ (r : Registry) (s t : TypeId), r.Reached → r.Has s → r.Has t →
    r.AcyclicAbove s → (∀ z, r.Explores s z → z.Proper) →
    ∃ fuel, ∀ r', isAssignable fuel s t r ≠ .error .outOfFuel r' := by
  intro h
  have hsize : (turnsNamed .tower).types.size = 2 := rfl
  have hproper : ∀ z, (turnsNamed .tower).Explores ⟨1⟩ z → z.Proper := by
    intro z hz
    obtain ⟨m, hm⟩ := tower_start.explores hz
    exact hm.proper
  obtain ⟨fuel, hends⟩ := h (turnsNamed .tower) ⟨1⟩ ⟨0⟩ reached_tower
    (by rw [Has, hsize]; decide) (by rw [Has, hsize]; decide) tower_start.acyclicAbove hproper
  obtain ⟨r', hendless⟩ := Tower.endless fuel tower_start
  have hobject : (turnsNamed .tower).typeName ⟨0⟩ ≠ CoreLibrary.objectName := by
    rw [tower_start.typeName_eq (Nat.zero_le _)]
    exact turnName_ne_objectName 0
  exact hends r' ((isAssignable_of_ne (by decide) hobject).trans hendless)

end Registry

end ManagedMachine
