import ManagedMachine.Proofs.Edits
import ManagedMachine.Proofs.Looking

/-!
# Code as a sequence of edits

`Spec R x v post` says that running `x` on the view `v` comes down to edits of the kind `R`, also
when it fails, and that a result satisfies `post` together with the view that the edits lead to. The
rules here follow the monad: a function of the engine gets one lemma, built from the lemmas of the
functions that it calls, and no caller opens it again.
-/

set_option autoImplicit false
set_option relaxedAutoImplicit false

namespace ManagedMachine

open Engine

/-- Running `x` amounts to edits of the kind `R`. -/
def Spec {α : Type} (R : View → View → Prop) (x : RunM α) (v : View) (post : α → View → Prop) :
    Prop :=
  match x v.run with
  | .ok a r => ∃ v', v'.run = r ∧ Relation.ReflTransGen R v v' ∧ post a v'
  | .error _ r => ∃ v', v'.run = r ∧ Relation.ReflTransGen R v v'

/-- A kind of edits that has the quiet ones among them. -/
class Quieter (S : outParam Scope) (R : View → View → Prop) : Prop where
  quiet {v v' : View} : Quiet S v v' → R v v'

instance (S : Scope) : Quieter S (Quiet S) := ⟨id⟩

instance (S : Scope) : Quieter S (Build S) := ⟨.quiet⟩

instance (S : Scope) : Quieter S (Edit S) := ⟨fun h ↦ .build (.quiet h)⟩

/-- A kind of edits that has allocations among them. -/
class Builder (S : outParam Scope) (R : View → View → Prop) : Prop where
  build {v v' : View} : Build S v v' → R v v'

instance (S : Scope) : Builder S (Build S) := ⟨id⟩

instance (S : Scope) : Builder S (Edit S) := ⟨.build⟩

namespace Spec

variable {α β γ : Type} {R : View → View → Prop} {S : Scope} {v : View}
variable {x : RunM α} {f : α → RunM β} {mid : α → View → Prop} {post : β → View → Prop}

theorem of_ok {a : α} {w : View} (h : x v.run = .ok a w.run) (hR : Relation.ReflTransGen R v w)
    (hpost : mid a w) : Spec R x v mid := by
  simp only [Spec, h]
  exact ⟨w, rfl, hR, hpost⟩

theorem of_error {e : Error} {w : View} (h : x v.run = .error e w.run)
    (hR : Relation.ReflTransGen R v w) : Spec R x v mid := by
  simp only [Spec, h]
  exact ⟨w, rfl, hR⟩

theorem ok (h : Spec R x v mid) {a : α} {r : Running} (hx : x v.run = .ok a r) :
    ∃ v', v'.run = r ∧ Relation.ReflTransGen R v v' ∧ mid a v' := by
  simpa only [Spec, hx] using h

theorem error (h : Spec R x v mid) {e : Error} {r : Running} (hx : x v.run = .error e r) :
    ∃ v', v'.run = r ∧ Relation.ReflTransGen R v v' := by
  simpa only [Spec, hx] using h

/-- Wherever code ends, it got there by edits. -/
theorem ends (h : Spec R x v mid) :
    ∃ v', v'.run = endState x v.run ∧ Relation.ReflTransGen R v v' := by
  cases hx : x v.run with
  | ok a r =>
    obtain ⟨v', hrun, hR, -⟩ := h.ok hx
    exact ⟨v', by rw [hrun, endState_ok hx], hR⟩
  | error e r =>
    obtain ⟨v', hrun, hR⟩ := h.error hx
    exact ⟨v', by rw [hrun, endState_error hx], hR⟩

/-! ### Composition -/

/-- What is known of the result may be said in weaker terms, using that edits have led there. -/
theorem imp {mid' : α → View → Prop} (h : Spec R x v mid)
    (himp : ∀ a v', Relation.ReflTransGen R v v' → mid a v' → mid' a v') : Spec R x v mid' := by
  cases hx : x v.run with
  | ok a r =>
    obtain ⟨v', rfl, hR, hmid⟩ := h.ok hx
    exact of_ok hx hR (himp a v' hR hmid)
  | error e r =>
    obtain ⟨v', rfl, hR⟩ := h.error hx
    exact of_error hx hR

/-- Edits of one kind are edits of a wider one. -/
theorem mono {R' : View → View → Prop} (h : Spec R x v mid) (hRR' : ∀ v v', R v v' → R' v v') :
    Spec R' x v fun a v' ↦ Relation.ReflTransGen R v v' ∧ mid a v' := by
  cases hx : x v.run with
  | ok a r =>
    obtain ⟨v', rfl, hR, hmid⟩ := h.ok hx
    exact of_ok hx (Relation.ReflTransGen.mono hRR' _ _ hR) ⟨hR, hmid⟩
  | error e r =>
    obtain ⟨v', rfl, hR⟩ := h.error hx
    exact of_error hx (Relation.ReflTransGen.mono hRR' _ _ hR)

/-- Some edits lead to where the rest of the code begins. -/
theorem goOn {y : RunM α} {w : View} (hR : Relation.ReflTransGen R v w) (hxy : x v.run = y w.run)
    (h : Spec R y w mid) : Spec R x v mid := by
  cases hy : y w.run with
  | ok a r =>
    obtain ⟨w', rfl, hR', hmid⟩ := h.ok hy
    exact of_ok (hxy.trans hy) (hR.trans hR') hmid
  | error e r =>
    obtain ⟨w', rfl, hR'⟩ := h.error hy
    exact of_error (hxy.trans hy) (hR.trans hR')

/-- Edits that leave the machine as it is only change what is known. -/
theorem after {w : View} (hR : Relation.ReflTransGen R v w) (hrun : w.run = v.run)
    (h : Spec R x w mid) : Spec R x v mid :=
  goOn hR (by rw [hrun]) h

theorem pure {a : α} (h : mid a v) : Spec R (pure a) v mid := of_ok (w := v) rfl .refl h

theorem throw (e : Error) : Spec R (throw e) v mid := of_error (w := v) rfl .refl

/-- The second part starts on the view that the edits of the first have led to. -/
theorem bind (hx : Spec R x v mid)
    (hf : ∀ a v', Relation.ReflTransGen R v v' → mid a v' → Spec R (f a) v' post) :
    Spec R (x >>= f) v post := by
  cases h : x v.run with
  | ok a r =>
    obtain ⟨v', rfl, hR, hmid⟩ := hx.ok h
    have hbind : (x >>= f) v.run = f a v'.run := by
      change EStateM.bind x f v.run = _
      rw [EStateM.bind, h]
    have hrest := hf a v' hR hmid
    cases ha : f a v'.run with
    | ok b r =>
      obtain ⟨v'', rfl, hR', hpost⟩ := hrest.ok ha
      exact of_ok (hbind.trans ha) (hR.trans hR') hpost
    | error e r =>
      obtain ⟨v'', rfl, hR'⟩ := hrest.error ha
      exact of_error (hbind.trans ha) (hR.trans hR')
  | error e r =>
    obtain ⟨v', rfl, hR⟩ := hx.error h
    refine of_error (e := e) ?_ hR
    change EStateM.bind x f v.run = _
    rw [EStateM.bind, h]

theorem pure_bind {a : α} (hf : Spec R (f a) v post) : Spec R (Pure.pure a >>= f) v post := hf

/-- What follows a quiet part finds both ends of the stack where they were. -/
theorem quietly [Quieter S R] (hx : Spec (Quiet S) x v mid)
    (hf : ∀ a v', v.Level v' → mid a v' → Spec R (f a) v' post) : Spec R (x >>= f) v post :=
  (hx.mono fun _ _ ↦ Quieter.quiet).bind fun a v' _ h ↦ hf a v' (Quiets.level h.1) h.2

theorem of_quiet {mid' : α → View → Prop} [Quieter S R] (hx : Spec (Quiet S) x v mid)
    (himp : ∀ a v', v.Level v' → mid a v' → mid' a v') : Spec R x v mid' :=
  (hx.mono fun _ _ ↦ Quieter.quiet).imp fun a v' _ h ↦ himp a v' (Quiets.level h.1) h.2

theorem building [Builder S R] (hx : Spec (Build S) x v mid)
    (hf : ∀ a v', v.Raised v' → mid a v' → Spec R (f a) v' post) : Spec R (x >>= f) v post :=
  (hx.mono fun _ _ ↦ Builder.build).bind fun a v' _ h ↦ hf a v' (Builds.raised h.1) h.2

theorem of_build {mid' : α → View → Prop} [Builder S R] (hx : Spec (Build S) x v mid)
    (himp : ∀ a v', v.Raised v' → mid a v' → mid' a v') : Spec R x v mid' :=
  (hx.mono fun _ _ ↦ Builder.build).imp fun a v' _ h ↦ himp a v' (Builds.raised h.1) h.2

theorem trivially (h : Spec R x v mid) : Spec R x v fun _ _ ↦ True := h.imp fun _ _ _ _ ↦ trivial

/-- By recursion on the list, with an invariant of the views. -/
theorem forM {I : View → Prop} {g : γ → RunM PUnit} : (cs : List γ) → {v : View} →
    (∀ c ∈ cs, ∀ v', Relation.ReflTransGen R v v' → I v' → Spec R (g c) v' fun _ ↦ I) → I v →
      Spec R (cs.forM g) v fun _ ↦ I
  | [], _, _, hv => Spec.pure hv
  | c :: cs, v, h, hv => by
    refine (h c List.mem_cons_self v .refl hv).bind fun _ v' hR hv' ↦ ?_
    exact forM cs (fun c hc v'' hR' ↦ h c (List.mem_cons_of_mem _ hc) v'' (hR.trans hR')) hv'

/-! ### Looking -/

/-- Code that only looks leaves the machine as it is. -/
theorem looking {a : α} (hx : x v.run = .ok a v.run) (hf : Spec R (f a) v post) :
    Spec R (x >>= f) v post :=
  bind (of_ok hx .refl ⟨rfl, rfl⟩ : Spec R x v fun b v' ↦ b = a ∧ v' = v) fun _ _ _ h ↦
    h.1 ▸ h.2 ▸ hf

theorem failing {e : Error} (hx : x v.run = .error e v.run) : Spec R (x >>= f) v post := by
  refine of_error (e := e) (w := v) ?_ .refl
  change EStateM.bind x f v.run = _
  rw [EStateM.bind, hx]

theorem read_ok {query : Stack → Except Error α} {r : Running} {a : α}
    (h : query r.stack = .ok a) : Engine.read query r = .ok a r := by
  rw [Engine.read, h]

theorem read_error {query : Stack → Except Error α} {r : Running} {e : Error}
    (h : query r.stack = .error e) : Engine.read query r = .error e r := by
  rw [Engine.read, h]

theorem read {query : Stack → Except Error α}
    (hf : ∀ a, query v.stack = .ok a → Spec R (f a) v post) :
    Spec R (Engine.read query >>= f) v post := by
  cases h : query v.stack with
  | ok a => exact looking (read_ok h) (hf a h)
  | error e => exact failing (read_error h)

theorem ofExcept {y : Except Error α} (hf : ∀ a, y = .ok a → Spec R (f a) v post) :
    Spec R (Engine.ofExcept y >>= f) v post := by
  cases y with
  | ok a => exact hf a rfl
  | error e => exact of_error (w := v) rfl .refl

theorem askDomain {query : Domain → α} (hf : Spec R (f (query v.domain)) v post) :
    Spec R (Running.onDomain (Domain.ask query) >>= f) v post := looking rfl hf

/-- Code that only looks extends the domain and edits nothing. -/
theorem looks [Quieter S R] (hx : Looks x) :
    Spec R x v fun a v' ↦ ∃ d, x v.run = .ok a (v.withDomain d).run ∧ v.domain.Extends d ∧
      v' = v.withDomain d := by
  have hend (r : Running) (h : v.run.Later r) : (v.withDomain r.domain).run = r := by
    cases r
    cases h.interpreter
    rfl
  cases h : x v.run with
  | ok a r =>
    have hlater := hx.ok h
    refine of_ok (w := v.withDomain r.domain) (h.trans (by rw [hend r hlater]))
      (.single (Quieter.quiet (.domain hlater.domain)))
      ⟨_, by rw [hend r hlater], hlater.domain, rfl⟩
  | error e r =>
    have hlater := hx.error h
    exact of_error (w := v.withDomain r.domain) (h.trans (by rw [hend r hlater]))
      (.single (Quieter.quiet (.domain hlater.domain)))

/-- What follows code that only looks finds the domain grown at most. -/
theorem look [Quieter S R] (hx : Looks x)
    (hf : ∀ a d, v.domain.Extends d → x v.run = .ok a (v.withDomain d).run →
      Spec R (f a) (v.withDomain d) post) : Spec R (x >>= f) v post :=
  (looks hx).bind fun a _ _ ⟨d, hrun, hd, hv⟩ ↦ hv ▸ hf a d hd hrun

end Spec

end ManagedMachine
