import ManagedMachine.Engine.Run
import ManagedMachine.Proofs.BlockSpecs
import ManagedMachine.Proofs.Succeeding
import ManagedMachine.Proofs.TwinStacks

/-!
# Code that looks at twins

Machines are twins when they agree on everything but the slots of their stacks, and their stacks are
twins. Code that only looks goes the same way in both: it finds the same, and what it does to the
domain is the same (`Sees`). It finds out addresses only from slots that lead to the set on which
the stacks agree, so what it finds leads to that set again.

Host code may write slots of its own making to the fields of a receiver. Nothing is known of an
address in such a slot unless the code was handed it before: `Program.Honest`.

The rules for `Sees` follow the monad and hand on what is known of the values (`Sees.bind`), as code
that looks has to keep track of which slots lead to the set. With them each function that looks is a
lemma of its own (`sees_readValue`, `sees_targetOf`), by recursion where it is recursive.
-/

set_option autoImplicit false
set_option relaxedAutoImplicit false

namespace ManagedMachine

open Engine

variable {α β γ : Type}

/-! ### Honest host code -/

/-- The addresses in the slots that an answer hands over. -/
def FrameRequest.handed : (q : FrameRequest) → Except Error q.Answer → Set Nat
  | .argumentSlot _, .ok s => {a | a ∈ s.target?}
  | .valueFields _, .ok slots => {a | ∃ s ∈ slots, a ∈ s.target?}
  | .thisFields, .ok slots => {a | ∃ s ∈ slots, a ∈ s.target?}
  | _, _ => ∅

/-- Slots that are written lead to addresses of the set only. -/
def FrameRequest.Honest (H : Set Nat) : FrameRequest → Prop
  | .setThisFields slots => ∀ s ∈ slots, s.Shown H
  | _ => True

/-- Host code that writes no address but those that it was handed. -/
def Program.Honest : Set Nat → FrameProgram α → Prop
  | _, .done _ => True
  | _, .fail _ => True
  | H, .ask q next => q.Honest H ∧ ∀ answer, Honest (H ∪ q.handed answer) (next answer)

/-- All redirections are honest. -/
def Bindings.Honest (b : Bindings) : Prop :=
  ∀ (key : String) (code : Redirection), b.redirection? key = some code →
  ∀ site, (code site).Honest ∅

/-! ### Twins -/

/-- The machines differ in slots only to which nothing leads. -/
structure Running.Twin (g : Guard) (K : Set Nat) (r r' : Running) : Prop where
  domain : r'.domain = r.domain
  id : r'.interpreter.id = r.interpreter.id
  frames : r'.interpreter.frames = r.interpreter.frames
  stack : Stack.Twin r.domain.fieldCount? g K r.stack r'.stack
  honest : r.domain.bindings.Honest

/-- What a location holds leads to the set. -/
def Carry.Leads (K : Set Nat) : Carry → Prop
  | .slot s => s.Shown K
  | .block d => d ∈ K
  | _ => True

/-- The block that was found, if it is one, is in the set. -/
def Target.Leads (K : Set Nat) : Target → Prop
  | .block d => d ∈ K
  | _ => True

theorem Carry.Leads.mono {K K' : Set Nat} {c : Carry} (h : c.Leads K) (hK : K ⊆ K') :
    c.Leads K' := by
  cases c with
  | slot s => exact Slot.Shown.mono h hK
  | block d => exact hK h
  | _ => trivial

/-- The arguments and the locals of the frame lie in the set. -/
structure Frame.Within (f : Frame) (K : Set Nat) : Prop where
  arg {i : Nat} : i < f.argCount → f.argBase + i ∈ K
  loc {i : Nat} : i < f.localCount → f.localBase + i ∈ K

theorem Frame.Within.mono {f : Frame} {K K' : Set Nat} (h : f.Within K) (hK : K ⊆ K') :
    f.Within K' := ⟨fun hi ↦ hK (h.arg hi), fun hi ↦ hK (h.loc hi)⟩

namespace Running.Twin

variable {g : Guard} {K : Set Nat} {r r' : Running}

theorem withDomain (h : Running.Twin g K r r') {d : Domain} (hd : r.domain.Extends d) :
    Running.Twin g K (r.withDomain d) (r'.withDomain d) where
  domain := rfl
  id := h.id
  frames := h.frames
  stack := { h.stack with sized := fun hd' hheader ↦ hd.fieldCount? (h.stack.sized hd' hheader) }
  honest := hd.bindings ▸ h.honest

theorem same (h : Running.Twin g K r r') : r'.withDomain r.domain = r' := by
  rw [← h.domain]
  rfl

end Running.Twin

/-! ### Code that only looks -/

/-- Both runs end alike, in the same domain and with their interpreters as they were. -/
def Sees (x : RunM α) (r r' : Running) (post : α → Prop) : Prop :=
  Agreed (fun a t t' ↦ ∃ d, r.domain.Extends d ∧ t = r.withDomain d ∧ t' = r'.withDomain d ∧ post a)
    (fun t t' ↦ ∃ d, r.domain.Extends d ∧ t = r.withDomain d ∧ t' = r'.withDomain d) (x r) (x r')

namespace Sees

variable {g : Guard} {K : Set Nat} {r r' : Running} {x : RunM α} {f : α → RunM β} {a : α}
  {mid : α → Prop} {post : β → Prop}

theorem pure {P : α → Prop} (h : Running.Twin g K r r') (ha : P a) :
    Sees (Pure.pure a) r r' P := .ok ⟨r.domain, .refl _, rfl, h.same.symm, ha⟩

theorem throw {mid : α → Prop} (h : Running.Twin g K r r') (e : Error) :
    Sees (MonadExcept.throw e : RunM α) r r' mid := .error ⟨r.domain, .refl _, rfl, h.same.symm⟩

theorem imp {mid' : α → Prop} (hx : Sees x r r' mid) (himp : ∀ a, mid a → mid' a) :
    Sees x r r' mid' :=
  Agreed.imp hx (fun a _ _ ⟨d, hd, ht, ht', ha⟩ ↦ ⟨d, hd, ht, ht', himp a ha⟩) fun _ _ h ↦ h

/-- The second part looks at twins again, with the same domain. -/
theorem bind (h : Running.Twin g K r r') (hx : Sees x r r' mid)
    (hf : ∀ a d, Running.Twin g K (r.withDomain d) (r'.withDomain d) → mid a →
      Sees (f a) (r.withDomain d) (r'.withDomain d) post) :
    Sees (x >>= f) r r' post := by
  unfold Sees at hx
  generalize hr : x r = s, hr' : x r' = s' at hx
  cases hx with
  | ok hx =>
    obtain ⟨d, hd, rfl, rfl, ha⟩ := hx
    rw [Sees, bind_of_ok hr, bind_of_ok hr']
    exact Agreed.imp (hf _ d (h.withDomain hd) ha)
      (fun b _ _ ⟨d', hd', ht, ht', hb⟩ ↦ ⟨d', hd.trans hd', ht, ht', hb⟩)
      fun _ _ ⟨d', hd', ht, ht'⟩ ↦ ⟨d', hd.trans hd', ht, ht'⟩
  | error hx =>
    rw [Sees, bind_of_error hr, bind_of_error hr']
    exact .error hx

/-- What has no effect gives the same result in both. -/
theorem look (hx : x r = .ok a r) (hx' : x r' = .ok a r') (hf : Sees (f a) r r' post) :
    Sees (x >>= f) r r' post := by
  rw [Sees, bind_of_ok hx, bind_of_ok hx']
  exact hf

theorem of_read (h : Running.Twin g K r r') {query : Stack → Except Error α}
    (hq : query r'.stack = query r.stack) :
    Sees (Engine.read query) r r' fun a ↦ query r.stack = .ok a := by
  unfold Sees Engine.read
  rw [hq]
  cases query r.stack with
  | ok a => exact .ok ⟨r.domain, .refl _, rfl, h.same.symm, rfl⟩
  | error e => exact .error ⟨r.domain, .refl _, rfl, h.same.symm⟩

theorem read (h : Running.Twin g K r r') {query : Stack → Except Error α}
    (hq : query r'.stack = query r.stack)
    (hf : ∀ a, query r.stack = .ok a → Sees (f a) r r' post) :
    Sees (Engine.read query >>= f) r r' post := by
  cases hquery : query r.stack with
  | ok a =>
    exact look (by rw [Engine.read, hquery]) (by rw [Engine.read, hq, hquery]) (hf a hquery)
  | error e =>
    have hr : Engine.read query r = .error e r := by rw [Engine.read, hquery]
    have hr' : Engine.read query r' = .error e r' := by rw [Engine.read, hq, hquery]
    rw [Sees, bind_of_error hr, bind_of_error hr']
    exact throw h e

theorem domain_of (h : Running.Twin g K r r') {x : DomainM α} (hx : Domain.Grows x)
    (hmid : ∀ a d, x r.domain = .ok a d → mid a) : Sees (Running.onDomain x) r r' mid := by
  unfold Sees
  cases hrun : x r.domain with
  | ok a d =>
    rw [Running.onDomain_ok hrun, Running.onDomain_ok (h.domain ▸ hrun)]
    exact .ok ⟨d, hx.ok hrun, rfl, rfl, hmid a d hrun⟩
  | error e d =>
    rw [Running.onDomain_error hrun, Running.onDomain_error (h.domain ▸ hrun)]
    exact .error ⟨d, hx.error hrun, rfl, rfl⟩

theorem domain (h : Running.Twin g K r r') {x : DomainM α} (hx : Domain.Grows x) :
    Sees (Running.onDomain x) r r' fun _ ↦ True := domain_of h hx fun _ _ _ ↦ trivial

theorem registry (h : Running.Twin g K r r') {x : RegistryM α} (hx : Registry.Grows x) :
    Sees (Running.onDomain (Domain.inRegistry x)) r r' fun _ ↦ True :=
  domain h (Domain.grows_inRegistry hx)

theorem askDomain (h : Running.Twin g K r r') (query : Domain → α) :
    Sees (Running.onDomain (Domain.ask query)) r r' fun a ↦ a = query r.domain := by
  have hrun : Domain.ask query r.domain = .ok (query r.domain) r.domain := rfl
  have hrun' : Domain.ask query r'.domain = .ok (query r.domain) r.domain := h.domain.symm ▸ rfl
  unfold Sees
  rw [Running.onDomain_ok hrun, Running.onDomain_ok hrun']
  exact .ok ⟨r.domain, .refl _, rfl, rfl, rfl⟩

theorem descriptor (h : Running.Twin g K r r') (t : TypeId) :
    Sees (Engine.descriptor t) r r' fun d ↦ d = r.domain.registry.type t := by
  unfold Sees Engine.descriptor
  rw [h.domain]
  exact .ok ⟨r.domain, .refl _, rfl, h.same.symm, rfl⟩

theorem method (h : Running.Twin g K r r') (id : MethodId) :
    Sees (Engine.method id) r r' fun m ↦ m = r.domain.registry.method id := by
  unfold Sees Engine.method
  rw [h.domain]
  exact .ok ⟨r.domain, .refl _, rfl, h.same.symm, rfl⟩

theorem fullName (h : Running.Twin g K r r') (m : Method) :
    Sees (Engine.fullName m) r r' fun _ ↦ True := by
  unfold Sees Engine.fullName
  rw [h.domain]
  exact .ok ⟨r.domain, .refl _, rfl, h.same.symm, trivial⟩

theorem ask (h : Running.Twin g K r r') {query : Stack → α}
    (hq : query r'.stack = query r.stack) :
    Sees (Engine.ask query) r r' fun a ↦ a = query r.stack := by
  unfold Sees Engine.ask
  rw [hq]
  exact .ok ⟨r.domain, .refl _, rfl, h.same.symm, rfl⟩

theorem ofExcept {P : α → Prop} (h : Running.Twin g K r r') {y : Except Error α}
    (hy : ∀ a, y = .ok a → P a) : Sees (Engine.ofExcept y) r r' P := by
  cases y with
  | ok a => exact pure h (hy a rfl)
  | error e => exact throw h e

theorem stackFault {mid : α → Prop} (h : Running.Twin g K r r') (fault : StackFault) :
    Sees (Engine.stackFault fault : RunM α) r r' mid := throw h _

/-- By recursion on the list. -/
theorem mapM {P : α → Prop} {k : γ → RunM α} : (cs : List γ) → {r r' : Running} →
    Running.Twin g K r r' → (∀ c ∈ cs, ∀ d, Running.Twin g K (r.withDomain d) (r'.withDomain d) →
      Sees (k c) (r.withDomain d) (r'.withDomain d) P) →
    Sees (cs.mapM k) r r' fun as ↦ ∀ a ∈ as, P a
  | [], _, _, h, _ => by
    rw [List.mapM_nil]
    exact pure h nofun
  | c :: cs, r, r', h, hk => by
    rw [List.mapM_cons]
    have hfirst : Sees (k c) r r' P := by
      have hk := hk c List.mem_cons_self r.domain (h.withDomain (.refl _))
      rwa [h.same] at hk
    refine bind h hfirst fun a d ht ha ↦ ?_
    refine bind ht (mapM cs ht fun c hc d' ↦ hk c (List.mem_cons_of_mem _ hc) d')
      fun as d' ht' has ↦ ?_
    refine pure ht' fun b hb ↦ ?_
    rcases List.mem_cons.mp hb with rfl | hb
    · exact ha
    · exact has b hb

/-- What follows code that only looks starts in twins. -/
theorem andThen (h : Running.Twin g K r r') (hx : Sees x r r' mid)
    {post : Set Nat → β → Running → Prop}
    (hf : ∀ a d, x r = .ok a (r.withDomain d) → r.domain.Extends d →
      Running.Twin g K (r.withDomain d) (r'.withDomain d) → mid a →
      Gives (Running.Twin g) K (f a) (r.withDomain d) (r'.withDomain d) post) :
    Gives (Running.Twin g) K (x >>= f) r r' post := by
  unfold Sees at hx
  generalize hr : x r = s, hr' : x r' = s' at hx
  cases hx with
  | ok hx =>
    obtain ⟨d, hd, rfl, rfl, ha⟩ := hx
    rw [Gives, bind_of_ok hr, bind_of_ok hr']
    exact hf _ d hr hd (h.withDomain hd) ha
  | error hx =>
    obtain ⟨d, hd, rfl, rfl⟩ := hx
    rw [Gives, bind_of_error hr, bind_of_error hr']
    exact .error ⟨K, subset_rfl, h.withDomain hd⟩

theorem gives (h : Running.Twin g K r r') (hx : Sees x r r' mid) :
    Gives (Running.Twin g) K x r r' fun _ a _ ↦ mid a := by
  refine Agreed.imp hx ?_ ?_
  · rintro a _ _ ⟨d, hd, rfl, rfl, ha⟩
    exact ⟨K, subset_rfl, h.withDomain hd, ha⟩
  · rintro _ _ ⟨d, hd, rfl, rfl⟩
    exact ⟨K, subset_rfl, h.withDomain hd⟩

/-- Code that never succeeds. -/
theorem never (h : Running.Twin g K r r') (hx : Sees x r r' fun _ ↦ False)
    {post : Set Nat → α → Running → Prop} : Gives (Running.Twin g) K x r r' post :=
  (gives h hx).imp fun _ _ _ _ hfalse ↦ hfalse.elim

/-- Nothing follows code that never succeeds. -/
theorem stops (h : Running.Twin g K r r') (hx : Sees x r r' fun _ ↦ False)
    {post : Set Nat → β → Running → Prop} : Gives (Running.Twin g) K (x >>= f) r r' post :=
  andThen h hx fun _ _ _ _ _ hfalse ↦ hfalse.elim

end Sees

/-! ### Values -/

namespace Engine

variable {g : Guard} {K : Set Nat} {r r' : Running}

theorem sees_inlineKind (h : Running.Twin g K r r') (fuel : Nat) (t : TypeId) :
    Sees (inlineKind fuel t) r r' fun _ ↦ True := by
  unfold inlineKind
  refine Sees.bind h (.descriptor h t) fun d _ h _ ↦ ?_
  split
  · exact .pure h trivial
  · refine Sees.bind h (.askDomain h _) fun binder _ h _ ↦ ?_
    split
    · exact .pure h trivial
    · split
      · exact Sees.bind h (.registry h (Registry.grows_layout fuel t)) fun _ _ h _ ↦ .pure h trivial
      · exact .pure h trivial

theorem sees_isInline (h : Running.Twin g K r r') (fuel : Nat) (t : TypeId) :
    Sees (isInline fuel t) r r' fun _ ↦ True :=
  Sees.bind h (sees_inlineKind h fuel t) fun _ _ h _ ↦ .pure h trivial

theorem sees_notInline {post : α → Prop} (h : Running.Twin g K r r') (t : TypeId) :
    Sees (notInline t : RunM α) r r' post :=
  Sees.bind h (.descriptor h t) fun _ _ h _ ↦ .stackFault h _

theorem sees_blockFields (h : Running.Twin g K r r') {d : Nat} (hd : d ∈ K) :
    Sees (blockFields d) r r' fun slots ↦ ∀ s ∈ slots, s.Leads K := by
  unfold blockFields
  refine Sees.read h (h.stack.header hd) fun p hp ↦ ?_
  obtain ⟨t, count⟩ := p
  refine Sees.mapM _ h fun i hi _ h ↦ ?_
  have hmem : d - 1 - i ∈ K :=
    h.stack.mem_field hd (Stack.header_ok hp) (List.mem_range.mp hi)
  exact (Sees.of_read h (h.stack.slotAt hmem)).imp fun s hs ↦ h.stack.leads_slotAt hmem hs

theorem sees_sharedOrCopied (h : Running.Twin g K r r') (fuel : Nat) (v : Value) :
    Sees (Running.onDomain (sharedOrCopied fuel v)) r r' fun _ ↦ True :=
  .domain h (grows_sharedOrCopied fuel v)

theorem sees_typeAt (h : Running.Twin g K r r') (t : TypeId) :
    Sees (typeAt t) r r' fun _ ↦ True := .registry h (Registry.grows_lift _)

theorem sees_castMismatch {post : α → Prop} (h : Running.Twin g K r r') (source target : TypeId) :
    Sees (castMismatch source target : RunM α) r r' post :=
  Sees.bind h (.askDomain h _) fun _ _ h _ ↦ .throw h _

theorem sees_referent (h : Running.Twin g K r r') (t : TypeId) :
    Sees (referent t) r r' fun _ ↦ True :=
  Sees.bind h (.descriptor h t) fun _ _ h _ ↦ .pure h trivial

theorem sees_entry (h : Running.Twin g K r r') (i : Nat) :
    Sees (read (·.entry i)) r r' fun _ ↦ True :=
  (Sees.of_read h (h.stack.entry i)).imp fun _ _ ↦ trivial

theorem sees_readHeap (h : Running.Twin g K r r') (fuel : Nat) (s : Slot) :
    Sees (readHeap fuel s) r r' fun _ ↦ True := by
  unfold readHeap
  split
  · refine Sees.bind h (sees_entry h _) fun v _ h _ ↦ ?_
    split
    · exact .domain h (Domain.grows_field _ _)
    · exact .stackFault h _
  · refine Sees.bind h (sees_entry h _) fun v _ h _ ↦ ?_
    split
    · refine Sees.bind h (.domain h (Domain.grows_element? _ _)) fun found _ h _ ↦ ?_
      split
      · exact .pure h trivial
      · exact .stackFault h _
    · exact .stackFault h _
  · exact Sees.bind h (sees_typeAt h _) fun _ _ h _ ↦ .domain h (Domain.grows_static _ _ _)
  · exact .stackFault h _

mutual

/-- A block is read through the addresses of its fields, which are in the set. -/
theorem sees_snapshot : (fuel : Nat) → {d : Nat} → {r r' : Running} → Running.Twin g K r r' →
    d ∈ K → Sees (snapshot fuel d) r r' fun _ ↦ True
  | 0, d, r, r', h, _ => by
    unfold snapshot
    exact .throw h _
  | fuel + 1, d, r, r', h, hd => by
    unfold snapshot
    refine Sees.read h (h.stack.header hd) fun p hp ↦ ?_
    obtain ⟨type, count⟩ := p
    have hheader := Stack.header_ok hp
    refine Sees.bind h (sees_typeAt h type) fun t _ h _ ↦ ?_
    refine Sees.bind h (sees_inlineKind h fuel t) fun kind _ h _ ↦ ?_
    split
    · exact Sees.bind h (sees_blockFields h hd) fun _ _ h _ ↦
        Sees.bind h (.ofExcept (P := fun _ ↦ True) h fun _ _ ↦ trivial) fun _ _ h _ ↦
          .domain h (Domain.grows_newObject _)
    · next l =>
      refine Sees.bind h (Sees.mapM (P := fun _ ↦ True) _ h ?_) fun _ _ h _ ↦
        .domain h (Domain.grows_newObject _)
      rintro ⟨f, i⟩ hmem _ h
      have hi : i < count := Nat.lt_of_lt_of_le (List.snd_lt_of_mem_zipIdx hmem) (by simp)
      have hslot : d - 1 - i ∈ K := h.stack.mem_field hd hheader hi
      refine Sees.read h (h.stack.slotAt hslot) fun s hs ↦ ?_
      have hleads := h.stack.leads_slotAt hslot hs
      split
      · exact Sees.bind h (sees_entry h _) fun _ _ h _ ↦ sees_sharedOrCopied h fuel _
      · exact sees_readValue fuel h hleads f.type
    · exact sees_notInline h t

/-- The value of a slot that leads to the set. -/
theorem sees_readValue : (fuel : Nat) → {s : Slot} → {r r' : Running} → Running.Twin g K r r' →
    s.Leads K → (t : TypeId) → Sees (readValue fuel s t) r r' fun _ ↦ True
  | 0, s, r, r', h, _, t => by
    unfold readValue
    exact .throw h _
  | fuel + 1, s, r, r', h, hs, t => by
    have hheap : Sees (do
        let v ← readHeap fuel s
        return shownAs v (← descriptor (← referent t)).primitive?) r r' fun _ ↦ True :=
      Sees.bind h (sees_readHeap h fuel s) fun _ _ h _ ↦ Sees.bind h (sees_referent h t)
        fun _ _ h _ ↦
        Sees.bind h (.descriptor h _) fun _ _ h _ ↦ .pure h trivial
    have hnumber : Sees (do return s.value (← descriptor t).primitive?) r r' fun _ ↦ True :=
      Sees.bind h (.descriptor h t) fun _ _ h _ ↦ .pure h trivial
    unfold readValue
    cases s with
    | null => exact .pure h trivial
    | int32 v => exact hnumber
    | int64 v => exact hnumber
    | single v => exact hnumber
    | double v => exact hnumber
    | object entry =>
      exact Sees.bind h (sees_entry h entry) fun _ _ h _ ↦
        Sees.bind h (.descriptor h t) fun _ _ h _ ↦ .pure h trivial
    | block d => exact sees_snapshot fuel h (Slot.leads_block.mp hs)
    | stackRef addr =>
      have haddr : addr ∈ K := Slot.leads_stackRef.mp hs
      refine Sees.read h (h.stack.slotAt haddr) fun inner hinner ↦ ?_
      have hleads := h.stack.leads_slotAt haddr hinner
      split
      · exact sees_snapshot fuel h haddr
      · exact Sees.bind h (sees_referent h t) fun _ _ h _ ↦ sees_readValue fuel h hleads _
    | fieldRef entry field => exact hheap
    | elementRef entry index => exact hheap
    | staticRef type field => exact hheap
    | header type fields => exact .stackFault h _

end

/-- Numbers and null, as host data puts them into field slots. -/
theorem shown_of_numeric {s : Slot} (hs : s = .null ∨ s.isNumeric = true) : s.Shown K := by
  rcases hs with rfl | hs
  · exact ⟨.of_none rfl, rfl⟩
  · exact .of_numeric hs

theorem sees_boundSlots (h : Running.Twin g K r r') (binder : StructBinder) (t : TypeId)
    (id : ObjectId) : Sees (boundSlots binder t id) r r' fun slots ↦ ∀ s ∈ slots, s.Shown K := by
  unfold boundSlots
  refine Sees.bind h (.askDomain h _) fun domain _ h _ ↦ ?_
  split
  · exact .ofExcept h fun slots hwrite s hs ↦
      shown_of_numeric (binder.primitive_write hwrite s hs)
  · exact .throw h _

theorem sees_checkBox (h : Running.Twin g K r r') (t : TypeId) (id : ObjectId) :
    Sees (checkBox t id) r r' fun _ ↦ True := by
  unfold checkBox
  refine Sees.bind h (.askDomain h _) fun domain _ h _ ↦ ?_
  split
  · exact sees_castMismatch h _ _
  · exact .pure h trivial

theorem sees_notBoxed {P : α → Prop} (h : Running.Twin g K r r') (v : Value) (t : TypeId) :
    Sees (notBoxed v t : RunM α) r r' P :=
  Sees.bind h (.askDomain h _) fun _ _ h _ ↦ .throw h _

/-! ### Carries and targets -/

theorem sees_loadCarry (h : Running.Twin g K r r') {addr : Nat} (haddr : addr ∈ K) :
    Sees (loadCarry addr) r r' (·.Leads K) := by
  unfold loadCarry
  refine Sees.read h (h.stack.slotAt haddr) fun s hs ↦ ?_
  have hleads := h.stack.leads_slotAt haddr hs
  split
  · exact Sees.bind h (sees_entry h _) fun _ _ h _ ↦ .pure h trivial
  · exact .pure h (Slot.leads_block.mp hleads)
  · exact Sees.bind h (sees_entry h _) fun _ _ h _ ↦ .pure h trivial
  · exact Sees.bind h (sees_entry h _) fun _ _ h _ ↦ .pure h trivial
  · exact .stackFault h _
  · next hheader =>
    refine .pure h ⟨hleads, Bool.eq_false_iff.mpr fun hshows ↦ ?_⟩
    cases s with
    | header t n => exact hheader t n rfl
    | _ => cases hshows

theorem sees_topAddr (h : Running.Twin g K r r') : Sees (read (·.topAddr)) r r' (· ∈ K) :=
  (Sees.of_read h h.stack.topAddr).imp fun a ha ↦
    h.stack.mem_of_lt (Stack.topAddr_ok ha ▸ Nat.lt_succ_self a)

theorem sees_loadTop (h : Running.Twin g K r r') : Sees loadTop r r' (·.Leads K) :=
  Sees.bind h (sees_topAddr h) fun _ _ h ha ↦ sees_loadCarry h ha

theorem sees_detach (h : Running.Twin g K r r') (fuel : Nat) {c : Carry} (hc : c.Leads K) :
    Sees (detach fuel c) r r' (·.Leads K) := by
  unfold detach
  split
  · exact Sees.bind h (sees_snapshot fuel h hc) fun _ _ h _ ↦ .pure h trivial
  · exact .pure h hc

theorem sees_carryValue (h : Running.Twin g K r r') (fuel : Nat) {c : Carry} (hc : c.Leads K)
    (t : TypeId) : Sees (carryValue fuel c t) r r' fun _ ↦ True := by
  unfold carryValue
  split
  · exact .pure h trivial
  · split
    · exact Sees.bind h (.descriptor h t) fun _ _ h _ ↦ .pure h trivial
    · exact .throw h _
  · exact Sees.bind h (.descriptor h t) fun _ _ h _ ↦ .pure h trivial
  · exact sees_snapshot fuel h hc
  · exact .throw h _
  · exact .throw h _

theorem sees_targetOfValue (h : Running.Twin g K r r') (v : Value) :
    Sees (targetOfValue v) r r' (·.Leads K) := by
  unfold targetOfValue
  split
  · exact .pure h trivial
  · exact .pure h trivial
  · exact Sees.bind h (.askDomain h _) fun _ _ h _ ↦ .stackFault h _

/-- Following an address leads to another one in the set. -/
theorem sees_targetOf : (fuel : Nat) → {s : Slot} → {r r' : Running} → Running.Twin g K r r' →
    s.Leads K → Sees (targetOf fuel s) r r' (·.Leads K)
  | 0, _, _, _, h, _ => .throw h _
  | fuel + 1, s, r, r', h, hs => by
    have hheap : Sees (do targetOfValue (← readHeap fuel s)) r r' (·.Leads K) :=
      Sees.bind h (sees_readHeap h fuel s) fun v _ h _ ↦ sees_targetOfValue h v
    unfold targetOf
    split
    · exact .pure h trivial
    · exact Sees.bind h (sees_entry h _) fun v _ h _ ↦ sees_targetOfValue h v
    · exact .pure h (Slot.leads_block.mp hs)
    · next addr =>
      have haddr : addr ∈ K := Slot.leads_stackRef.mp hs
      refine Sees.read h (h.stack.slotAt haddr) fun inner hinner ↦ ?_
      have hleads := h.stack.leads_slotAt haddr hinner
      split
      · exact .pure h haddr
      · exact sees_targetOf fuel h hleads
    · exact hheap
    · exact hheap
    · exact hheap
    · exact .stackFault h _

theorem sees_loadThrough (h : Running.Twin g K r r') (fuel : Nat) {s : Slot} (hs : s.Leads K) :
    Sees (loadThrough fuel s) r r' (·.Leads K) := by
  have hheap : Sees (do return Carry.value (← readHeap fuel s)) r r' (·.Leads K) :=
    Sees.bind h (sees_readHeap h fuel s) fun v _ h _ ↦ .pure h trivial
  unfold loadThrough
  split
  · next addr =>
    have haddr : addr ∈ K := Slot.leads_stackRef.mp hs
    refine Sees.read h (h.stack.slotAt haddr) fun inner _ ↦ ?_
    split
    · exact .pure h haddr
    · exact sees_loadCarry h haddr
  · exact hheap
  · exact hheap
  · exact hheap
  · exact .stackFault h _

/-! ### Host code -/

theorem sees_blockOf : (fuel : Nat) → {s : Slot} → {r r' : Running} → Running.Twin g K r r' →
    s.Leads K → Sees (blockOf fuel s) r r' (· ∈ K)
  | 0, _, _, _, h, _ => .throw h _
  | fuel + 1, s, r, r', h, hs => by
    unfold blockOf
    split
    · exact .pure h (Slot.leads_block.mp hs)
    · next addr =>
      have haddr : addr ∈ K := Slot.leads_stackRef.mp hs
      refine Sees.read h (h.stack.slotAt haddr) fun inner hinner ↦ ?_
      have hleads := h.stack.leads_slotAt haddr hinner
      split
      · exact .pure h haddr
      · exact sees_blockOf fuel h hleads
    · exact .stackFault h _

theorem sees_noReceiver {post : α → Prop} (h : Running.Twin g K r r') (f : HostFrame) :
    Sees (f.noReceiver : RunM α) r r' post :=
  Sees.bind h (.fullName h _) fun _ _ h _ ↦ .throw h _

/-- The receiver and the arguments of a host method lie in the set. -/
def HostFrame.Within (f : HostFrame) (K : Set Nat) : Prop :=
  ∀ i < f.method.params.length + f.hasReceiver.toNat, f.argBase + i ∈ K

theorem HostFrame.Within.receiver {f : HostFrame} (hf : f.Within K) (h : f.hasReceiver = true) :
    f.argBase ∈ K := hf 0 (by simp [h])

theorem HostFrame.Within.arg {f : HostFrame} (hf : f.Within K) {i : Nat}
    (hi : i < f.method.params.length) : f.argBase + f.hasReceiver.toNat + i ∈ K := by
  rw [Nat.add_assoc]
  exact hf _ (by omega)

theorem sees_argSlot (h : Running.Twin g K r r') {f : HostFrame} (hf : f.Within K) (i : Nat) :
    Sees (f.argSlot i) r r' (·.Leads K) := by
  have haddr : Sees (f.argAddr i) r r' (· ∈ K) := by
    unfold HostFrame.argAddr
    dsimp only
    split
    · next hi => exact .pure h (hf.arg hi)
    · exact .throw h _
  exact Sees.bind h haddr fun a _ h ha ↦
    (Sees.of_read h (h.stack.slotAt ha)).imp fun _ hs ↦ h.stack.leads_slotAt ha hs

theorem sees_arg (h : Running.Twin g K r r') {f : HostFrame} (hf : f.Within K) (fuel i : Nat) :
    Sees (f.arg fuel i) r r' fun _ ↦ True :=
  Sees.bind h (sees_argSlot h hf i) fun _ _ h hs ↦ sees_readValue fuel h hs _

theorem sees_thisSlot (h : Running.Twin g K r r') {f : HostFrame} (hf : f.Within K) :
    Sees f.thisSlot r r' (·.Leads K) := by
  unfold HostFrame.thisSlot
  split
  · next hreceiver =>
    have ha := hf.receiver hreceiver
    exact (Sees.of_read h (h.stack.slotAt ha)).imp fun _ hs ↦ h.stack.leads_slotAt ha hs
  · exact sees_noReceiver h f

theorem sees_this (h : Running.Twin g K r r') {f : HostFrame} (hf : f.Within K) (fuel : Nat) :
    Sees (f.this fuel) r r' fun _ ↦ True := by
  unfold HostFrame.this
  refine Sees.bind h (sees_thisSlot h hf) fun s _ h hs ↦
    Sees.bind h (sees_readValue fuel h hs _) fun v _ h _ ↦ ?_
  split
  · exact sees_noReceiver h f
  · exact .pure h trivial

theorem sees_accessKey (h : Running.Twin g K r r') (a : FieldAccess) :
    Sees a.key r r' fun _ ↦ True :=
  (Sees.askDomain h fun d ↦ d.registry.fieldKey a.field).imp fun _ _ ↦ trivial

theorem sees_accessThis (h : Running.Twin g K r r') (a : FieldAccess) :
    Sees a.this r r' fun _ ↦ True := by
  unfold FieldAccess.this
  split
  · exact .pure h trivial
  · exact Sees.bind h (sees_accessKey h a) fun _ _ h _ ↦ .throw h _

theorem sees_valueSlot (h : Running.Twin g K r r') {a : FieldAccess}
    (ha : ∀ addr ∈ a.valueAddr, addr ∈ K) : Sees a.valueSlot r r' (·.Leads K) := by
  unfold FieldAccess.valueSlot
  split
  · next addr haddr =>
    have haddr := ha addr haddr
    exact (Sees.of_read h (h.stack.slotAt haddr)).imp fun _ hs ↦ h.stack.leads_slotAt haddr hs
  · exact Sees.bind h (sees_accessKey h a) fun _ _ h _ ↦ .stackFault h _

theorem sees_accessValue (h : Running.Twin g K r r') {a : FieldAccess}
    (ha : ∀ addr ∈ a.valueAddr, addr ∈ K) (fuel : Nat) : Sees (a.value fuel) r r' fun _ ↦ True :=
  Sees.bind h (sees_valueSlot h ha) fun _ _ h hs ↦ sees_readValue fuel h hs _

theorem sees_hostArgs (h : Running.Twin g K r r') (fuel : Nat) {f : HostFrame} (hf : f.Within K) :
    Sees (f.method.params.zipIdx.mapM fun (t, i) ↦ do
      readValue fuel (← read (·.slotAt (f.argBase + f.hasReceiver.toNat + i))) t) r r'
      fun _ ↦ True := by
  refine (Sees.mapM (P := fun _ ↦ True) _ h ?_).imp fun _ _ ↦ trivial
  rintro ⟨t, i⟩ hmem d h
  have ha := hf.arg (List.snd_lt_of_mem_zipIdx hmem)
  exact Sees.read h (h.stack.slotAt ha) fun s hs ↦
    sees_readValue fuel h (h.stack.leads_slotAt ha hs) t

theorem sees_callHostCode {c : Callees} (hc : ∀ q, Domain.Grows (c.serve q))
    (h : Running.Twin g K r r') (fuel : Nat) {f : HostFrame} (hf : f.Within K)
    (host : HostMethod) : Sees (callHostCode c fuel f host) r r' fun _ ↦ True := by
  -- The arguments are read after the receiver, if there is one.
  have hcall {r r' : Running} (h : Running.Twin g K r r') {k : List Value → Registry → HostCall} :=
    Sees.bind h (sees_hostArgs h fuel hf) fun args _ h _ ↦
      Sees.bind h (.askDomain h (·.registry)) fun registry _ h _ ↦
        .domain h (.program hc (host.code (k args registry)))
  unfold callHostCode
  dsimp only
  split
  · next hreceiver =>
    have ha := hf.receiver hreceiver
    exact Sees.read h (h.stack.slotAt ha) fun s hs ↦
      Sees.bind h (sees_readValue fuel h (h.stack.leads_slotAt ha hs) _) fun _ _ h _ ↦ hcall h
  · exact hcall h

/-- The type of a receiver, through the addresses that lead to it. -/
theorem sees_receiverType : (fuel : Nat) → {s : Slot} → {r r' : Running} →
    Running.Twin g K r r' → s.Leads K → Sees (receiverType fuel s) r r' fun _ ↦ True
  | 0, _, _, _, h, _ => .throw h _
  | fuel + 1, s, r, r', h, hs => by
    have hprimitive (p : Primitive) : Sees (do
        return some (← (Running.onDomain (Domain.inRegistry (Registry.primitive p))))) r r'
        fun _ ↦ True :=
      Sees.bind h (.domain h (Domain.grows_primitive p)) fun _ _ h _ ↦ .pure h trivial
    have hheap : Sees (do
        let v ← readHeap fuel s
        Running.onDomain (Domain.typeOfValue v)) r r' fun _ ↦ True :=
      Sees.bind h (sees_readHeap h fuel s) fun _ _ h _ ↦ .domain h (Domain.grows_typeOfValue _)
    have htype {r r' : Running} (h : Running.Twin g K r r') (t : TypeId) :
        Sees (do return some (← typeAt t)) r r' fun _ ↦ True :=
      Sees.bind h (sees_typeAt h t) fun _ _ h _ ↦ .pure h trivial
    unfold receiverType
    cases s with
    | null => exact .pure h trivial
    | int32 v => exact hprimitive _
    | int64 v => exact hprimitive _
    | single v => exact hprimitive _
    | double v => exact hprimitive _
    | object entry =>
      exact Sees.bind h (sees_entry h _) fun _ _ h _ ↦ .domain h (Domain.grows_typeOfValue _)
    | block d =>
      exact Sees.read h (h.stack.header (Slot.leads_block.mp hs)) fun p _ ↦ htype h p.1
    | stackRef addr =>
      have haddr : addr ∈ K := Slot.leads_stackRef.mp hs
      refine Sees.read h (h.stack.slotAt haddr) fun inner hinner ↦ ?_
      have hleads := h.stack.leads_slotAt haddr hinner
      split
      · exact htype h _
      · exact sees_receiverType fuel h hleads
    | fieldRef entry field => exact hheap
    | elementRef entry index => exact hheap
    | staticRef type field => exact hheap
    | header type fields => exact .stackFault h _

/-- An exception has no result. -/
theorem sees_raise {post : α → Prop} (h : Running.Twin g K r r') (f : CoreLibrary.Fault)
    (message : String) : Sees (raise f message : RunM α) r r' post := by
  refine .domain_of h (Domain.grows_raise f message) fun a d hrun ↦ ?_
  obtain ⟨e, d', -, hthrow⟩ := exists_of_bind hrun
  cases hthrow

theorem sees_nullReference {post : α → Prop} (h : Running.Twin g K r r') :
    Sees (nullReference : RunM α) r r' post := sees_raise h _ _

/-! ### Operands -/

theorem sees_top (h : Running.Twin g K r r') : Sees top r r' (·.Shown K) :=
  (Sees.of_read h h.stack.topSlot).imp fun _ hs ↦ h.stack.shown_topSlot hs

theorem sees_peek (h : Running.Twin g K r r') (depth : Nat) :
    Sees (peek depth) r r' (·.Shown K) :=
  (Sees.of_read h (h.stack.peek depth)).imp fun _ hs ↦ h.stack.shown_peek hs

theorem sees_referenceValue (h : Running.Twin g K r r') (s : Slot) :
    Sees (referenceValue s) r r' fun _ ↦ True := by
  unfold referenceValue
  split
  · exact .pure h trivial
  · exact sees_entry h _
  · exact .stackFault h _

theorem sees_compareSlots (h : Running.Twin g K r r') (op : Comparison) (left right : Slot) :
    Sees (compareSlots op left right) r r' fun _ ↦ True := by
  unfold compareSlots
  split
  · exact Sees.bind h (.ofExcept (P := fun _ ↦ True) h fun _ _ ↦ trivial) fun _ _ h _ ↦
      .pure h trivial
  · split
    · exact Sees.bind h (sees_referenceValue h left) fun _ _ h _ ↦
        Sees.bind h (sees_referenceValue h right) fun _ _ h _ ↦ .ofExcept h fun _ _ ↦ trivial
    · split
      · exact .pure h trivial
      · exact .pure h trivial
      · exact .stackFault h _

theorem sees_compareTop (h : Running.Twin g K r r') (op : Comparison) :
    Sees (compareTop op) r r' fun _ ↦ True :=
  Sees.bind h (sees_peek h 1) fun _ _ h _ ↦ Sees.bind h (sees_top h) fun _ _ h _ ↦
    sees_compareSlots h op _ _

theorem sees_truthy (h : Running.Twin g K r r') (s : Slot) :
    Sees (truthy s) r r' fun _ ↦ True := by
  unfold truthy
  split
  all_goals
    first
    | exact .pure h trivial
    | exact Sees.bind h (sees_entry h _) fun _ _ h _ ↦ .pure h trivial

theorem sees_arrayAt (h : Running.Twin g K r r') (depth : Nat) :
    Sees (arrayAt depth) r r' fun _ ↦ True := by
  unfold arrayAt
  refine Sees.bind h (sees_peek h depth) fun s _ h _ ↦
    Sees.bind h (sees_referenceValue h s) fun v _ h _ ↦ ?_
  split
  · exact sees_nullReference h
  · refine Sees.bind h (.askDomain h _) fun domain _ h _ ↦ ?_
    split
    · exact .pure h trivial
    · exact .stackFault h _
  · exact Sees.bind h (.askDomain h _) fun _ _ h _ ↦ .stackFault h _

theorem sees_elementType (h : Running.Twin g K r r') (array : ObjectId) :
    Sees (elementType array) r r' fun _ ↦ True := by
  unfold elementType
  refine Sees.bind h (.askDomain h _) fun t _ h _ ↦ ?_
  split
  · exact .pure h trivial
  · exact .domain h (Domain.grows_coreType _)

theorem sees_newElements (h : Running.Twin g K r r') (fuel : Nat) (t : TypeId) (length : Nat) :
    Sees (newElements fuel t length) r r' fun _ ↦ True := by
  unfold newElements
  refine Sees.bind h (.descriptor h t) fun d _ h _ ↦ Sees.bind h (.askDomain h _)
    fun factory _ h _ ↦ ?_
  split
  · refine Sees.bind h (.domain h (Domain.grows_runHost _)) fun items _ h _ ↦ ?_
    split
    · exact .stackFault h _
    · exact .pure h trivial
  · split
    · exact (Sees.mapM (P := fun _ ↦ True) _ h fun _ _ _ h ↦
        .domain h (Domain.grows_defaultValue _ _)).imp fun _ _ ↦ trivial
    · exact Sees.bind h (.domain h (Domain.grows_defaultValue _ _)) fun _ _ h _ ↦ .pure h trivial

theorem sees_boxFits (h : Running.Twin g K r r') (v : Value) (t : TypeId) :
    Sees (boxFits v t) r r' fun _ ↦ True := by
  unfold boxFits
  refine Sees.bind h (.descriptor h t) fun d _ h _ ↦ ?_
  split
  · exact .pure h trivial
  · split
    · exact (Sees.askDomain h _).imp fun _ _ ↦ trivial
    · exact .pure h trivial

theorem sees_nameOfType (h : Running.Twin g K r r') (t : TypeId) :
    Sees (nameOfType t) r r' fun _ ↦ True :=
  Sees.bind h (.descriptor h t) fun _ _ h _ ↦ .pure h trivial

/-! ### Fields -/

theorem sees_fieldKey (h : Running.Twin g K r r') (field : Field) :
    Sees (fieldKey field) r r' fun _ ↦ True :=
  (Sees.askDomain h fun d ↦ d.registry.fieldKey field).imp fun _ _ ↦ trivial

theorem sees_noAccessor {post : α → Prop} (h : Running.Twin g K r r') (field : Field)
    (verb : String) : Sees (noAccessor field verb : RunM α) r r' post :=
  Sees.bind h (sees_nameOfType h _) fun _ _ h _ ↦ .throw h _

theorem sees_hostReceiver (h : Running.Twin g K r r') (fuel : Nat) {target : Target}
    (htarget : target.Leads K) : Sees (hostReceiver fuel target) r r' fun _ ↦ True := by
  cases target with
  | object id => exact .pure h trivial
  | block d => exact sees_snapshot fuel h htarget
  | null => exact sees_nullReference h

theorem sees_throwTop {post : α → Prop} (h : Running.Twin g K r r') :
    Sees (throwTop : RunM α) r r' post := by
  unfold throwTop
  refine Sees.bind h (sees_top h) fun s _ h _ ↦ Sees.bind h (sees_referenceValue h s)
    fun v _ h _ ↦ ?_
  split
  · exact sees_nullReference h
  · exact .throw h _

/-! ### Exceptions -/

theorem sees_stackTrace (h : Running.Twin g K r r') : Sees stackTrace r r' fun _ ↦ True := by
  unfold Sees stackTrace
  rw [h.domain, h.frames]
  exact .ok ⟨r.domain, .refl _, rfl, h.same.symm, trivial⟩

theorem sees_withTrace (h : Running.Twin g K r r') (raised : Raised) :
    Sees (withTrace raised) r r' fun _ ↦ True := by
  unfold withTrace
  split
  · exact Sees.bind h (sees_stackTrace h) fun _ _ h _ ↦ .pure h trivial
  · exact .pure h trivial

theorem sees_catchFit (h : Running.Twin g K r r') (fuel : Nat) (f : Frame) (v : Value)
    (clause : Clause) : Sees (catchFit fuel f v clause) r r' fun _ ↦ True := by
  unfold catchFit
  split
  · exact .pure h trivial
  · refine Sees.bind h (.registry h (Registry.grows_resolveTypeToken _ _ _)) fun caught _ h _ ↦ ?_
    refine Sees.bind h (.domain h (Domain.grows_typeOfValue v)) fun source _ h _ ↦ ?_
    split
    · exact .pure h trivial
    · split
      · exact .pure h trivial
      · refine Sees.bind h (.registry h (Registry.grows_isAssignable _ _ _)) fun fits _ h _ ↦ ?_
        split <;> exact .pure h trivial

theorem sees_selectFrom {fits : Nat → Clause → RunM (Option CatchFit)}
    (hfits : ∀ {r r' : Running}, Running.Twin g K r r' → ∀ i clause,
      Sees (fits i clause) r r' fun _ ↦ True) (addr : Nat) : (best : Option Candidate) →
    (clauses : List (Nat × Clause)) → {r r' : Running} → Running.Twin g K r r' →
    Sees (selectFrom fits addr best clauses) r r' fun _ ↦ True
  | _, [], _, _, h => .pure h trivial
  | best, (index, clause) :: rest, _, _, h => by
    unfold selectFrom
    split
    · refine Sees.bind h (hfits h index clause) fun fit _ h _ ↦ ?_
      split
      · exact sees_selectFrom hfits addr best rest h
      · exact sees_selectFrom hfits addr _ rest h
    · exact sees_selectFrom hfits addr best rest h

theorem sees_selectCatch (h : Running.Twin g K r r') (fuel : Nat) (f : Frame) (v : Value)
    (clauses : List Clause) (addr : Nat) :
    Sees (selectCatch clauses addr fun _ ↦ catchFit fuel f v) r r' fun _ ↦ True :=
  Sees.bind h (sees_selectFrom (fun h _ clause ↦ sees_catchFit h fuel f v clause) addr none _ h)
    fun _ _ h _ ↦ .pure h trivial

theorem sees_rethrow {post : α → Prop} (h : Running.Twin g K r r') (f : Frame) (addr : Nat) :
    Sees (rethrow f addr : RunM α) r r' post := by
  unfold rethrow
  split <;> exact .throw h _

theorem sees_breakpoint (h : Running.Twin g K r r') : Sees breakpoint r r' fun _ ↦ True := by
  unfold breakpoint
  refine Sees.bind h (sees_stackTrace h) fun trace _ h _ ↦ ?_
  refine Sees.look (a := r.interpreter.id) rfl (congrArg (EStateM.Result.ok · _) h.id) ?_
  exact .domain h (Domain.grows_record _)

/-! ### Instructions -/

theorem sees_argAddr (h : Running.Twin g K r r') {f : Frame} (hf : f.Within K) (n : UInt16) :
    Sees (argAddr f n) r r' (· ∈ K) := by
  unfold argAddr
  split
  · next hn => exact .pure h (hf.arg hn)
  · exact Sees.bind h (.fullName h _) fun _ _ h _ ↦ .throw h _

theorem sees_localAddr (h : Running.Twin g K r r') {f : Frame} (hf : f.Within K) (n : UInt16) :
    Sees (localAddr f n) r r' (· ∈ K) := by
  unfold localAddr
  split
  · next hn => exact .pure h (hf.loc hn)
  · exact Sees.bind h (.fullName h _) fun _ _ h _ ↦ .throw h _

theorem sees_typeOperand (h : Running.Twin g K r r') (f : Frame) (token : Token) :
    Sees (typeOperand f token) r r' fun _ ↦ True :=
  .registry h (Registry.grows_resolveTypeToken _ _ _)

theorem sees_fieldOperand (h : Running.Twin g K r r') (fuel : Nat) (f : Frame) (token : Token) :
    Sees (fieldOperand fuel f token) r r' fun _ ↦ True :=
  .registry h (Registry.grows_resolveField _ _ _ _)

theorem sees_methodOperand (h : Running.Twin g K r r') (fuel : Nat) (f : Frame) (token : Token) :
    Sees (methodOperand fuel f token) r r' fun _ ↦ True :=
  .registry h (Registry.grows_resolveMethod _ _ _ _)

/-- The operands from there on are all on the stack. -/
theorem sees_operandsBase (h : Running.Twin g K r r') (f : Frame) (count : Nat) :
    Sees (operandsBase f count) r r' fun base ↦ ∀ i < count, base + i ∈ K := by
  unfold operandsBase
  refine Sees.bind h (.ask h h.stack.top) fun top _ h htop ↦ ?_
  split
  · exact .pure h fun i hi ↦ h.stack.mem_of_lt (by
      change _ < r.stack.top
      omega)
  · exact Sees.bind h (.fullName h _) fun _ _ h _ ↦ .stackFault h _

end Engine

end ManagedMachine
