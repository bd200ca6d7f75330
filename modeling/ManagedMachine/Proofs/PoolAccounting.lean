import ManagedMachine.Proofs.WholeRuns

/-!
# Accounting for interpreters

`Loans` is a pool together with the interpreters that it has lent. Interpreters are borrowed and
come back in any order, and a borrowed one is worked on meanwhile; `Loans.Step` is one such event.
Whatever happens, the books agree: every interpreter that was ever made is either out or idle, and
those that are out are the live ones. What comes back is cleared, so what goes out is blank.

Calls that run on a borrowed interpreter borrow others for what host code starts inside of them. All
of these have come back when the call ends, so `Domain.Repays` relates the domains before and after,
and to its caller the call was a sequence of such events.
-/

set_option autoImplicit false
set_option relaxedAutoImplicit false

namespace ManagedMachine

open Relation

/-! ### Events -/

/-- An interpreter with an empty stack, its bounds as on a new one, and no frames. -/
structure Interpreter.Blank (i : Interpreter) : Prop where
  top : i.stack.top = 0
  low : i.stack.low = i.stack.capacity
  base : i.stack.base = i.stack.capacity
  floor : i.stack.floor = 0
  managed : i.stack.managed = #[]
  frames : i.frames = []

theorem Interpreter.blank_fresh (id capacity : Nat) : (fresh id capacity).Blank := by
  have hcapacity : (Stack.empty capacity).capacity = capacity := Array.size_replicate
  exact ⟨rfl, hcapacity.symm, hcapacity.symm, rfl, rfl, rfl⟩

theorem Interpreter.blank_clear (i : Interpreter) : i.clear.Blank := ⟨rfl, rfl, rfl, rfl, rfl, rfl⟩

/-- A pool and the interpreters that it has lent. -/
structure Loans where
  pool : Pool
  out : List Interpreter

namespace Loans

/-- One event: an interpreter is borrowed, worked on, or given back. -/
inductive Step : Loans → Loans → Prop
  | acquire (p : Pool) (out : List Interpreter) : Step ⟨p, out⟩ ⟨p.acquire.2, p.acquire.1 :: out⟩
  /-- A call changes the stack and the frames of the interpreter that it runs on. -/
  | work (p : Pool) (before after : List Interpreter) {i i' : Interpreter} (h : i'.id = i.id) :
      Step ⟨p, before ++ i :: after⟩ ⟨p, before ++ i' :: after⟩
  | release (p : Pool) (before after : List Interpreter) (i : Interpreter) :
      Step ⟨p, before ++ i :: after⟩ ⟨p.release i, before ++ after⟩

/-- Any number of these events. -/
abbrev Path : Loans → Loans → Prop := ReflTransGen Step

/-! ### The books -/

/-- Every interpreter that was made is out or idle, once, and the live ones are those that are out.
-/
structure Accounts (l : Loans) : Prop where
  distinct : ((l.out ++ l.pool.idle).map (·.id)).Nodup
  live : l.pool.live.Perm (l.out.map (·.id))
  ascending : l.pool.live.Pairwise (· < ·)
  created : l.pool.created = l.out.length + l.pool.idle.length

/-- What every event keeps. The ids are the numbers up to that of the newest interpreter. -/
structure Booked (l : Loans) : Prop where
  ids : ((l.out ++ l.pool.idle).map (·.id)).Perm (List.range' 1 l.pool.created)
  live : l.pool.live.Perm (l.out.map (·.id))
  ascending : l.pool.live.Pairwise (· ≤ ·)
  blank : ∀ i ∈ l.pool.idle, i.Blank

/-- Books that agree have every interpreter once, out or idle. -/
theorem Booked.accounts {l : Loans} (h : l.Booked) : l.Accounts := by
  have hdistinct : ((l.out ++ l.pool.idle).map (·.id)).Nodup :=
    h.ids.nodup_iff.mpr List.nodup_range'
  have hlive : l.pool.live.Nodup := by
    rw [h.live.nodup_iff]
    rw [List.map_append] at hdistinct
    exact hdistinct.of_append_left
  refine ⟨hdistinct, h.live, ?_, ?_⟩
  · exact (h.ascending.and hlive).imp fun ⟨hle, hne⟩ ↦ Nat.lt_of_le_of_ne hle hne
  · simpa using h.ids.length_eq.symm

theorem booked_empty (capacity : Nat) : Booked ⟨.empty capacity, []⟩ :=
  ⟨.refl _, .refl _, .nil, nofun⟩

theorem insertSorted_eq (id : Nat) (ids : List Nat) :
    Pool.insertSorted id ids = ids.orderedInsert (· ≤ ·) id := by
  induction ids with
  | nil => rfl
  | cons other rest ih => simp only [Pool.insertSorted, List.orderedInsert, ih]

/-- The step: borrowing, working and giving back keep the books. -/
theorem Booked.step {l l' : Loans} (h : l.Booked) (hstep : Step l l') : l'.Booked := by
  cases hstep with
  | acquire p out =>
    cases hidle : p.idle with
    | nil =>
      have hids := h.ids
      simp only [hidle, List.append_nil] at hids
      refine ⟨?_, ?_, ?_, ?_⟩ <;> simp only [Pool.acquire, hidle, insertSorted_eq]
      · rw [List.range'_1_concat, List.append_nil, Nat.add_comm 1]
        exact (hids.cons _).trans (List.perm_append_singleton _ _).symm
      · exact (List.perm_orderedInsert _ _ _).trans (h.live.cons _)
      · exact h.ascending.orderedInsert _ _
      · simp
    | cons i idle =>
      have hids := h.ids
      simp only [hidle] at hids
      refine ⟨?_, ?_, ?_, ?_⟩ <;> simp only [Pool.acquire, hidle, insertSorted_eq]
      · exact (List.perm_middle.symm.map _).trans hids
      · exact (List.perm_orderedInsert _ _ _).trans (h.live.cons _)
      · exact h.ascending.orderedInsert _ _
      · exact fun i' hi' ↦ h.blank i' (hidle ▸ List.mem_cons_of_mem _ hi')
  | work p before after hid =>
    refine ⟨?_, ?_, h.ascending, h.blank⟩
    · simpa [hid] using h.ids
    · simpa [hid] using h.live
  | release p before after i =>
    refine ⟨?_, ?_, h.ascending.sublist List.erase_sublist, fun i' hi' ↦ ?_⟩
    · refine List.Perm.trans ?_ h.ids
      have hmoved : ((before ++ after) ++ i :: p.idle).Perm ((before ++ i :: after) ++ p.idle) := by
        refine List.perm_middle.trans (.trans ?_ (List.perm_middle.append_right _).symm)
        exact .refl _
      simpa [Pool.release, Interpreter.clear] using hmoved.map (·.id)
    · have herased := (h.live.trans (List.perm_middle.map _)).erase i.id
      simpa [Pool.release] using herased
    · cases hi' with
      | head => exact i.blank_clear
      | tail _ hi' => exact h.blank i' hi'

/-- By induction on the events. -/
theorem Booked.path {l l' : Loans} (h : l.Booked) (hpath : Path l l') : l'.Booked := by
  induction hpath with
  | refl => exact h
  | tail _ hstep ih => exact ih.step hstep

/-- What is borrowed is blank, be it new or one that has come back. -/
theorem Booked.blank_acquire {l : Loans} (h : l.Booked) : l.pool.acquire.1.Blank := by
  cases hidle : l.pool.idle with
  | nil =>
    simp only [Pool.acquire, hidle]
    exact Interpreter.blank_fresh _ _
  | cons i idle =>
    simp only [Pool.acquire, hidle]
    exact h.blank i (hidle ▸ List.mem_cons_self)

end Loans

/-- A new interpreter is made only if none is idle. -/
theorem Pool.acquire_of_idle {p : Pool} (h : p.idle ≠ []) :
    p.acquire.1 ∈ p.idle ∧ p.acquire.2.created = p.created := by
  cases hidle : p.idle with
  | nil => exact absurd hidle h
  | cons i idle => simp [Pool.acquire, hidle]

/-! ### Calls -/

namespace Domain

/-- What was borrowed meanwhile has come back. -/
def Repays (d d' : Domain) : Prop := ∀ out, Loans.Path ⟨d.pool, out⟩ ⟨d'.pool, out⟩

/-- Whoever leaves the pool alone has nothing to give back. -/
theorem Repays.of_eq {d d' : Domain} (h : d'.pool = d.pool) : d.Repays d' := fun out ↦ by
  rw [h]

instance : Lending Repays where
  refl _ := .of_eq rfl
  trans _ _ _ h h' out := (h out).trans (h' out)
  idle h := .of_eq h.pool
  lend {d d' i} hid h out :=
    have hlent : Loans.Path ⟨d.pool, out⟩ ⟨d'.pool, d.pool.acquire.1 :: out⟩ :=
      (ReflTransGen.single (.acquire d.pool out)).trans (h _)
    (hlent.tail (.work d'.pool [] out hid)).tail (.release d'.pool [] out i)

theorem repays_putStatics (t : TypeId) (s : Statics) : Keeps Repays (putStatics t s) :=
  Keeps.modify fun _ ↦ .of_eq rfl

theorem repays_beginInitialization (fuel : Nat) (t : TypeId) :
    Keeps Repays (beginInitialization fuel t) := by
  unfold beginInitialization
  refine (grows_staticsOf fuel t).bind fun s ↦ ?_
  split
  · exact (repays_putStatics _ _).seqRight (.pure _)
  · exact .pure _

theorem repays_finishInitialization (fuel : Nat) (t : TypeId) :
    Keeps Repays (finishInitialization fuel t) :=
  (grows_staticsOf fuel t).bind fun _ ↦ repays_putStatics _ _

end Domain

namespace Engine

open Domain

variable {α : Type} {n : Nat}

/-- What runs on a borrowed interpreter. -/
inductive Job (n : Nat) : {α : Type} → RunM α → Prop
  | run (id : MethodId) (argBase : Nat) : Job n ((callees n).run id argBase)
  | init (fuel : Nat) (t : TypeId) : Job n (ensureInitialized (callees n) fuel t)
  | invoke (fuel : Nat) (id : MethodId) (receiver : Option Value) (args : List Value) :
      Job n (invokeHost (callees n) fuel id receiver args)
  | construct (fuel : Nat) (id : MethodId) (args : List Value) :
      Job n (constructHost (callees n) fuel id args)
  | stream (fuel : Nat) (s : Stream) (xs : List StreamCall) : Job n (s.calls (callees n) fuel xs)

/-- What borrows an interpreter, if it needs one. -/
inductive Order (n : Nat) : {α : Type} → DomainM α → Prop
  | serve (q : DomainRequest) : Order n ((callees n).serve q)
  | invoke (fuel : Nat) (id : MethodId) (receiver : Option Value) (args : List Value) :
      Order n (Domain.invoke (callees n) fuel id receiver args)
  | instantiate (fuel : Nat) (typeName : String) (args : List Value) :
      Order n (Domain.instantiate (callees n) fuel typeName args)
  | stream (fuel : Nat) (id : MethodId) (xs : List StreamCall) :
      Order n (Stream.run (callees n) fuel id xs)

theorem repays_callees (n : Nat) : (callees n).Work Repays :=
  work_callees (fun _ hrun fuel t ↦ works_ensureInitialized hrun (repays_beginInitialization fuel t)
    (repays_finishInitialization fuel t)) n

/-- Whatever the engine does on a borrowed interpreter repays what it borrows itself. -/
theorem Job.works {x : RunM α} (h : Job n x) : Works Repays x := by
  have hc := repays_callees n
  cases h with
  | run id argBase => exact hc.run id argBase
  | init fuel t => exact hc.init fuel t
  | invoke fuel id receiver args => exact works_invokeHost hc fuel id receiver args
  | construct fuel id args => exact works_constructHost hc fuel id args
  | stream fuel s xs => exact works_streamCalls hc fuel xs s

theorem Order.repays {x : DomainM α} (h : Order n x) : Keeps Repays x := by
  have hc := repays_callees n
  cases h with
  | serve q => exact hc.serve q
  | invoke fuel id receiver args => exact keeps_invoke hc fuel id receiver args
  | instantiate fuel typeName args => exact keeps_instantiate hc fuel typeName args
  | stream fuel id xs => exact keeps_stream hc fuel id xs

end Engine

/-- In every sequence of events the books of a pool agree: borrowed and idle interpreters are all
different, the live ones are those that are out, in ascending order, and together they are as many
as were made. What goes out next is blank, and new only if none is idle. A call that runs on a
borrowed interpreter is a sequence of events in which all that it borrowed itself has come back, and
so is whatever the host asks of a domain. -/
theorem pool_accounting (capacity : Nat) :
    (∀ l, Loans.Path ⟨.empty capacity, []⟩ l → l.Accounts ∧ l.pool.acquire.1.Blank ∧
      (l.pool.idle ≠ [] →
        l.pool.acquire.1 ∈ l.pool.idle ∧ l.pool.acquire.2.created = l.pool.created)) ∧
    (∀ (n : Nat) (α : Type) (x : RunM α), Engine.Job n x → ∀ r before after, Loans.Path
      ⟨r.domain.pool, before ++ r.interpreter :: after⟩
      ⟨(endState x r).domain.pool, before ++ (endState x r).interpreter :: after⟩) ∧
    (∀ (n : Nat) (α : Type) (x : DomainM α), Engine.Order n x → ∀ d out,
      Loans.Path ⟨d.pool, out⟩ ⟨(endState x d).pool, out⟩) := by
  refine ⟨fun l hpath ↦ ?_, fun n α x hx r before after ↦ ?_, fun n α x hx d ↦ hx.repays d⟩
  · have hbooked := (Loans.booked_empty capacity).path hpath
    exact ⟨hbooked.accounts, hbooked.blank_acquire, Pool.acquire_of_idle⟩
  · have hworks := hx.works r
    exact (hworks.domain _).tail (.work _ before after hworks.id)

/-- Two interpreters are out, and the first one has come back. -/
def Loans.oneOut : Loans :=
  let lent := (Pool.empty 8).acquire.2.acquire.2
  ⟨lent.release (.fresh 1 8), [.fresh 2 8]⟩

theorem Loans.path_oneOut : Path ⟨.empty 8, []⟩ oneOut :=
  ((ReflTransGen.single (.acquire (.empty 8) [])).tail (.acquire _ _)).tail
    (.release _ [.fresh 2 8] [] (.fresh 1 8))

theorem pool_accounting_oneOut : Loans.oneOut.pool.live = [2] ∧ Loans.oneOut.pool.idle ≠ [] ∧
    Loans.oneOut.Accounts ∧ Loans.oneOut.pool.acquire.1.Blank ∧
    Loans.oneOut.pool.acquire.1 ∈ Loans.oneOut.pool.idle := by
  have hidle : Loans.oneOut.pool.idle ≠ [] := List.cons_ne_nil _ _
  obtain ⟨haccounts, hblank, hold⟩ := (pool_accounting 8).1 Loans.oneOut Loans.path_oneOut
  exact ⟨by decide, hidle, haccounts, hblank, (hold hidle).1⟩

end ManagedMachine
