import ManagedMachine.Domain.Setup
import ManagedMachine.Proofs.Keeping

/-!
# Binding tables

The binding tables are write-once maps with a freeze. What that means is said by `Ledger`, which
only lists the registrations made so far: the first one for a key of a table is what the table has
there, and once the ledger is frozen it takes no more. The tables themselves have two places for
what was registered, and the freeze moves it from the one to the other; a read has to look into the
right one (`read_freeze`). The ledger knows nothing of that, and `Follows` says that nobody can
tell.

`BindingProgram` is host code that works on tables, call by call, and may look at every answer
before it goes on. The code of a binder that comes with entries of its own and the closure of an
initialization are such programs in turn, so calls nest as deep as host code likes. Run on the
tables or on the ledger, every program gives the same answers.
-/

set_option autoImplicit false
set_option relaxedAutoImplicit false

namespace ManagedMachine

/-! ### Two runs side by side -/

section Runs

variable {ε σ τ α β : Type}

theorem tryCatch_of_ok {x : EStateM ε σ α} {handle : ε → EStateM ε σ α} {s t : σ} {a : α}
    (h : x s = .ok a t) : (MonadExcept.tryCatch x handle : EStateM ε σ α) s = .ok a t := by
  change EStateM.tryCatch x handle s = _
  rw [EStateM.tryCatch, h]

theorem tryCatch_of_error {x : EStateM ε σ α} (handle : ε → EStateM ε σ α) {s t : σ} {e : ε}
    (h : x s = .error e t) :
    (MonadExcept.tryCatch x handle : EStateM ε σ α) s = handle e t := by
  change EStateM.tryCatch x handle s = _
  rw [EStateM.tryCatch, h]
  rfl

theorem bind_tryCatch_of_error {x : EStateM ε σ α} {handle : ε → EStateM ε σ α}
    {f : α → EStateM ε σ β} {s t : σ} {e : ε} (h : x s = .error e t) :
    ((MonadExcept.tryCatch x handle : EStateM ε σ α) >>= f) s = (handle e >>= f) t := by
  change EStateM.bind _ f s = EStateM.bind _ f t
  rw [EStateM.bind, EStateM.bind, tryCatch_of_error handle h]

/-- Two computations end alike, in states that are related. -/
def EndAlike (R : σ → τ → Prop) : EStateM.Result ε σ α → EStateM.Result ε τ α → Prop
  | .ok a s, .ok b t => a = b ∧ R s t
  | .error e s, .error f t => e = f ∧ R s t
  | _, _ => False

variable {Req : Type} {Ans : Req → Type} {R : σ → τ → Prop}

/-- Host code that gets the same answers to all of its requests ends alike. -/
theorem Program.run_alike {handle : (q : Req) → EStateM Error σ (Ans q)}
    {handle' : (q : Req) → EStateM Error τ (Ans q)}
    (h : ∀ q s t, R s t → EndAlike R (handle q s) (handle' q t)) (p : Program Req Ans α) :
    ∀ s t, R s t → EndAlike R (p.run handle s) (p.run handle' t) := by
  induction p with
  | done a => exact fun s t hst ↦ ⟨rfl, hst⟩
  | fail e => exact fun s t hst ↦ ⟨rfl, hst⟩
  | ask q next ih =>
    intro s t hst
    have hq := h q s t hst
    simp only [run]
    cases hs : handle q s with
    | ok a s' =>
      cases ht : handle' q t with
      | ok b t' =>
        rw [hs, ht] at hq
        obtain ⟨rfl, hst'⟩ := hq
        exact ih (.ok a) s' t' hst'
      | error f t' => simp [hs, ht, EndAlike] at hq
    | error e s' =>
      cases ht : handle' q t with
      | ok b t' => simp [hs, ht, EndAlike] at hq
      | error f t' =>
        rw [hs, ht] at hq
        obtain ⟨rfl, hst'⟩ := hq
        by_cases hfuel : e = .outOfFuel
        · subst hfuel
          exact ⟨rfl, hst'⟩
        · simpa only using ih (.error e) s' t' hst'

variable {handle : (q : Req) → EStateM Error σ (Ans q)} {s t : σ} {e : Error} {a : α}

/-- A program that ends with an answer goes on from it. -/
theorem Program.run_bind_of_ok {p : Program Req Ans α} (f : α → Program Req Ans β)
    (h : p.run handle s = .ok a t) : (p.bind f).run handle s = (f a).run handle t := by
  induction p generalizing s with
  | done b =>
    cases h
    rfl
  | fail e => cases h
  | ask q next ih =>
    simp only [run, bind] at h ⊢
    split at h
    · exact ih _ h
    · cases h
    · exact ih _ h

theorem Program.run_bind_of_error {p : Program Req Ans α} (f : α → Program Req Ans β)
    (h : p.run handle s = .error e t) : (p.bind f).run handle s = .error e t := by
  induction p generalizing s with
  | done b => cases h
  | fail e =>
    cases h
    rfl
  | ask q next ih =>
    simp only [run, bind] at h ⊢
    split at h
    · exact ih _ h
    · cases h
      rfl
    · exact ih _ h

theorem Program.run_orElse_of_ok {p : Program Req Ans α} (f : Error → Program Req Ans α)
    (h : p.run handle s = .ok a t) : (p.orElse f).run handle s = .ok a t := by
  induction p generalizing s with
  | done b => exact h
  | fail e => cases h
  | ask q next ih =>
    simp only [run, orElse] at h ⊢
    split at h
    · exact ih _ h
    · cases h
    · exact ih _ h

/-- Failures are handled where they come up, unless the bound on the evaluation has been reached. -/
theorem Program.run_orElse_of_error {p : Program Req Ans α} (f : Error → Program Req Ans α)
    (hhandle : ∀ q s t, handle q s ≠ .error .outOfFuel t) (h : p.run handle s = .error e t) :
    (p.orElse f).run handle s = (f e).run handle t := by
  induction p generalizing s with
  | done b => cases h
  | fail e =>
    cases h
    rfl
  | ask q next ih =>
    simp only [run, orElse] at h ⊢
    split at h
    · exact ih _ h
    · next hq => exact absurd hq (hhandle q s _)
    · exact ih _ h

end Runs

/-! ### Registrations -/

namespace Binding

inductive Table where
  | redirections
  | fields
  | getters
  | setters
  | arrays
  | binders
  deriving DecidableEq

/-- What a table has under a key. -/
@[reducible] def Table.Code : Table → Type
  | redirections => Redirection
  | fields => FieldDelegates
  | getters => HostGetter
  | setters => HostSetter
  | arrays => ArrayFactory
  | binders => StructBinder

/-- Code for a key of one of the tables. -/
structure Registration where
  table : Table
  key : String
  code : table.Code

/-- The code of the registration, if it is one for that key of that table. -/
def Registration.codeFor? (r : Registration) (t : Table) (key : String) : Option t.Code :=
  if h : r.table = t then if r.key = key then some (h ▸ r.code) else none else none

theorem Registration.codeFor?_of_ne {r : Registration} {t : Table} (h : r.table ≠ t)
    (key : String) :
    r.codeFor? t key = none := dif_neg h

/-- The registration that an entry makes by itself. -/
def Entry.registration? : Entry → Option Registration
  | .redirection key code => some ⟨.redirections, key, code⟩
  | .field key delegates => some ⟨.fields, key, delegates⟩
  | .getter key get => some ⟨.getters, key, get⟩
  | .setter key set => some ⟨.setters, key, set⟩
  | .array key factory => some ⟨.arrays, key, factory⟩
  | .binder b _ => some ⟨.binders, b.typeName, b⟩
  | .failure _ => none

end Binding

namespace Bindings

/-- A read, which looks where `Bindings.read` does. -/
def lookup (b : Bindings) : (t : Binding.Table) → String → Option t.Code
  | .redirections, key => b.redirection? key
  | .fields, key => b.delegates? key
  | .getters, key => b.getter? key
  | .setters, key => b.setter? key
  | .arrays, key => b.factory? key
  | .binders, key => b.binder? key

def add : Binding.Registration → BindingsM Bool
  | ⟨.redirections, key, code⟩ =>
    enter BindingSet.redirections (fun s redirections => { s with redirections }) key code
  | ⟨.fields, key, code⟩ => enter BindingSet.fields (fun s fields => { s with fields }) key code
  | ⟨.getters, key, code⟩ => enter BindingSet.getters (fun s getters => { s with getters }) key code
  | ⟨.setters, key, code⟩ => enter BindingSet.setters (fun s setters => { s with setters }) key code
  | ⟨.arrays, key, code⟩ => enter BindingSet.arrays (fun s arrays => { s with arrays }) key code
  | ⟨.binders, key, code⟩ => enter BindingSet.binders (fun s binders => { s with binders }) key code

end Bindings

/-! ### Host code on binding tables -/

/-- What host code may ask of the tables. -/
inductive BindingRequest where
  | add (r : Binding.Registration)
  | read (t : Binding.Table) (key : String)
  | freeze
  | isFrozen

/-- What comes back from each request. -/
@[reducible] def BindingRequest.Answer : BindingRequest → Type
  | add _ => Bool
  | read t _ => Option t.Code
  | freeze => Unit
  | isFrozen => Bool

/-- Host code that works on binding tables. -/
abbrev BindingProgram := Program BindingRequest BindingRequest.Answer

namespace BindingProgram

def add (r : Binding.Registration) : BindingProgram Bool := .request (BindingRequest.add r)

def freeze : BindingProgram Unit := .request BindingRequest.freeze

/-- Registers a binder, and lets the binder register what comes with it if it is the first one. -/
def registerBinder (b : StructBinder) (others : BindingProgram Unit) : BindingProgram Bool := do
  let added ← add ⟨.binders, b.typeName, b⟩
  if added then others
  return added

mutual

/-- An entry as host code. -/
def ofEntry : Binding.Entry → BindingProgram Bool
  | .redirection key code => add ⟨.redirections, key, code⟩
  | .field key delegates => add ⟨.fields, key, delegates⟩
  | .getter key get => add ⟨.getters, key, get⟩
  | .setter key set => add ⟨.setters, key, set⟩
  | .array key factory => add ⟨.arrays, key, factory⟩
  | .binder b others => registerBinder b (ofEntries others)
  | .failure e => .fail e

/-- The entries that a binder brings along, one after the other. -/
def ofEntries : List Binding.Entry → BindingProgram Unit
  | [] => .done ()
  | e :: rest => do
    let _ ← ofEntry e
    ofEntries rest

end

/-- Runs the closure on tables that are not frozen, and freezes them whatever becomes of it. -/
def initialize_ (closure : BindingProgram Unit) : BindingProgram Unit := do
  if ← (Program.request BindingRequest.isFrozen : BindingProgram Bool) then return ()
  else
    closure.orElse fun e ↦ do
      freeze
      .fail e
    freeze

end BindingProgram

namespace Bindings

/-- The tables answer. -/
def serve : (q : BindingRequest) → BindingsM q.Answer
  | .add r => add r
  | .read t key => fun b ↦ .ok (b.lookup t key) b
  | .freeze => modify freeze
  | .isFrozen => fun b ↦ .ok b.frozen b

end Bindings

/-! ### The ledger -/

/-- All registrations made before the freeze, the first one first. -/
structure Ledger where
  made : List Binding.Registration
  frozen : Bool

namespace Ledger

def empty : Ledger := ⟨[], false⟩

/-- The code of the first registration for that key of that table. -/
def first? (l : Ledger) (t : Binding.Table) (key : String) : Option t.Code :=
  l.made.findSome? fun r ↦ r.codeFor? t key

/-- The ledger answers: a registration is told whether it is the first one for its key, and a read
what the first one for the key was. -/
def serve : (q : BindingRequest) → EStateM Error Ledger q.Answer
  | .add r => fun l ↦
    if l.frozen then .error .bindingsFrozen l
    else .ok (l.first? r.table r.key).isNone { l with made := l.made ++ [r] }
  | .read t key => fun l ↦ .ok (l.first? t key) l
  | .freeze => fun l ↦ .ok () { l with frozen := true }
  | .isFrozen => fun l ↦ .ok l.frozen l

end Ledger

namespace Bindings

/-- The tables read as the ledger does. -/
structure Follows (b : Bindings) (l : Ledger) : Prop where
  frozen : b.frozen = l.frozen
  lookup : ∀ t key, b.lookup t key = l.first? t key

theorem follows_empty : Follows .empty .empty := by
  refine ⟨rfl, fun t key ↦ ?_⟩
  cases t <;> simp [lookup, redirection?, delegates?, getter?, setter?, factory?, binder?,
    read, empty, BindingSet.empty, Ledger.first?, Ledger.empty]

/-! ### One call -/

section Tables

variable {α : Type} (table : Std.HashMap String α) (key : String) (a : α)

theorem fst_addTo : (addTo table key a).1 = (table[key]?).isNone := by
  unfold addTo
  by_cases h : key ∈ table
  · simp [h]
  · simp [h]

theorem getElem?_snd_addTo (k : String) :
    (addTo table key a).2[k]? = (table[k]?).or (if key = k then some a else none) := by
  unfold addTo
  by_cases h : key ∈ table
  · by_cases hk : key = k
    · subst hk
      simp [h]
    · simp [h, hk]
  · by_cases hk : key = k
    · subst hk
      simp [h]
    · simp [h, hk, Std.HashMap.getElem?_insert]

end Tables

variable {b : Bindings} {l : Ledger}

/-- What tables that are being built answer. -/
theorem read_of_open {α : Type} (table : BindingSet → Std.HashMap String α) (key : String)
    (h : b.snapshot = none) : b.read table key = (table b.building)[key]? := by
  rw [read, h]

theorem snapshot_of_open (h : b.frozen = false) : b.snapshot = none :=
  Option.isNone_iff_eq_none.mp (by rw [← Option.not_isSome, ← frozen, h]; rfl)

theorem freeze_of_frozen (h : b.frozen = true) : b.freeze = b := if_pos h

@[simp] theorem frozen_freeze (b : Bindings) : b.freeze.frozen = true := by
  cases h : b.frozen with
  | true => rw [freeze_of_frozen h, h]
  | false =>
    rw [freeze, h]
    rfl

/-- The freeze moves what reads look at from one place to another: the snapshot that answers from
then on is the set of tables that answered before. -/
theorem read_freeze {α : Type} (table : BindingSet → Std.HashMap String α) (key : String)
    (b : Bindings) : b.freeze.read table key = b.read table key := by
  cases h : b.frozen with
  | true => rw [freeze_of_frozen h]
  | false =>
    rw [read_of_open table key (snapshot_of_open h), freeze, h]
    rfl

@[simp] theorem lookup_freeze (b : Bindings) (t : Binding.Table) (key : String) :
    b.freeze.lookup t key = b.lookup t key := by
  cases t <;> exact read_freeze _ key b

theorem add_of_frozen (r : Binding.Registration) (h : b.frozen = true) :
    add r b = .error .bindingsFrozen b := by
  obtain ⟨t, key, code⟩ := r
  cases t <;> simp [add, enter, h]

/-- Tables that are being built take the entry if they have none for its key. -/
theorem enter_of_open {α : Type} (table : BindingSet → Std.HashMap String α)
    (update : BindingSet → Std.HashMap String α → BindingSet) (key : String) (a : α)
    (h : b.frozen = false) : enter table update key a b = .ok (b.read table key).isNone
      { b with building := update b.building (addTo (table b.building) key a).2 } := by
  rw [read_of_open table key (snapshot_of_open h), ← fst_addTo, enter, h]
  rfl

/-- A registration shows in its table alone, and there only if it is the first one for its key. -/
theorem add_of_open (r : Binding.Registration) (h : b.frozen = false) :
    ∃ b', add r b = .ok (b.lookup r.table r.key).isNone b' ∧ b'.frozen = false ∧
      ∀ t key, b'.lookup t key = (b.lookup t key).or (r.codeFor? t key) := by
  obtain ⟨t, key, code⟩ := r
  have hopen := snapshot_of_open h
  cases t <;>
  · apply Exists.intro
    constructor
    · simp only [add, enter_of_open _ _ _ _ h]
      rfl
    · refine ⟨h, fun t' k ↦ ?_⟩
      cases t' <;> simp [lookup, redirection?, delegates?, getter?, setter?, factory?, binder?,
        read, hopen, Binding.Registration.codeFor?, getElem?_snd_addTo]

/-- One request to the tables and to the ledger: the answers are the same, and they still follow
each other. -/
theorem serve_follows (q : BindingRequest) (h : Follows b l) :
    EndAlike Follows (serve q b) (Ledger.serve q l) := by
  cases q with
  | read t key => exact ⟨h.lookup t key, h⟩
  | freeze =>
    exact ⟨rfl, frozen_freeze b, fun t key ↦ (lookup_freeze b t key).trans (h.lookup t key)⟩
  | isFrozen => exact ⟨h.frozen, h⟩
  | add r =>
    simp only [serve, Ledger.serve, ← h.frozen]
    cases hfrozen : b.frozen with
    | true =>
      rw [add_of_frozen r hfrozen]
      exact ⟨rfl, h⟩
    | false =>
      obtain ⟨b', hadd, hopen, hlookup⟩ := add_of_open r hfrozen
      rw [hadd]
      refine ⟨by rw [h.lookup], hopen, fun t key ↦ ?_⟩
      rw [hlookup, h.lookup]
      simp [Ledger.first?, List.findSome?_append]

theorem serve_ne_outOfFuel (q : BindingRequest) (b b' : Bindings) :
    serve q b ≠ .error .outOfFuel b' := by
  intro h
  cases q with
  | add r =>
    cases hfrozen : b.frozen with
    | true =>
      rw [serve, add_of_frozen r hfrozen] at h
      cases h
    | false =>
      obtain ⟨b'', hadd, -⟩ := add_of_open r hfrozen
      rw [serve, hadd] at h
      cases h
  | _ => cases h

/-! ### Sequences of calls -/

/-- Nothing happens to frozen tables. -/
def Stays (b b' : Bindings) : Prop := b.frozen = true → b' = b

instance : IsPreorder Bindings Stays where
  refl _ _ := rfl
  trans b b' b'' h h' hb := by
    have hsame := h hb
    subst hsame
    exact h' hb

theorem keeps_serve (q : BindingRequest) : Keeps Stays (serve q) := by
  intro b hb
  cases q with
  | add r => rw [serve, endState_error (add_of_frozen r hb)]
  | freeze => exact freeze_of_frozen hb
  | _ => rfl

/-- The same end, with frozen tables. -/
def frozenAfter {α : Type} : EStateM.Result Error Bindings α → EStateM.Result Error Bindings α
  | .ok a b => .ok a b.freeze
  | .error e b => .error e b.freeze

theorem run_initialize_of_frozen (closure : BindingProgram Unit) (h : b.frozen = true) :
    (BindingProgram.initialize_ closure).run serve b = .ok () b := by
  refine (Program.run_bind_of_ok (a := true) (t := b) _ ?_).trans rfl
  change (EStateM.Result.ok b.frozen b : EStateM.Result Error Bindings Bool) = _
  rw [h]

theorem run_initialize_of_open (closure : BindingProgram Unit) (h : b.frozen = false) :
    (BindingProgram.initialize_ closure).run serve b = frozenAfter (closure.run serve b) := by
  refine (Program.run_bind_of_ok (a := false) (t := b) _ ?_).trans ?_
  · change (EStateM.Result.ok b.frozen b : EStateM.Result Error Bindings Bool) = _
    rw [h]
  · cases hrun : closure.run serve b with
    | ok a b' => exact Program.run_bind_of_ok _ (Program.run_orElse_of_ok _ hrun)
    | error e b' =>
      exact Program.run_bind_of_error _
        ((Program.run_orElse_of_error _ serve_ne_outOfFuel hrun).trans rfl)

/-! ### Entries that bring others along -/

theorem run_add (r : Binding.Registration) (b : Bindings) :
    (BindingProgram.add r).run serve b = add r b := by
  change Program.run serve (.ask (.add r) Program.ofExcept) b = _
  simp only [Program.run, serve]
  cases hfrozen : b.frozen with
  | true =>
    rw [add_of_frozen r hfrozen]
    rfl
  | false =>
    obtain ⟨b', hadd, -⟩ := add_of_open r hfrozen
    rw [hadd]
    rfl

mutual

/-- The registration of one entry, as host code: a binder that is new registers the entries that
come with it. -/
theorem register_eq_run : (e : Binding.Entry) → (b : Bindings) →
    register e b = (BindingProgram.ofEntry e).run serve b
  | .redirection key code, b => (run_add ⟨.redirections, key, code⟩ b).symm
  | .field key delegates, b => (run_add ⟨.fields, key, delegates⟩ b).symm
  | .getter key get, b => (run_add ⟨.getters, key, get⟩ b).symm
  | .setter key set, b => (run_add ⟨.setters, key, set⟩ b).symm
  | .array key factory, b => (run_add ⟨.arrays, key, factory⟩ b).symm
  | .failure e, b => rfl
  | .binder binder others, b => by
    have hadd := run_add ⟨.binders, binder.typeName, binder⟩ b
    simp only [register, BindingProgram.ofEntry, BindingProgram.registerBinder]
    cases h : add ⟨.binders, binder.typeName, binder⟩ b with
    | error e b' =>
      rw [h] at hadd
      exact (bind_of_error h).trans (Program.run_bind_of_error _ hadd).symm
    | ok added b' =>
      rw [h] at hadd
      refine (bind_of_ok h).trans ((Program.run_bind_of_ok _ hadd).trans ?_).symm
      cases added with
      | false => rfl
      | true =>
        have hothers := registerAll_eq_run others b'
        cases hall : registerAll others b' with
        | ok u b'' =>
          rw [hall] at hothers
          exact (Program.run_bind_of_ok (fun _ ↦ pure true) hothers.symm).trans
            (bind_of_ok (f := fun _ ↦ (pure true : BindingsM Bool)) hall).symm
        | error e b'' =>
          rw [hall] at hothers
          exact (Program.run_bind_of_error _ hothers.symm).trans (bind_of_error hall).symm

/-- Entries are registered in turn, and the first error ends it. -/
theorem registerAll_eq_run : (es : List Binding.Entry) → (b : Bindings) →
    registerAll es b = (BindingProgram.ofEntries es).run serve b
  | [], _ => rfl
  | e :: rest, b => by
    have he := register_eq_run e b
    simp only [registerAll, BindingProgram.ofEntries]
    cases h : register e b with
    | error f b' =>
      rw [h] at he
      exact (bind_of_error h).trans (Program.run_bind_of_error _ he.symm).symm
    | ok added b' =>
      rw [h] at he
      refine (bind_of_ok h).trans ((registerAll_eq_run rest b').trans ?_)
      exact (Program.run_bind_of_ok (fun _ ↦ BindingProgram.ofEntries rest) he.symm).symm

end

end Bindings

/-! ### Answers -/

namespace Bindings

variable {b : Bindings} {e : Binding.Entry} {r : Binding.Registration}

/-- The entry is told whether it is the first one for its key. Only a binder that is the first one
can fail, if an entry that comes with it does. -/
def Answered (e : Binding.Entry) (b : Bindings) (first : Bool) : Prop :=
  (∃ b', register e b = .ok first b') ∨
    first = true ∧ ∃ binder others failure b' b'', e = .binder binder others ∧
      add ⟨.binders, binder.typeName, binder⟩ b = .ok true b' ∧
      registerAll others b' = .error failure b'' ∧ register e b = .error failure b''

theorem register_eq_add (hr : e.registration? = some r) (hne : r.table ≠ .binders) :
    register e = add r := by
  cases e with
  | failure e => cases hr
  | binder binder others =>
    cases hr
    exact absurd rfl hne
  | _ =>
    cases hr
    rfl

theorem register_of_frozen (hr : e.registration? = some r) (h : b.frozen = true) :
    register e b = .error .bindingsFrozen b := by
  cases e with
  | failure e => cases hr
  | binder binder others =>
    exact bind_of_error (add_of_frozen ⟨.binders, binder.typeName, binder⟩ h)
  | _ =>
    rw [register_eq_add hr (by cases hr; simp)]
    exact add_of_frozen r h

/-- Before the freeze an entry is answered with whether its key was free. -/
theorem answered_register (hr : e.registration? = some r) (h : b.frozen = false) :
    Answered e b (b.lookup r.table r.key).isNone := by
  obtain ⟨b', hadd, -⟩ := add_of_open r h
  cases e with
  | failure e => cases hr
  | binder binder others =>
    cases hr
    by_cases hfirst : (b.lookup .binders binder.typeName).isNone = true
    · rw [hfirst] at hadd
      cases hall : registerAll others b' with
      | ok u b'' =>
        refine .inl ⟨b'', ?_⟩
        rw [hfirst]
        exact (bind_of_ok hadd).trans
          (bind_of_ok (f := fun _ ↦ (pure true : BindingsM Bool)) hall)
      | error failure b'' =>
        refine .inr ⟨hfirst, binder, others, failure, b', b'', rfl, hadd, hall, ?_⟩
        exact (bind_of_ok hadd).trans
          (bind_of_error (f := fun _ ↦ (pure true : BindingsM Bool)) hall)
    · rw [Bool.not_eq_true] at hfirst
      rw [hfirst] at hadd
      refine .inl ⟨b', ?_⟩
      rw [hfirst]
      exact bind_of_ok hadd
  | _ =>
    rw [Answered, register_eq_add hr (by cases hr; simp)]
    exact .inl ⟨b', hadd⟩

end Bindings

/-! ### Tables of a domain -/

namespace Domain

/-- Two computations end alike as far as the binding tables of the domain go. -/
def BindsAlike {α β : Type} (R : α → β → Prop) :
    EStateM.Result Error Domain α → EStateM.Result Error Bindings β → Prop
  | .ok a d, .ok b bindings => R a b ∧ d.bindings = bindings
  | .error e d, .error f bindings => e = f ∧ d.bindings = bindings
  | _, _ => False

/-- What a domain does for a list of entries is what its tables do, entry by entry, with the same
errors. -/
theorem bindAll_alike : (entries : List Binding.Entry) → (d : Domain) →
    BindsAlike (fun _ _ ↦ True) (bindAll entries d) (Bindings.registerAll entries d.bindings)
  | [], d => ⟨trivial, rfl⟩
  | entry :: rest, d => by
    simp only [bindAll, Bindings.registerAll]
    cases h : Bindings.register entry d.bindings with
    | error e b =>
      have hin : inBindings (Bindings.register entry) d = .error e { d with bindings := b } := by
        simp only [inBindings, h]
      rw [bind_of_error h, bind_of_error hin]
      exact ⟨rfl, rfl⟩
    | ok added b =>
      have hin : inBindings (Bindings.register entry) d = .ok added { d with bindings := b } := by
        simp only [inBindings, h]
      rw [bind_of_ok h, bind_of_ok hin]
      exact bindAll_alike rest _

/-- A domain initializes its tables with a closure that enters the entries in order. -/
theorem initializeBindings_alike (entries : List Binding.Entry) (d : Domain)
    (h : ∀ reason b, Bindings.registerAll entries d.bindings ≠ .error (.bindingThread reason) b) :
    BindsAlike (fun frozen _ ↦ frozen = true) (initializeBindings entries d)
      ((BindingProgram.initialize_ (.ofEntries entries)).run Bindings.serve d.bindings) := by
  unfold initializeBindings
  cases hfrozen : d.bindings.frozen with
  | true =>
    rw [Bindings.run_initialize_of_frozen _ hfrozen]
    have hask : ask (·.bindings.frozen) d = .ok true d := congrArg (EStateM.Result.ok · d) hfrozen
    rw [bind_of_ok hask]
    exact ⟨hfrozen, rfl⟩
  | false =>
    rw [Bindings.run_initialize_of_open _ hfrozen, ← Bindings.registerAll_eq_run]
    have hask : ask (·.bindings.frozen) d = .ok false d := congrArg (EStateM.Result.ok · d) hfrozen
    rw [bind_of_ok hask]
    have hall := bindAll_alike entries d
    cases hbind : bindAll entries d with
    | ok u d' =>
      cases hregister : Bindings.registerAll entries d.bindings with
      | error e b => simp [hbind, hregister, BindsAlike] at hall
      | ok v b =>
        rw [hbind, hregister] at hall
        obtain ⟨-, rfl⟩ := hall
        exact (congrArg (BindsAlike _ · _) (bind_of_ok (tryCatch_of_ok hbind))).mpr
          ⟨Bindings.frozen_freeze _, rfl⟩
    | error e d' =>
      cases hregister : Bindings.registerAll entries d.bindings with
      | ok v b => simp [hbind, hregister, BindsAlike] at hall
      | error f b =>
        rw [hbind, hregister] at hall
        obtain ⟨rfl, rfl⟩ := hall
        refine (congrArg (BindsAlike _ · _) (bind_tryCatch_of_error hbind)).mpr ?_
        cases e with
        | bindingThread reason => exact absurd hregister (h reason _)
        | _ => exact ⟨rfl, rfl⟩

end Domain

/-! ### Write-once maps -/

namespace Bindings

/-- The tables are write-once maps with a freeze. After any calls, nested ones among them, they
answer all further calls as the ledger of these calls does, so a read gives what was registered
first and a registration is told whether it was the first. Frozen tables stay as they are, freezing
changes no read, and an initialization freezes whatever becomes of its closure, which it does not
run on frozen tables. A registration shows in its own table only. Entries that bring others along
are calls that nest, and so are the initializations of a domain. -/
theorem tables_write_once {β : Type} (past : BindingProgram β) :
    let b := endState (past.run serve) .empty
    let l := endState (past.run Ledger.serve) .empty
    (∀ (α : Type) (p : BindingProgram α),
      EndAlike Follows (p.run serve b) (p.run Ledger.serve l)) ∧
    (b.frozen = true → ∀ (α : Type) (p : BindingProgram α), endState (p.run serve) b = b) ∧
    (b.freeze.frozen = true ∧ ∀ t key, b.freeze.lookup t key = b.lookup t key) ∧
    (∀ closure, (BindingProgram.initialize_ closure).run serve b =
      if b.frozen then .ok () b else frozenAfter (closure.run serve b)) ∧
    (∀ r t key, r.table ≠ t → (endState (add r) b).lookup t key = b.lookup t key) ∧
    (∀ e r, e.registration? = some r →
      (b.frozen = true → register e b = .error .bindingsFrozen b) ∧
      (b.frozen = false → Answered e b (l.first? r.table r.key).isNone)) ∧
    (∀ e, register e b = (BindingProgram.ofEntry e).run serve b) ∧
    (∀ entries d, d.bindings = b →
      (∀ reason b', registerAll entries b ≠ .error (.bindingThread reason) b') →
      Domain.BindsAlike (fun frozen _ ↦ frozen = true) (Domain.initializeBindings entries d)
        ((BindingProgram.initialize_ (.ofEntries entries)).run serve b)) := by
  intro b l
  have hfollows : Follows b l := by
    have hpast := Program.run_alike (fun q _ _ ↦ serve_follows q) past _ _ follows_empty
    simp only [b, l, endState]
    revert hpast
    cases past.run serve .empty <;> cases past.run Ledger.serve .empty <;>
      simp +contextual [EndAlike]
  refine ⟨fun α p ↦ Program.run_alike (fun q _ _ ↦ serve_follows q) p b l hfollows,
    fun hb α p ↦ Keeps.program keeps_serve p b hb, ⟨frozen_freeze b, lookup_freeze b⟩,
    fun closure ↦ ?_, fun r t key hne ↦ ?_, fun e r hr ↦ ⟨register_of_frozen hr, fun hopen ↦ ?_⟩,
    fun e ↦ register_eq_run e b, ?_⟩
  · cases hfrozen : b.frozen with
    | true => exact run_initialize_of_frozen closure hfrozen
    | false => exact run_initialize_of_open closure hfrozen
  · cases hfrozen : b.frozen with
    | true => rw [endState_error (add_of_frozen r hfrozen)]
    | false =>
      obtain ⟨b', hadd, -, hlookup⟩ := add_of_open r hfrozen
      rw [endState_ok hadd, hlookup, Binding.Registration.codeFor?_of_ne hne, Option.or_none]
  · rw [← hfollows.lookup]
    exact answered_register hr hopen
  · intro entries d hd hcrash
    rw [← hd] at hcrash ⊢
    exact Domain.initializeBindings_alike entries d hcrash

/-- Two registrations for one key, and the freeze. -/
def twice : BindingProgram Unit := do
  let _ ← BindingProgram.add ⟨.arrays, "S.Point", fun _ ↦ pure []⟩
  let _ ← BindingProgram.add ⟨.arrays, "S.Point", fun _ ↦ pure [.null]⟩
  BindingProgram.freeze

theorem tables_write_once_twice :
    (endState (twice.run serve) .empty).frozen = true ∧
    (endState (twice.run serve) .empty).lookup .arrays "S.Point" = some (fun _ ↦ pure []) ∧
    ∀ e, endState ((BindingProgram.ofEntry e).run serve) (endState (twice.run serve) .empty) =
      endState (twice.run serve) .empty := by
  obtain ⟨halike, hstays, -⟩ := tables_write_once twice
  have hfrozen := (halike Bool (.request BindingRequest.isFrozen)).1
  have hread := (halike (Option ArrayFactory) (.request (BindingRequest.read .arrays "S.Point"))).1
  have hledger : endState (twice.run Ledger.serve) .empty =
      ⟨[⟨.arrays, "S.Point", fun _ ↦ pure []⟩, ⟨.arrays, "S.Point", fun _ ↦ pure [.null]⟩],
        true⟩ := by
    simp [twice, BindingProgram.add, BindingProgram.freeze, Program.request, Program.run, bind,
      Program.bind, Program.ofExcept, Ledger.serve, Ledger.empty, endState, pure, EStateM.pure]
  rw [hledger] at hfrozen hread
  exact ⟨hfrozen, hread.trans (by simp [Ledger.first?, Binding.Registration.codeFor?]),
    fun e ↦ hstays hfrozen Bool (.ofEntry e)⟩

/-- A binder without fields. -/
def emptyBinder : StructBinder where
  typeName := "S.Empty"
  fields := []
  write _ := .ok []
  read _ := .ok .unit
  length_write h := by cases h; rfl
  primitive_write h := by cases h; simp

/-- A binder that is the first one for its type gets no answer if an entry that comes with it
fails. -/
theorem first_binder_unanswered : ¬∀ (e : Binding.Entry) (r : Binding.Registration) (b : Bindings),
    e.registration? = some r → b.frozen = false → b.lookup r.table r.key = none →
      ∃ b', register e b = .ok true b' := by
  intro h
  obtain ⟨b', hb'⟩ := h (.binder emptyBinder [.failure .lock]) ⟨.binders, "S.Empty", emptyBinder⟩
    .empty rfl rfl (follows_empty.lookup _ _)
  obtain ⟨b'', hadd, -⟩ :=
    add_of_open (b := .empty) ⟨.binders, emptyBinder.typeName, emptyBinder⟩ rfl
  rw [follows_empty.lookup] at hadd
  exact absurd ((bind_of_ok hadd).symm.trans hb') (by rintro ⟨⟩)

end Bindings

end ManagedMachine
