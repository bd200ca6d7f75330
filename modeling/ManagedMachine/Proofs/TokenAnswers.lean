import ManagedMachine.Proofs.SettledFields
import ManagedMachine.Proofs.Spellings

/-!
What is remembered under type and field tokens. A signature counts as independent of the generic
context exactly if no parameter stands in it, and only then the type is kept under the token. In a
registry whose names can be read and where no two types share one, what was kept is what resolving
the token anew gives. One thing more is asked: a host type is filed under its name and that of its
module with a comma between them, which says how much of it is the name only if there is no other
comma.
-/

set_option autoImplicit false
set_option relaxedAutoImplicit false

namespace ManagedMachine

namespace Registry

open ManagedMachine.TypeName (nested)

variable {r r' r₀ z : Registry} {home : ModuleId} {token : Token} {c d : GenericContext}
    {fuel : Nat}

/-! ### Names with one meaning -/

/-- No host type in use is of a module with a comma in its name. -/
def PlainModules (r : Registry) : Prop :=
  ∀ (i : Nat) d type, r.types[i]? = some d → d.shape = .native type → ',' ∉ type.moduleName.toList

/-- Where a text has a single comma it is cut in one way. -/
theorem eq_of_one_comma {a b s u : String} (hb : ',' ∉ b.toList) (hu : ',' ∉ u.toList)
    (h : a ++ ", " ++ s = b ++ ", " ++ u) : a = b := by
  have hcount (x y : String) : (x ++ ", " ++ y).toList.count ',' =
      x.toList.count ',' + 1 + y.toList.count ',' := by
    simp [Nat.add_assoc, Nat.add_comm 1]
  have hsame := hcount a s
  rw [h, hcount, List.count_eq_zero.mpr hb, List.count_eq_zero.mpr hu] at hsame
  exact eq_of_append_comma (List.count_eq_zero.mp (by omega)) hb h

/-- Where no module has a comma in its name, names say which type of the host is meant. -/
theorem Lucid.unambiguous (h : r.Lucid) (hmodules : r.PlainModules) : r.Unambiguous where
  hosts name scope t ht := by
    obtain ⟨s, rfl, hs⟩ := Option.bind_eq_some_iff.mp ht
    obtain ⟨d, type, hd, hnone, hshape, hname, hscoped⟩ := h.orderly.hosts _ _ hs
    have hplain : ',' ∉ d.name.toList := comma_notMem_of_isPlain
      (isPlain_of_legible (h.legible _ _ hd) hnone (by simp [Descriptor.element?, hshape]))
    rw [HostType.scopedName, ← hname] at hscoped
    have hsame := eq_of_one_comma hplain (hmodules _ _ _ hd hshape) hscoped
    have hthere : r.Has t := (Array.getElem?_eq_some_iff.mp hd).1
    rw [hsame, ← typeName_of_getElem? hd]
    exact h.names_typeName hthere
  nested name t u ht hu := by
    obtain ⟨n, hn, hname⟩ := h.listed.read h.legible _ _ ht
    obtain ⟨m, hm, hmname⟩ := TypeName.parse?_nested hn
    obtain ⟨m', hm', huname⟩ := h.listed.read h.legible _ _ hu
    cases hm.symm.trans hm'
    refine h.distinct t u (h.orderly.present _ _ ht) (h.orderly.present _ _ hu) ?_
    rw [hname, huname, hmname, TypeName.nested_nested]

/-! ### Signatures without parameters -/

theorem isFixed_wrapAround {wrap : TypeId → RegistryM TypeId} {part found : Resolution}
    (hpart : part.isFixed = true) (h : wrapAround wrap true part r = .ok found r') :
    found.isFixed = true := by
  cases part with
  | fixed t =>
    obtain ⟨made, r₁, -, hlast⟩ := exists_of_bind h
    cases hlast
    rfl
  | dependent t | unbound name => cases hpart

mutual

/-- By induction on the signature: without parameters its parts are the same in every context. -/
theorem isFixed_of_closed : (s : Signature) → {r r' : Registry} → {found : Resolution} →
    s.isOpen = false → resolveSignature home c s r = .ok found r' → found.isFixed = true
  | .definition token, r, r', found, _, h => by
    unfold resolveSignature at h
    obtain ⟨t, r₁, -, hlast⟩ := exists_of_bind h
    cases hlast
    rfl
  | .named name scope, r, r', found, _, h => by
    unfold resolveSignature at h
    obtain ⟨t, r₁, -, hlast⟩ := exists_of_bind h
    cases hlast
    rfl
  | .parameter name, _, _, _, hclosed, _ => by cases hclosed
  | .byRef inner, r, r', found, hclosed, h => by
    have hopen : inner.isOpen = false := hclosed
    rw [resolveSignature_byRef, hopen] at h
    obtain ⟨part, r₁, hpart, hrest⟩ := exists_of_bind h
    exact isFixed_wrapAround (isFixed_of_closed inner hopen hpart) hrest
  | .array element rank, r, r', found, hclosed, h => by
    have hopen : element.isOpen = false := hclosed
    rw [resolveSignature_array, hopen] at h
    obtain ⟨part, r₁, hpart, hrest⟩ := exists_of_bind h
    exact isFixed_wrapAround (isFixed_of_closed element hopen hpart) hrest
  | .instantiation head args, r, r', found, hclosed, h => by
    obtain ⟨hhead, hargs⟩ : head.isOpen = false ∧ Signature.anyOpen args = false :=
      Bool.or_eq_false_iff.mp hclosed
    unfold resolveSignature at h
    obtain ⟨part, r₁, hpart, hrest⟩ := exists_of_bind h
    have hfixed := isFixed_of_closed head hhead hpart
    cases part with
    | fixed t =>
      obtain ⟨⟨ts, fixed_⟩, r₂, hts, hrest⟩ := exists_of_bind hrest
      obtain ⟨made, r₃, -, hlast⟩ := exists_of_bind hrest
      rw [fixed_of_allClosed args hargs hts, hclosed] at hlast
      cases hlast
      rfl
    | dependent t | unbound name => cases hfixed
  | .pointer inner, _, _, _, _, h => by
    unfold resolveSignature at h
    cases h
  | .functionPointer, _, _, _, _, h => by
    unfold resolveSignature at h
    cases h

/-- Arguments without a parameter are fixed. -/
theorem fixed_of_allClosed : (signatures : List Signature) → {r r' : Registry} →
    {ts : List TypeId} → {fixed_ : Bool} → Signature.anyOpen signatures = false →
    resolveArguments home c signatures r = .ok (ts, fixed_) r' → fixed_ = true
  | [], _, _, _, _, _, h => by
    unfold resolveArguments at h
    cases h
    rfl
  | s :: rest, r, r', ts, fixed_, hclosed, h => by
    obtain ⟨hs, hrest⟩ : s.isOpen = false ∧ Signature.anyOpen rest = false :=
      Bool.or_eq_false_iff.mp hclosed
    unfold resolveArguments at h
    obtain ⟨part, r₁, hpart, hnext⟩ := exists_of_bind h
    have hfixed := isFixed_of_closed s hs hpart
    cases part with
    | fixed t =>
      change (resolveArguments home c rest >>= _) r₁ = _ at hnext
      obtain ⟨⟨ts', restFixed⟩, r₂, hts, hlast⟩ := exists_of_bind hnext
      rw [fixed_of_allClosed rest hrest hts] at hlast
      cases hlast
      rfl
    | dependent t | unbound name => cases hfixed

end

theorem isFixed_iff {s : Signature} {found : Resolution}
    (h : resolveSignature home c s r = .ok found r') : found.isFixed = true ↔ s.isOpen = false := by
  refine ⟨fun hfixed ↦ ?_, fun hclosed ↦ isFixed_of_closed s hclosed h⟩
  cases found with
  | fixed t => exact isOpen_of_fixed h
  | dependent t | unbound name => cases hfixed

/-! ### Resolving anew -/

/-- A type token, whatever is remembered under it, and whether the type depends on the context. -/
def findTypeToken (home : ModuleId) (token : Token) (c : GenericContext) :
    RegistryM (TypeId × Bool) := do
  let m ← lift (·.module home)
  let s ← lift fun _ => m.typeSignature token
  match ← resolveSignature home c s with
  | .fixed t => return (t, false)
  | .dependent t => return (t, true)
  | .unbound name => throw (.typeNotFound ("!" ++ name))

/-- A field token, whatever is remembered under it, and whether the field depends on the context. -/
def findFieldToken (fuel : Nat) (home : ModuleId) (token : Token) (c : GenericContext) :
    RegistryM (Field × Bool) := do
  let (declaring, name, isStatic, dependent) ← fieldOwner home token c
  let field ← findField fuel declaring name isStatic
  return (field, dependent)

theorem findTypeToken_of_named {name : String} {scope : Option String} {m : Module} {t : TypeId}
    (hmodule : r.module home = .ok m) (hsignature : m.typeSignature token = .ok (.named name scope))
    (h : lookup? name scope r = .ok (some t) r') :
    findTypeToken home token c r = .ok (t, false) r' := by
  rw [findTypeToken, bind_of_ok (lift_of_ok hmodule), bind_of_ok (lift_of_ok hsignature),
    resolveSignature, bind_assoc, bind_of_ok (resolveIn_of_some h)]
  rfl

theorem safe_findTypeToken (home : ModuleId) (token : Token) (hc : r₀.HasContext c) :
    Safe Searches r₀ (findTypeToken home token c) fun _ _ ↦ True := by
  unfold findTypeToken
  refine (Safe.lift (Q := fun _ _ ↦ True) fun _ _ _ _ _ ↦ trivial).bind fun m r₁ hl₁ _ _ ↦ ?_
  refine (Safe.lift (Q := fun _ _ ↦ True) fun _ _ _ _ _ ↦ trivial).bind fun s r₂ hl₂ _ _ ↦ ?_
  refine (settles_resolveSignature (z := r₀) home ((hl₁.trans hl₂).hasContext hc)
    s).toSafe.searches.bind fun found r₃ _ _ _ ↦ ?_
  cases found with
  | fixed t | dependent t => exact .pure fun _ _ _ ↦ trivial
  | unbound name => exact .throw _

theorem safe_findFieldToken (fuel : Nat) (home : ModuleId) (token : Token) (hc : r₀.HasContext c) :
    Safe Searches r₀ (findFieldToken fuel home token c) fun _ _ ↦ True :=
  (safe_fieldOwner home token hc).searches.bind fun _ _ _ _ ht ↦
    (settles_findField (z := r₀) fuel ht _ _).toSafe.bind fun _ _ _ _ _ ↦ .pure fun _ _ _ ↦ trivial

/-- What was found without the context is found alike in any other one. -/
theorem findTypeToken_again {t : TypeId} (hs : r.Sound) (hc : r.HasContext c)
    (hx : findTypeToken home token c r = .ok (t, false) r') (hlast : r'.Later z)
    (hnames : z.Unambiguous) : findTypeToken home token d z = .ok (t, false) z := by
  have hlater := ((safe_findTypeToken home token hc).ok (.refl r) hs hx).1.toLater.trans hlast
  unfold findTypeToken at hx ⊢
  obtain ⟨m, r₁, hm, hread⟩ := exists_of_bind hx
  obtain ⟨hmodule, rfl⟩ := ok_of_lift hm
  obtain ⟨s, r₂, hsignature, hresolve⟩ := exists_of_bind hread
  obtain ⟨hs', rfl⟩ := ok_of_lift hsignature
  obtain ⟨found, r₃, hfound, hend⟩ := exists_of_bind hresolve
  rw [bind_of_ok (lift_of_ok ((hlater.module_eq home).trans hmodule)), bind_of_ok (lift_of_ok hs')]
  cases found with
  | fixed t' =>
    cases hend
    have hfinal := (settles_resolveSignature (z := z) home hc s).again r₂ _ _ (.refl r₂) hs hfound
      hlast hnames
    rw [resolveSignature_closed home c d s (isOpen_of_fixed hfound)] at hfinal
    exact bind_of_ok hfinal
  | dependent t' | unbound name => cases hend

theorem findFieldToken_again {f : Field} (hs : r.Sound) (hc : r.HasContext c)
    (hx : findFieldToken fuel home token c r = .ok (f, false) r') (hlast : r'.Later z)
    (hnames : z.Unambiguous) : findFieldToken fuel home token d z = .ok (f, false) z := by
  obtain ⟨⟨declaring, name, kind, dependent⟩, r₁, howner, hrest⟩ := exists_of_bind hx
  obtain ⟨field, r₂, hfield, hend⟩ := exists_of_bind hrest
  cases hend
  have hsafe := safe_fieldOwner home token hc
  have hs₁ := (hsafe.ok (.refl r) hs howner).2
  have hfound := settles_findField (z := z) fuel (hsafe.yields r _ r₁ (.refl r) hs howner) name kind
  have hlast₁ := (hfound.ok (.refl r₁) hs₁ hfield).1.toLater.trans hlast
  refine (bind_of_ok (fieldOwner_again hs hc howner hlast₁ hnames)).trans ?_
  exact bind_of_ok (hfound.again r₁ _ _ (.refl r₁) hs₁ hfield hlast hnames)

/-! ### Remembering -/

/-- The computation gives what is remembered, and otherwise what it finds, which it remembers if it
does not depend on the context. -/
structure Remembers {α : Type} (x : RegistryM α) (find : RegistryM (α × Bool))
    (look : Registry → Option α) (keep : α → Registry → Registry) : Prop where
  known : ∀ r a, look r = some a → x r = .ok a r
  new : ∀ r, look r = none → x r = (find >>= fun out ↦
    if out.2 then pure out.1 else modify (keep out.1) >>= fun _ ↦ pure out.1) r

namespace Remembers

variable {α : Type} {x : RegistryM α} {find : RegistryM (α × Bool)} {look : Registry → Option α}
  {keep : α → Registry → Registry}

theorem failed (h : Remembers x find look keep) {e : Error} (hlook : look r = none)
    (hfind : find r = .error e r') : x r = .error e r' :=
  (h.new r hlook).trans (bind_of_error hfind)

theorem found (h : Remembers x find look keep) {a : α} {dependent : Bool} (hlook : look r = none)
    (hfind : find r = .ok (a, dependent) r') :
    x r = .ok a (if dependent then r' else keep a r') := by
  rw [h.new r hlook, bind_of_ok hfind]
  cases dependent <;> rfl

/-- What is remembered does not show if it is what would be found. -/
theorem answer_eq (h : Remembers x find look keep)
    (hkept : ∀ a, look r = some a → find r = .ok (a, false) r) :
    answer x r = (answer find r).map Prod.fst := by
  cases hlook : look r with
  | some a => rw [answer_ok (h.known r a hlook), answer_ok (hkept a hlook)]; rfl
  | none =>
    cases hfind : find r with
    | error e r' => rw [answer_error (h.failed hlook hfind), answer_error hfind]; rfl
    | ok out r' =>
      obtain ⟨a, dependent⟩ := out
      rw [answer_ok (h.found hlook hfind), answer_ok hfind]
      rfl

/-- Where it ends: what was found was remembered there, or nothing new was. -/
theorem step (h : Remembers x find look keep) (hs : r.Sound)
    (hfind : Safe Searches r find fun _ _ ↦ True) : ∃ r', r.Searches r' ∧ r'.Sound ∧
      (endState x r = r' ∨ ∃ a, find r = .ok (a, false) r' ∧ endState x r = keep a r') := by
  obtain ⟨hstep, hs'⟩ := hfind.keeps r (.refl r) hs
  cases hlook : look r with
  | some a => exact ⟨r, Forward.refl r, hs, .inl (endState_ok (h.known r a hlook))⟩
  | none =>
    cases hfound : find r with
    | error e r' =>
      rw [endState_error hfound] at hstep hs'
      exact ⟨r', hstep, hs', .inl (endState_error (h.failed hlook hfound))⟩
    | ok out r' =>
      obtain ⟨a, dependent⟩ := out
      rw [endState_ok hfound] at hstep hs'
      have hx := endState_ok (h.found hlook hfound)
      cases dependent with
      | true => exact ⟨r', hstep, hs', .inl hx⟩
      | false => exact ⟨r', hstep, hs', .inr ⟨a, rfl, hx⟩⟩

end Remembers

/-- The registry, with this type as the answer for a token. -/
def keepType (ref : Reference) (t : TypeId) (r : Registry) : Registry :=
  { r with tokens := { r.tokens with types := r.tokens.types.insert ref t } }

/-- The registry, with this field as the answer for a token. -/
def keepField (ref : Reference) (f : Field) (r : Registry) : Registry :=
  { r with tokens := { r.tokens with fields := r.tokens.fields.insert ref f } }

/-- An answer that is remembered for a type token is one that was found for it. -/
theorem remembers_resolveTypeToken (home : ModuleId) (token : Token) (c : GenericContext) :
    Remembers (resolveTypeToken home token c) (findTypeToken home token c)
      (fun r ↦ r.tokens.types[Reference.mk home token]?) (keepType ⟨home, token⟩) where
  known r t h := by
    rw [resolveTypeToken, ask_bind, h]
    rfl
  new r h := by
    rw [resolveTypeToken, ask_bind, h]
    simp only [findTypeToken, bind_assoc]
    refine congrFun (bind_congr fun m ↦ bind_congr fun s ↦ bind_congr fun found ↦ ?_) r
    cases found <;> rfl

theorem remembers_resolveField (fuel : Nat) (home : ModuleId) (token : Token) (c : GenericContext) :
    Remembers (resolveField fuel home token c) (findFieldToken fuel home token c)
      (fun r ↦ r.tokens.fields[Reference.mk home token]?) (keepField ⟨home, token⟩) where
  known r f h := by
    rw [resolveField, ask_bind, h]
    rfl
  new r h := by
    rw [resolveField, ask_bind, h]
    simp only [findFieldToken, bind_assoc]
    refine congrFun (bind_congr fun owner ↦ bind_congr fun f ↦ ?_) r
    cases owner.2.2.2 <;> rfl

/-! ### Histories -/

/-- The registry after tokens of types, fields and methods were resolved one after the other, each
in some context; a resolution that fails counts too. -/
inductive Answering (fuel : Nat) (r₀ : Registry) : Registry → Prop
  | start : Answering fuel r₀ r₀
  | type {r : Registry} (h : Answering fuel r₀ r) (use : TokenUse) (hc : r.HasContext use.context) :
    Answering fuel r₀ (endState (resolveTypeToken use.module use.token use.context) r)
  | field {r : Registry} (h : Answering fuel r₀ r) (use : TokenUse)
      (hc : r.HasContext use.context) :
    Answering fuel r₀ (endState (resolveField fuel use.module use.token use.context) r)
  | method {r : Registry} (h : Answering fuel r₀ r) (use : TokenUse)
      (hc : r.HasContext use.context) :
    Answering fuel r₀ (endState (resolveUse fuel use) r)

/-- What is remembered was found before, in a context of which it was independent. -/
structure Recorded (fuel : Nat) (r : Registry) : Prop where
  types : ∀ (ref : Reference) t, r.tokens.types[ref]? = some t → ∃ c r₁ r₂, r₁.Sound ∧
    r₁.HasContext c ∧ findTypeToken ref.module ref.token c r₁ = .ok (t, false) r₂ ∧ r₂.Later r
  fields : ∀ (ref : Reference) f, r.tokens.fields[ref]? = some f → ∃ c r₁ r₂, r₁.Sound ∧
    r₁.HasContext c ∧ findFieldToken fuel ref.module ref.token c r₁ = .ok (f, false) r₂ ∧ r₂.Later r

/-- What is remembered later was remembered before or was found in between. -/
theorem Recorded.later (h : r.Recorded fuel) (hl : r.Later r')
    (htypes : ∀ (ref : Reference) t, r'.tokens.types[ref]? = some t →
      r.tokens.types[ref]? = some t ∨ ∃ c r₁ r₂, r₁.Sound ∧ r₁.HasContext c ∧
        findTypeToken ref.module ref.token c r₁ = .ok (t, false) r₂ ∧ r₂.Later r')
    (hfields : ∀ (ref : Reference) f, r'.tokens.fields[ref]? = some f →
      r.tokens.fields[ref]? = some f ∨ ∃ c r₁ r₂, r₁.Sound ∧ r₁.HasContext c ∧
        findFieldToken fuel ref.module ref.token c r₁ = .ok (f, false) r₂ ∧ r₂.Later r') :
    r'.Recorded fuel where
  types ref t ht := (htypes ref t ht).elim (fun hold ↦ by
    obtain ⟨c, r₁, r₂, hs, hc, hfind, hlast⟩ := h.types ref t hold
    exact ⟨c, r₁, r₂, hs, hc, hfind, hlast.trans hl⟩) id
  fields ref f hf := (hfields ref f hf).elim (fun hold ↦ by
    obtain ⟨c, r₁, r₂, hs, hc, hfind, hlast⟩ := h.fields ref f hold
    exact ⟨c, r₁, r₂, hs, hc, hfind, hlast.trans hl⟩) id

theorem Recorded.searches (h : r.Recorded fuel) (hl : r.Searches r') : r'.Recorded fuel :=
  h.later hl.toLater (fun _ _ ht ↦ .inl (hl.tokens ▸ ht)) fun _ _ hf ↦ .inl (hl.tokens ▸ hf)

theorem recorded_resolveTypeToken (hs : r.Sound) (h : r.Recorded fuel) (hc : r.HasContext c) :
    (endState (resolveTypeToken home token c) r).Sound ∧
      (endState (resolveTypeToken home token c) r).Recorded fuel := by
  obtain ⟨r', hstep, hs', hend | ⟨t, hfind, hend⟩⟩ :=
    (remembers_resolveTypeToken home token c).step hs (safe_findTypeToken home token hc)
  · rw [hend]
    exact ⟨hs', h.searches hstep⟩
  · have hkeep : r'.Later (keepType ⟨home, token⟩ t r') := later_remember r' _ r'.reached
    rw [hend]
    refine ⟨hs'.remember _ _, (h.searches hstep).later hkeep (fun ref u hu ↦ ?_) fun _ _ ↦ .inl⟩
    rcases getElem?_insert_cases hu with hold | ⟨rfl, rfl⟩
    · exact .inl hold
    · exact .inr ⟨c, r, r', hs, hc, hfind, hkeep⟩

theorem recorded_resolveField (hs : r.Sound) (h : r.Recorded fuel) (hc : r.HasContext c) :
    (endState (resolveField fuel home token c) r).Sound ∧
      (endState (resolveField fuel home token c) r).Recorded fuel := by
  obtain ⟨r', hstep, hs', hend | ⟨f, hfind, hend⟩⟩ :=
    (remembers_resolveField fuel home token c).step hs (safe_findFieldToken fuel home token hc)
  · rw [hend]
    exact ⟨hs', h.searches hstep⟩
  · have hkeep : r'.Later (keepField ⟨home, token⟩ f r') := later_remember r' _ r'.reached
    rw [hend]
    refine ⟨hs'.remember _ _, (h.searches hstep).later hkeep (fun _ _ ↦ .inl) fun ref g hg ↦ ?_⟩
    rcases getElem?_insert_cases hg with hold | ⟨rfl, rfl⟩
    · exact .inl hold
    · exact .inr ⟨c, r, r', hs, hc, hfind, hkeep⟩

/-- Methods are remembered apart. -/
theorem recorded_resolveUse {use : TokenUse} (hs : r.Sound) (h : r.Recorded fuel)
    (hc : r.HasContext use.context) :
    (endState (resolveUse fuel use) r).Sound ∧
    (endState (resolveUse fuel use) r).Recorded fuel := by
  obtain ⟨hstep, hs', -⟩ := resolveUse_step fuel hs hc
  refine ⟨hs', ?_⟩
  have hfinds := (safe_findMethodToken use.module fuel use.token hc).keeps r (.refl r) hs
  cases hknown : r.known? use with
  | some found =>
    rw [endState_ok (resolveUse_of_known hknown)]
    exact h
  | none =>
    cases hfind : findUse fuel use r with
    | error e r₁ =>
      have hfinds : r.Searches r₁ := endState_error hfind ▸ hfinds.1
      rw [endState_error (resolveUse_of_error hknown hfind)]
      exact h.searches hfinds
    | ok out r₁ =>
      obtain ⟨found, dependent⟩ := out
      have hfinds : r.Searches r₁ := endState_ok hfind ▸ hfinds.1
      obtain ⟨r₂, hok, reached, rfl⟩ := resolveUse_of_found hknown hfind
      rw [endState_ok hok]
      exact (h.searches hfinds).later (later_remember ..) (fun _ _ ↦ .inl) fun _ _ ↦ .inl

/-- By induction on the requests for tokens. -/
theorem Answering.recorded (hrun : Answering fuel r₀ r) (hs : r₀.Sound) (h : r₀.Recorded fuel) :
    r.Sound ∧ r.Recorded fuel := by
  induction hrun with
  | start => exact ⟨hs, h⟩
  | type _ use hc ih => exact recorded_resolveTypeToken ih.1 ih.2 hc
  | field _ use hc ih => exact recorded_resolveField ih.1 ih.2 hc
  | method _ use hc ih => exact recorded_resolveUse ih.1 ih.2 hc

theorem Answering.reached (hrun : Answering fuel r₀ r) (h : r₀.Reached) : r.Reached := by
  induction hrun with
  | start => exact h
  | type _ use _ ih => exact ih.step (.resolveTypeToken ..)
  | field _ use _ ih => exact ih.step (.resolveField ..)
  | method _ use _ ih => exact ih.step (.resolveMethod ..)

/-- What is remembered under type and field tokens does not show: after any resolutions in any
contexts a token is resolved as it would be without it. The reason is that a signature counts as
independent of the context exactly if it has no parameter, and then means the same type in all. -/
theorem tokens_answer_anew (h : r₀.Reached) (hs : r₀.Sound)
    (hfresh : ∀ ref : Reference, r₀.tokens.types[ref]? = none ∧ r₀.tokens.fields[ref]? = none)
    (hrun : Answering fuel r₀ r) (hlegible : r.Legible) (hdistinct : r.Distinct)
    (hmodules : r.PlainModules) :
    (∀ home token c, answer (resolveTypeToken home token c) r =
      (answer (findTypeToken home token c) r).map Prod.fst) ∧
    (∀ home token c, answer (resolveField fuel home token c) r =
      (answer (findFieldToken fuel home token c) r).map Prod.fst) ∧
    ∀ home c s found r', resolveSignature home c s r = .ok found r' →
      (found.isFixed = true ↔ s.isOpen = false) ∧
      (found.isFixed = true → ∀ d, resolveSignature home d s r = .ok found r') := by
  have hreached := hrun.reached h
  have hnames := Lucid.unambiguous ⟨hreached.orderly, hreached.listed, hlegible, hdistinct⟩ hmodules
  have hempty : r₀.Recorded fuel :=
    ⟨fun ref t ht ↦ (Option.some_ne_none t (ht.symm.trans (hfresh ref).1)).elim,
      fun ref f hf ↦ (Option.some_ne_none f (hf.symm.trans (hfresh ref).2)).elim⟩
  obtain ⟨-, hrecorded⟩ := hrun.recorded hs hempty
  refine ⟨fun home token c ↦ ?_, fun home token c ↦ ?_, fun home c s found r' hx ↦ ?_⟩
  · refine (remembers_resolveTypeToken home token c).answer_eq fun t ht ↦ ?_
    obtain ⟨c₁, r₁, r₂, hs₁, hc₁, hfind, hlast⟩ := hrecorded.types _ t ht
    exact findTypeToken_again hs₁ hc₁ hfind hlast hnames
  · refine (remembers_resolveField fuel home token c).answer_eq fun f hf ↦ ?_
    obtain ⟨c₁, r₁, r₂, hs₁, hc₁, hfind, hlast⟩ := hrecorded.fields _ f hf
    exact findFieldToken_again hs₁ hc₁ hfind hlast hnames
  · refine ⟨isFixed_iff hx, fun hfixed d ↦ ?_⟩
    rwa [resolveSignature_closed home d c s ((isFixed_iff hx).mp hfixed)]

theorem hasContext_empty : r.HasContext .empty := ⟨nofun, hasArgs_nil⟩

/-- After a type token that was resolved outside of every context. -/
theorem Answering.keepType {t : TypeId} (hrun : Answering fuel r₀ r)
    (hnew : r.tokens.types[Reference.mk home token]? = none)
    (hfind : findTypeToken home token .empty r = .ok (t, false) r') :
    Answering fuel r₀ (Registry.keepType ⟨home, token⟩ t r') := by
  have hnext := hrun.type ⟨home, token, .empty⟩ hasContext_empty
  rwa [endState_ok ((remembers_resolveTypeToken home token .empty).found hnew hfind)] at hnext

/-- The type of cells, by its definition. -/
theorem tokens_answer_anew_cells : ∃ r, (ofCells cellNames).Reached ∧ (ofCells cellNames).Sound ∧
    Answering 2 (ofCells cellNames) r ∧ r.Legible ∧ r.Distinct ∧ r.PlainModules ∧
    r.tokens.types[Reference.mk ⟨0⟩ (Module.typeToken 0)]? = some ⟨0⟩ ∧
    ∀ c, answer (resolveTypeToken ⟨0⟩ (Module.typeToken 0) c) r =
      (answer (findTypeToken ⟨0⟩ (Module.typeToken 0) c) r).map Prod.fst := by
  have hreached : (ofCells cellNames).Reached := by
    rw [← endState_ok loadModule_cells]
    exact Reached.empty.step (.loadModule .cells)
  have hfind (names) : findTypeToken ⟨0⟩ (Module.typeToken 0) .empty (ofCells names) =
      .ok (⟨0⟩, false) (ofCells names) := by cbv
  have hfresh (ref : Reference) : (ofCells cellNames).tokens.types[ref]? = none ∧
      (ofCells cellNames).tokens.fields[ref]? = none :=
    ⟨Std.HashMap.getElem?_empty, Std.HashMap.getElem?_empty⟩
  have hrun : Answering 2 (ofCells cellNames)
      (keepType ⟨⟨0⟩, Module.typeToken 0⟩ ⟨0⟩ (ofCells cellNames)) :=
    Answering.start.keepType (hfresh _).1 (hfind _)
  have htypes : (keepType ⟨⟨0⟩, Module.typeToken 0⟩ ⟨0⟩ (ofCells cellNames)).types.toList =
      [⟨"Cell", .interpreted ⟨⟨0⟩, .cells⟩ (Module.typeToken 0), [], none⟩,
        ⟨"System.Object", .interpreted ⟨⟨0⟩, .cells⟩ (Module.typeToken 1), [], none⟩] := rfl
  have hlegible : (keepType ⟨⟨0⟩, Module.typeToken 0⟩ ⟨0⟩ (ofCells cellNames)).Legible := by
    intro i d hd
    have hmem := htypes ▸ Array.mem_toList_iff.mpr (Array.mem_of_getElem? hd)
    obtain rfl | rfl := by simpa using hmem
    · exact ⟨.simple "Cell" none, .simple (by decide +kernel), (canonical_simple _ _).symm,
        by decide, rfl, rfl⟩
    · exact ⟨.simple "System.Object" none, .simple (by decide +kernel), (canonical_simple _ _).symm,
        by decide, rfl, rfl⟩
  have hdistinct : (keepType ⟨⟨0⟩, Module.typeToken 0⟩ ⟨0⟩ (ofCells cellNames)).Distinct := by
    rintro ⟨t⟩ ⟨u⟩ (ht : t < 2) (hu : u < 2) hname
    interval_cases t <;> interval_cases u <;> first | rfl | exact absurd hname (by decide)
  have hmodules : (keepType ⟨⟨0⟩, Module.typeToken 0⟩ ⟨0⟩ (ofCells cellNames)).PlainModules := by
    intro i d type hd hshape
    have hmem := htypes ▸ Array.mem_toList_iff.mpr (Array.mem_of_getElem? hd)
    obtain rfl | rfl := by simpa using hmem
    · cases hshape
    · cases hshape
  exact ⟨_, hreached, sound_ofCells, hrun, hlegible, hdistinct, hmodules,
    Std.HashMap.getElem?_insert_self,
    fun c ↦ (tokens_answer_anew hreached sound_ofCells hfresh hrun hlegible hdistinct hmodules).1
      ⟨0⟩ (Module.typeToken 0) c⟩

/-- No two types, in use or not, have the same full name: the types in use do not, and a host type
of the name of one that is in use is that type. -/
structure NoNamesakes (r : Registry) : Prop where
  inUse : r.Distinct
  hosts : ∀ m ∈ r.host, ∀ type ∈ m.types, ∀ t, r.Has t → r.typeName t = type.fullName →
    (r.type t).shape = .native type
  host : (r.host.toList.flatMap fun m ↦ m.types.map HostType.fullName).Nodup

end Registry

/-- A host module with a type `Box`. -/
def toolsKit : HostModule := .ofTypes "Tools, Kit" [HostType.plain .class_ "" "Box"]

/-- A module with a type named `Box, Tools`, which it refers to as one of the module `Kit`. It also
refers to the type `Box` of the module `Tools, Kit`. -/
def Module.boxes : Module :=
  { Module.ofTypes "Boxes" #[⟨"", "Box, Tools", .none, none, [], [], #[], #[]⟩] with
    typeSpecs := #[.named "Box, Tools" (some "Kit"), .named "Box" (some "Tools, Kit")] }

namespace Registry

/-- The registry that loading the module leaves. -/
def ofBoxes : Registry :=
  { empty with
    host := #[CoreLibrary.library, toolsKit]
    types := #[⟨"Box, Tools", .interpreted ⟨⟨0⟩, .boxes⟩ (Module.typeToken 0), [], none⟩]
    names := ({} : Std.HashMap String TypeId).insertIfNew "Box, Tools" ⟨0⟩
    modules := #[.boxes]
    definitions := ({} : Std.HashMap Reference TypeId).insert ⟨⟨0⟩, Module.typeToken 0⟩ ⟨0⟩ }

theorem loadModule_boxes :
    loadModule .boxes (endState (addHostModule toolsKit) empty) = .ok ⟨0⟩ ofBoxes := by
  have hname : definitionName ⟨"", "Box, Tools", .none, none, [], [], #[], #[]⟩ =
      "Box, Tools" := by cbv
  simp [loadModule, addDefinitions, Module.boxes, Module.ofTypes, Module.empty, hname, empty,
    addHostModule, endState, addType, addName, ofBoxes, bind, EStateM.bind, get, getThe,
    MonadStateOf.get, EStateM.get, set, EStateM.set, modify, modifyGet, MonadStateOf.modifyGet,
    EStateM.modifyGet, pure, EStateM.pure]

theorem reached_ofBoxes : ofBoxes.Reached ∧ ofBoxes.Sound := by
  have hsound : (endState (addHostModule toolsKit) empty).Sound :=
    ⟨sound_empty.types, sound_empty.methods, sound_empty.names, sound_empty.hosts,
      sound_empty.definitions, sound_empty.bases, sound_empty.declared, sound_empty.instances⟩
  rw [← endState_ok loadModule_boxes]
  exact ⟨(Reached.empty.step (.addHostModule toolsKit)).step (.loadModule .boxes),
    keeps_loadModule .boxes _ hsound⟩

theorem fresh_ofBoxes (ref : Reference) :
    ofBoxes.tokens.types[ref]? = none ∧ ofBoxes.tokens.fields[ref]? = none :=
  ⟨Std.HashMap.getElem?_empty, Std.HashMap.getElem?_empty⟩

theorem typeSignature_boxes :
    Module.boxes.typeSignature (Token.next .typeSpec 0) = .ok (.named "Box, Tools" (some "Kit")) ∧
    Module.boxes.typeSignature (Token.next .typeSpec 1) =
      .ok (.named "Box" (some "Tools, Kit")) := by
  constructor <;> cbv

/-- The first reference means the type of the module, and the second brings the host type into
use. -/
theorem answering_boxes : ∃ r box, Answering 1 ofBoxes r ∧ r.modules = #[.boxes] ∧
    r.host = #[CoreLibrary.library, toolsKit] ∧
    r.types.toList = [⟨"Box, Tools", .interpreted ⟨⟨0⟩, .boxes⟩ (Module.typeToken 0), [], none⟩,
      ⟨"Box", .native box, [], none⟩] ∧ toolsKit.types = [box] ∧
    r.tokens.types[Reference.mk ⟨0⟩ (Token.next .typeSpec 0)]? = some ⟨0⟩ ∧
    r.scoped_["Box, Tools" ++ ", " ++ "Kit"]? = some ⟨1⟩ := by
  obtain ⟨hfirst, hsecond⟩ := typeSignature_boxes
  have hnamed : lookup? "Box, Tools" (some "Kit") ofBoxes = .ok (some ⟨0⟩) ofBoxes := by
    refine lookup?_of_known ?_
    have hscope : ofBoxes.inScope? "Box, Tools" (some "Kit") = none := Std.HashMap.getElem?_empty
    rw [hscope]
    exact getElem?_insertIfNew_of_none Std.HashMap.getElem?_empty
  obtain ⟨r, hr⟩ : ∃ r, r = keepType ⟨⟨0⟩, Token.next .typeSpec 0⟩ ⟨0⟩ ofBoxes := ⟨_, rfl⟩
  have hrun : Answering 1 ofBoxes r := hr ▸ Answering.start.keepType (fresh_ofBoxes _).1
    (findTypeToken_of_named (m := .boxes) rfl hfirst hnamed)
  obtain ⟨box, hkit, hfind, hname, hscopedName⟩ : ∃ box, toolsKit.types = [box] ∧
      HostLibrary.find? ofBoxes.host.toList "Box" (some "Tools, Kit") = some box ∧
      box.fullName = "Box" ∧ box.scopedName = "Box, Tools" ++ ", " ++ "Kit" :=
    ⟨_, rfl, rfl, rfl, by decide⟩
  obtain ⟨r₁, hmade, backed, hr₁⟩ := ofHostType_of_new
    (show r.scoped_[box.scopedName]? = none from hr ▸ Std.HashMap.getElem?_empty)
  have hboxed : lookup? "Box" (some "Tools, Kit") r = .ok (some ⟨r.types.size⟩) r₁ := by
    refine lookup?_of_host ?_ (hr ▸ hfind) hmade
    have hscope : r.inScope? "Box" (some "Tools, Kit") = none := hr ▸ Std.HashMap.getElem?_empty
    rw [hscope, hr]
    exact (Std.HashMap.getElem?_insertIfNew ..).trans
      ((if_neg (by decide)).trans Std.HashMap.getElem?_empty)
  have hnew : r.tokens.types[Reference.mk ⟨0⟩ (Token.next .typeSpec 1)]? = none := by
    rw [hr]
    exact (Std.HashMap.getElem?_insert ..).trans
      ((if_neg (by decide)).trans Std.HashMap.getElem?_empty)
  have hrun₁ := hrun.keepType hnew
    (findTypeToken_of_named (m := .boxes) (hr ▸ rfl) hsecond hboxed)
  refine ⟨_, box, hrun₁, ?_⟩
  subst hr₁ hr
  refine ⟨rfl, rfl, ?_, hkit, ?_, ?_⟩
  · change [_, _] = _
    rw [hname]
  · exact getElem?_insert_of_some hnew Std.HashMap.getElem?_insert_self
  · rw [← hscopedName]
    exact Std.HashMap.getElem?_insert_self

/-- No two types of the sample share a name. -/
theorem noNamesakes_boxes {r : Registry} {box : HostType}
    (hhost : r.host = #[CoreLibrary.library, toolsKit])
    (htypes : r.types.toList =
      [⟨"Box, Tools", .interpreted ⟨⟨0⟩, .boxes⟩ (Module.typeToken 0), [], none⟩,
        ⟨"Box", .native box, [], none⟩]) (hkit : toolsKit.types = [box]) : r.NoNamesakes := by
  have htype (t : TypeId) (ht : r.Has t) :
      t = ⟨0⟩ ∧
      r.type t = ⟨"Box, Tools", .interpreted ⟨⟨0⟩, .boxes⟩ (Module.typeToken 0), [], none⟩ ∨
        t = ⟨1⟩ ∧ r.type t = ⟨"Box", .native box, [], none⟩ := by
    have hsome := getElem?_of_has ht
    rw [← Array.getElem?_toList, htypes] at hsome
    obtain ⟨i⟩ := t
    match i with
    | 0 | 1 => simpa using hsome.symm
    | i + 2 => simp at hsome
  have hcore : ∀ name ∈ CoreLibrary.library.types.map HostType.fullName,
      name ≠ "Box" ∧ name ≠ "Box, Tools" := by decide
  have hbox : box.fullName = "Box" := by
    have hnames : toolsKit.types.map HostType.fullName = ["Box"] := rfl
    rw [hkit] at hnames
    exact List.singleton_inj.mp hnames
  constructor
  case inUse =>
    intro t u ht hu hname
    unfold typeName at hname
    rcases htype t ht with ⟨rfl, htt⟩ | ⟨rfl, htt⟩ <;>
      rcases htype u hu with ⟨rfl, huu⟩ | ⟨rfl, huu⟩
    · rfl
    · exact absurd hname (by simp [htt, huu])
    · exact absurd hname (by simp [htt, huu])
    · rfl
  case hosts =>
    intro m hm type hmem t ht hname
    rw [hhost] at hm
    unfold typeName at hname
    obtain rfl | rfl := by simpa using hm
    · have hother := hcore _ (List.mem_map_of_mem hmem)
      rw [← hname] at hother
      rcases htype t ht with ⟨-, htt⟩ | ⟨-, htt⟩ <;> simp [htt] at hother
    · obtain rfl := List.mem_singleton.mp (hkit ▸ hmem)
      rcases htype t ht with ⟨-, htt⟩ | ⟨-, htt⟩
      · rw [htt, hbox] at hname
        exact absurd hname (by decide)
      · rw [htt]
  case host =>
    rw [hhost]
    change (CoreLibrary.library.types.map HostType.fullName ++ ["Box"]).Nodup
    decide

/-- A host type is filed under its name and the name of its module, which together may read as the
name of another type in another module. That type is meant until the host type comes into use, and
is remembered under the token that names it so. -/
theorem filed_alike : ¬∀ (fuel : Nat) (r₀ r : Registry) (home : ModuleId) (token : Token)
    (c : GenericContext), r₀.Reached → r₀.Sound →
    (∀ ref : Reference, r₀.tokens.types[ref]? = none ∧ r₀.tokens.fields[ref]? = none) →
    Answering fuel r₀ r → r.NoNamesakes →
    answer (resolveTypeToken home token c) r =
      (answer (findTypeToken home token c) r).map Prod.fst := by
  intro h
  obtain ⟨r, box, hrun, hmodules, hhost, htypes, hkit, hknown, hfiled⟩ := answering_boxes
  have hnamesakes : r.NoNamesakes := noNamesakes_boxes hhost htypes hkit
  have hsame := h 1 _ _ ⟨0⟩ (Token.next .typeSpec 0) .empty reached_ofBoxes.1 reached_ofBoxes.2
    fresh_ofBoxes hrun hnamesakes
  have hanew : lookup? "Box, Tools" (some "Kit") r = .ok (some ⟨1⟩) r := by
    refine lookup?_of_known ?_
    have hscope : r.inScope? "Box, Tools" (some "Kit") = some ⟨1⟩ := hfiled
    rw [hscope]
    rfl
  have hmodule : r.module ⟨0⟩ = .ok .boxes := by
    rw [Registry.module, hmodules]
    rfl
  rw [answer_ok ((remembers_resolveTypeToken ..).known _ _ hknown),
    answer_ok (findTypeToken_of_named hmodule typeSignature_boxes.1 hanew)] at hsame
  exact absurd hsame (by decide)

end Registry

end ManagedMachine
