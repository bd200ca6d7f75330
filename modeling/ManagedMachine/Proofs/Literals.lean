import ManagedMachine.Proofs.Interning
import ManagedMachine.Proofs.OrderlyNames

/-!
# Literals of modules

A string token means a literal of its module for ever. The registry keeps the texts of all modules
in one table of interned strings, and under a token only the key of its text. `Registry.Told` says
how the two belong together: the table is what interning the texts of some tokens makes of an empty
one, and the key of a token was returned when its text was interned.

What a token was answered with is remembered under its key only, so the argument goes through the
texts that were told to the table: `Told.withText` is the step for a text, `Reached.told` the
induction over histories, and `Told.literate` what follows for tokens, if there are not too many
texts.
-/

set_option autoImplicit false
set_option relaxedAutoImplicit false

namespace ManagedMachine

namespace Registry

open InternTable (Call after told)

variable {r r' : Registry} {ref : Reference} {k : UInt64} {s : String} {texts : List String}

/-- What a token reads as in its module. -/
def literal (r : Registry) (ref : Reference) : Except Error String := do
  let m ← r.module ref.module
  m.userString ref.token

/-- The literals of all modules. -/
def literals (r : Registry) : List String := r.modules.toList.flatMap (·.userStrings.toList)

/-- Fewer literals share a hash than there are counters. -/
def FewTexts (r : Registry) : Prop := ∀ h, (told fnv1a (r.literals.map .intern) h).length < 2 ^ 32

theorem mem_texts : Call.intern s ∈ texts.map Call.intern ↔ s ∈ texts := by
  simp only [List.mem_map, Call.intern.injEq, exists_eq_right]

/-- The literals of a registry are those of its modules. -/
theorem mem_literals (h : r.literal ref = .ok s) : s ∈ r.literals := by
  unfold literal at h
  cases hm : r.module ref.module with
  | error e =>
    rw [hm] at h
    cases h
  | ok m =>
    rw [hm] at h
    change m.userString ref.token = .ok s at h
    have hmodule : m ∈ r.modules.toList := by
      unfold Registry.module at hm
      split at hm
      · next hfound =>
        cases hm
        exact Array.mem_toList_iff.mpr (Array.mem_of_getElem? hfound)
      · cases hm
    refine List.mem_flatMap.mpr ⟨m, hmodule, ?_⟩
    unfold Module.userString Module.rowAt at h
    split at h
    · next hrow =>
      cases h
      split at hrow
      · obtain ⟨i, -, hi⟩ := Option.bind_eq_some_iff.mp hrow
        exact Array.mem_toList_iff.mpr (Array.mem_of_getElem? hi)
      · cases hrow
    · cases h

/-! ### What is interned -/

/-- The key that the last of some texts gets when they are interned in order. -/
def keyAfter (texts : List String) (s : String) : UInt64 :=
  ((after fnv1a (texts.map .intern)).intern s).1

/-- The table holds the texts of tokens, and tokens have the keys of their texts. -/
structure Told (r : Registry) (texts : List String) : Prop where
  strings : r.strings = after fnv1a (texts.map .intern)
  known : ∀ ref k, r.tokens.strings[ref]? = some k → ∃ earlier s later,
    texts = earlier ++ s :: later ∧ k = keyAfter earlier s ∧ r.literal ref = .ok s
  asked : ∀ s ∈ texts, ∃ ref k, r.tokens.strings[ref]? = some k ∧ r.literal ref = .ok s

/-- No literal was looked up in between, though modules may have been loaded. -/
structure Unread (r r' : Registry) : Prop where
  literal : ∀ ref s, r.literal ref = .ok s → r'.literal ref = .ok s
  strings : r'.strings = r.strings
  texts : r'.tokens.strings = r.tokens.strings

theorem Unread.of_eq (hmodules : r'.modules = r.modules) (hstrings : r'.strings = r.strings)
    (htexts : r'.tokens.strings = r.tokens.strings) : r.Unread r' :=
  ⟨fun ref s hs ↦ by rwa [Registry.literal, Registry.module, hmodules], hstrings, htexts⟩

instance : Adding Unread where
  refl _ := .of_eq rfl rfl rfl
  trans _ _ _ h h' := ⟨fun ref s hs ↦ h'.literal ref s (h.literal ref s hs),
    h'.strings.trans h.strings, h'.texts.trans h.texts⟩
  addType _ _ := .of_eq rfl rfl rfl
  addName _ _ := .modify fun _ ↦ .of_eq rfl rfl rfl
  aside _ _ _ _ hmodules hstrings htokens := .of_eq hmodules hstrings (htokens ▸ rfl)

theorem unread_push (r : Registry) (m : Module) :
    r.Unread { r with modules := r.modules.push m } where
  literal ref s hs := by
    unfold Registry.literal Registry.module at hs ⊢
    dsimp only
    cases hm : r.modules[ref.module.index]? with
    | none =>
      rw [hm] at hs
      cases hs
    | some home =>
      rw [hm] at hs
      rw [getElem?_push_of_some hm]
      exact hs
  strings := rfl
  texts := rfl

theorem Told.unread (h : r.Told texts) (hr : r.Unread r') : r'.Told texts where
  strings := hr.strings.trans h.strings
  known ref k hk := by
    rw [hr.texts] at hk
    obtain ⟨earlier, s, later, htexts, hkey, hs⟩ := h.known ref k hk
    exact ⟨earlier, s, later, htexts, hkey, hr.literal ref s hs⟩
  asked s hs := by
    obtain ⟨ref, k, hk, hliteral⟩ := h.asked s hs
    exact ⟨ref, k, hr.texts ▸ hk, hr.literal ref s hliteral⟩

theorem told_empty : empty.Told [] where
  strings := rfl
  known _ _ h := nomatch Std.HashMap.getElem?_empty.symm.trans h
  asked _ h := nomatch h

/-! ### Looking up -/

/-- The text under the key of a token. -/
def knownText? (r : Registry) (ref : Reference) : Option String :=
  (r.tokens.strings[ref]?).bind r.strings.get?

/-- The registry after a text was interned for a token. -/
def withText (r : Registry) (ref : Reference) (s : String) : Registry :=
  { r with
    strings := (r.strings.intern s).2
    tokens := { r.tokens with strings := r.tokens.strings.insert ref (r.strings.intern s).1 } }

theorem resolveString_of_known {home : ModuleId} {token : Token}
    (h : r.knownText? ⟨home, token⟩ = some s) : resolveString home token r = .ok s r := by
  refine (bind_of_ok rfl).trans ?_
  unfold knownText? at h
  rw [h]
  rfl

/-- A token that stands for no literal is refused. -/
theorem resolveString_of_error {home : ModuleId} {token : Token} {e : Error}
    (h : r.knownText? ⟨home, token⟩ = none) (he : r.literal ⟨home, token⟩ = .error e) :
    resolveString home token r = .error e r := by
  refine (bind_of_ok rfl).trans ?_
  unfold knownText? at h
  rw [h]
  dsimp only
  unfold literal at he
  cases hm : r.module home with
  | error e' =>
    rw [hm] at he
    cases he
    exact bind_of_error (by rw [lift, hm])
  | ok m =>
    rw [hm] at he
    change m.userString token = .error e at he
    exact (bind_of_ok (by rw [lift, hm])).trans (bind_of_error (by rw [lift, he]))

/-- A token that is resolved for the first time has its text interned. -/
theorem resolveString_of_literal {home : ModuleId} {token : Token}
    (h : r.knownText? ⟨home, token⟩ = none) (hs : r.literal ⟨home, token⟩ = .ok s) :
    resolveString home token r = .ok
      (((r.strings.intern s).2.get? (r.strings.intern s).1).getD s)
      (r.withText ⟨home, token⟩ s) := by
  refine (bind_of_ok rfl).trans ?_
  unfold knownText? at h
  rw [h]
  dsimp only
  unfold literal at hs
  cases hm : r.module home with
  | error e =>
    rw [hm] at hs
    cases hs
  | ok m =>
    rw [hm] at hs
    change m.userString token = .ok s at hs
    exact (bind_of_ok (by rw [lift, hm])).trans ((bind_of_ok (by rw [lift, hs])).trans rfl)

theorem modules_resolveString (r : Registry) (home : ModuleId) (token : Token) :
    (endState (resolveString home token) r).modules = r.modules := by
  cases hknown : r.knownText? ⟨home, token⟩ with
  | some s => rw [endState_ok (resolveString_of_known hknown)]
  | none =>
    cases hs : r.literal ⟨home, token⟩ with
    | error e => rw [endState_error (resolveString_of_error hknown hs)]
    | ok s =>
      rw [endState_ok (resolveString_of_literal hknown hs)]
      rfl

/-- One more text has been told to the table. -/
theorem Told.withText (h : r.Told texts) (hs : r.literal ref = .ok s) :
    (r.withText ref s).Told (texts ++ [s]) where
  strings := by
    rw [List.map_append, InternTable.after_append, ← h.strings]
    rfl
  known ref' k hk := by
    change (r.tokens.strings.insert ref (r.strings.intern s).1)[ref']? = some k at hk
    rw [Std.HashMap.getElem?_insert] at hk
    split at hk
    · next href =>
      obtain rfl := eq_of_beq href
      refine ⟨texts, s, [], rfl, ?_, hs⟩
      rw [keyAfter, ← h.strings]
      exact (Option.some.inj hk).symm
    · obtain ⟨earlier, s', later, htexts, hkey, hs'⟩ := h.known ref' k hk
      exact ⟨earlier, s', later ++ [s], by rw [htexts, List.append_assoc]; rfl, hkey, hs'⟩
  asked s' hs' := by
    have hinsert (ref' : Reference) : (r.tokens.strings.insert ref (r.strings.intern s).1)[ref']? =
        if ref == ref' then some (r.strings.intern s).1 else r.tokens.strings[ref']? :=
      Std.HashMap.getElem?_insert
    rcases List.mem_append.mp hs' with hold | hnew
    · obtain ⟨ref', k, hk, hliteral⟩ := h.asked s' hold
      by_cases href : ref = ref'
      · subst href
        exact ⟨ref, _, (hinsert ref).trans (if_pos (beq_self_eq_true ref)), hliteral⟩
      · exact ⟨ref', k, (hinsert ref').trans ((if_neg (by simpa using href)).trans hk), hliteral⟩
    · obtain rfl := List.mem_singleton.mp hnew
      exact ⟨ref, _, (hinsert ref).trans (if_pos (beq_self_eq_true ref)), hs⟩

/-! ### Histories -/

/-- The registry is still told if it was. -/
def KeepsTold (r r' : Registry) : Prop := (∃ texts, r.Told texts) → ∃ texts, r'.Told texts

theorem Unread.keepsTold (h : r.Unread r') : r.KeepsTold r' :=
  fun ⟨texts, htold⟩ ↦ ⟨texts, htold.unread h⟩

theorem keepsTold_of {α : Type} {x : RegistryM α} (h : Keeps Unread x) : Keeps KeepsTold x :=
  h.mono fun _ _ ↦ Unread.keepsTold

instance : Building KeepsTold where
  refl _ := id
  trans _ _ _ h h' := h' ∘ h
  makeArray e rank := keepsTold_of (Building.makeArray e rank)
  makeByRef e := keepsTold_of (Building.makeByRef e)
  makeParameter s := keepsTold_of (Building.makeParameter s)
  makeInstance t args := keepsTold_of (Building.makeInstance t args)
  ofHostType type := keepsTold_of (Building.ofHostType type)

theorem keepsTold_resolveString (home : ModuleId) (token : Token) :
    Keeps KeepsTold (resolveString home token) := by
  rintro r ⟨texts, h⟩
  cases hknown : r.knownText? ⟨home, token⟩ with
  | some s =>
    rw [endState_ok (resolveString_of_known hknown)]
    exact ⟨texts, h⟩
  | none =>
    cases hs : r.literal ⟨home, token⟩ with
    | error e =>
      rw [endState_error (resolveString_of_error hknown hs)]
      exact ⟨texts, h⟩
    | ok s =>
      rw [endState_ok (resolveString_of_literal hknown hs)]
      exact ⟨_, h.withText hs⟩

instance : Growth KeepsTold where
  resolve name := keepsTold_of (keeps_resolve name)
  resolveString := keepsTold_resolveString
  notes h := (Unread.of_eq h.modules h.strings h.texts).keepsTold

/-- By induction on the history. Nothing but resolving a string tells the table anything. -/
theorem Reached.told (h : r.Reached) : ∃ texts, r.Told texts := by
  induction h with
  | empty => exact ⟨[], told_empty⟩
  | step _ hx ih =>
    refine hx.keeps (R := KeepsTold) (fun m ↦ ?_) (fun m ↦ ?_) (fun f ↦ ?_) _ ih
    · exact keepsTold_of (grows_loadModule m fun r ↦ unread_push r m)
    · exact keepsTold_of (.modify fun _ ↦ .of_eq rfl rfl rfl)
    · exact keepsTold_of (.modify fun _ ↦ .of_eq rfl rfl rfl)

/-! ### What tokens read as -/

theorem Told.few (h : r.Told texts) (hfew : r.FewTexts) (hash : UInt32) :
    (told fnv1a (texts.map .intern) hash).length < 2 ^ 32 := by
  refine (List.Subperm.length_le ?_).trans_lt (hfew hash)
  refine (InternTable.nodup_told _ _ _).subperm fun s hs ↦ ?_
  obtain ⟨hmem, hhash⟩ := InternTable.mem_told.mp hs
  obtain ⟨ref, k, -, hliteral⟩ := h.asked s (mem_texts.mp hmem)
  exact InternTable.mem_told.mpr ⟨mem_texts.mpr (mem_literals hliteral), hhash⟩

theorem Told.faithful (h : r.Told texts) (hfew : r.FewTexts) :
    InternTable.Faithful fnv1a (texts.map .intern) :=
  InternTable.faithful (h.few hfew)

theorem Told.get_of_known (h : r.Told texts) (hfew : r.FewTexts)
    (hk : r.tokens.strings[ref]? = some k) : ∃ s, r.strings.get? k = some s ∧
    r.literal ref = .ok s := by
  obtain ⟨earlier, s, later, rfl, rfl, hs⟩ := h.known ref k hk
  refine ⟨s, ?_, hs⟩
  rw [h.strings, List.map_append, List.map_cons]
  exact (h.faithful hfew).held (earlier.map .intern) (later.map .intern) [] s
    (by rw [List.map_append, List.map_cons, List.append_nil])

/-- A text has one key. -/
theorem Told.key_unique (h : r.Told texts) (hfew : r.FewTexts) {k' : UInt64}
    (hk : r.strings.get? k = some s) (hk' : r.strings.get? k' = some s) : k = k' := by
  have hf := h.faithful hfew
  obtain ⟨c, hash, rfl⟩ := hf.keys k
  obtain ⟨c', hash', rfl⟩ := hf.keys k'
  rw [h.strings, hf.get] at hk hk'
  have hhash := (InternTable.mem_told.mp (List.mem_of_getElem? hk)).2
  have hhash' := (InternTable.mem_told.mp (List.mem_of_getElem? hk')).2
  obtain rfl := hhash.symm.trans hhash'
  obtain ⟨hc, -⟩ := List.getElem?_eq_some_iff.mp hk
  have hsame : c.toNat = c'.toNat :=
    (List.getElem?_inj hc (InternTable.nodup_told _ _ _)).mp (hk.trans hk'.symm)
  rw [UInt32.toNat_inj.mp hsame]

theorem Told.known_of_get (h : r.Told texts) (hfew : r.FewTexts) (hk : r.strings.get? k = some s) :
    ∃ ref : Reference, r.tokens.strings[ref]? = some k := by
  have hf := h.faithful hfew
  obtain ⟨c, hash, hkey⟩ := hf.keys k
  have hheld := hk
  rw [h.strings, hkey, hf.get] at hheld
  have hs : s ∈ texts := mem_texts.mp (InternTable.mem_told.mp (List.mem_of_getElem? hheld)).1
  obtain ⟨ref, k', hk', hliteral⟩ := h.asked s hs
  obtain ⟨s', hget, hliteral'⟩ := h.get_of_known hfew hk'
  cases hliteral.symm.trans hliteral'
  exact ⟨ref, h.key_unique hfew hk hget ▸ hk'⟩

/-- Tokens read as the literals of their modules, and each text is there once. -/
structure Literate (r : Registry) : Prop where
  /-- A token that means a literal is resolved to it, and its text is known from then on. -/
  reads : ∀ home token s, r.literal ⟨home, token⟩ = .ok s → ∃ r',
    resolveString home token r = .ok s r' ∧ r'.knownText? ⟨home, token⟩ = some s
  fails : ∀ home token e, r.literal ⟨home, token⟩ = .error e →
    resolveString home token r = .error e r
  known : ∀ ref k, r.tokens.strings[ref]? = some k →
    ∃ s, r.strings.get? k = some s ∧ r.literal ref = .ok s
  /-- Every text that is held is the literal of a token, and has one key. -/
  held : ∀ k s, r.strings.get? k = some s → ∃ ref : Reference, r.tokens.strings[ref]? = some k
  once : ∀ k k' s, r.strings.get? k = some s → r.strings.get? k' = some s → k = k'

/-- If no more texts were told than there are counters, each key leads to its text. -/
theorem Told.literate (h : r.Told texts) (hfew : r.FewTexts) : r.Literate where
  reads home token s hs := by
    cases hknown : r.knownText? ⟨home, token⟩ with
    | some s' =>
      obtain ⟨k, hk, hget⟩ := Option.bind_eq_some_iff.mp hknown
      obtain ⟨s'', hget', hs'⟩ := h.get_of_known hfew hk
      cases hs.symm.trans hs'
      cases hget.symm.trans hget'
      exact ⟨r, resolveString_of_known hknown, hknown⟩
    | none =>
      have hget : (r.strings.intern s).2.get? (r.strings.intern s).1 = some s := by
        have hf := (h.withText hs).faithful hfew
        have hheld := hf.held (texts.map .intern) [] [] s (by rw [List.map_append]; rfl)
        rw [InternTable.after_append, ← h.strings] at hheld
        exact hheld
      refine ⟨_, (resolveString_of_literal hknown hs).trans (by rw [hget]; rfl), ?_⟩
      have hinsert : (r.withText ⟨home, token⟩ s).tokens.strings[Reference.mk home token]? =
          some (r.strings.intern s).1 := Std.HashMap.getElem?_insert_self
      rw [knownText?, hinsert]
      exact hget
  fails home token e he := by
    cases hknown : r.knownText? ⟨home, token⟩ with
    | some s =>
      obtain ⟨k, hk, -⟩ := Option.bind_eq_some_iff.mp hknown
      obtain ⟨s', -, hs⟩ := h.get_of_known hfew hk
      cases he.symm.trans hs
    | none => exact resolveString_of_error hknown he
  known _ _ := h.get_of_known hfew
  held _ _ := h.known_of_get hfew
  once _ _ _ := h.key_unique hfew

theorem fewTexts_of_length (h : r.literals.length < 2 ^ 32) : r.FewTexts := fun hash ↦
  (InternTable.length_told_le fnv1a _ hash).trans_lt (by rwa [List.length_map])

end Registry

/-- Interning answers as a list of strings for each hash would, and tokens read as the literals of
their modules. -/
theorem interning_faithful :
    (∀ hash calls, (∀ h, (InternTable.told hash calls h).length < 2 ^ 32) →
      InternTable.Faithful hash calls) ∧
    ∀ r : Registry, r.Reached → r.FewTexts → r.Literate :=
  ⟨fun _ _ ↦ InternTable.faithful, fun _ hr hfew ↦
    let ⟨_, htold⟩ := hr.told
    htold.literate hfew⟩

/-- A module with two literals, the second of which is as in every such module. -/
def Module.greeting (name first : String) : Module :=
  { empty name with userStrings := #[first, "hello"] }

/-- The registry after the same text was looked up in two modules. -/
def Registry.greetings : Registry :=
  endState (resolveString ⟨1⟩ (Token.next .userString 1)) <|
    endState (resolveString ⟨0⟩ (Token.next .userString 1)) <|
      endState (loadModule (.greeting "B" "b")) (endState (loadModule (.greeting "A" "a")) empty)

theorem Registry.reached_greetings : greetings.Reached :=
  .step (.step (.step (.step .empty (.loadModule _)) (.loadModule _)) (.resolveString _ _))
    (.resolveString _ _)

theorem Registry.modules_greetings :
    greetings.modules = #[.greeting "A" "a", .greeting "B" "b"] := by
  rw [greetings, modules_resolveString, modules_resolveString]
  rfl

/-- Three strings of one hash, one of which comes twice, and one text of two modules. -/
theorem interning_faithful_colliding :
    InternTable.Faithful (fun _ ↦ 7) [.intern "a", .intern "b", .get 7, .intern "a", .intern "c"] ∧
    InternTable.told (fun _ ↦ 7) [.intern "a", .intern "b", .get 7, .intern "a", .intern "c"] 7 =
      ["a", "b", "c"] ∧
    Registry.greetings.Literate ∧
    Registry.greetings.literal ⟨⟨0⟩, Token.next .userString 1⟩ = .ok "hello" ∧
    Registry.greetings.literal ⟨⟨1⟩, Token.next .userString 1⟩ = .ok "hello" := by
  have hfew (h : UInt32) : (InternTable.told (fun _ ↦ 7)
      [.intern "a", .intern "b", .get 7, .intern "a", .intern "c"] h).length < 2 ^ 32 :=
    (InternTable.length_told_le _ _ h).trans_lt (by decide)
  have hliterals : Registry.greetings.literals.length = 4 := by
    rw [Registry.literals, Registry.modules_greetings]
    rfl
  refine ⟨interning_faithful.1 _ _ hfew, by decide, ?_, ?_, ?_⟩
  · exact interning_faithful.2 _ Registry.reached_greetings
      (Registry.fewTexts_of_length (by rw [hliterals]; decide))
  · rw [Registry.literal, Registry.module, Registry.modules_greetings]
    rfl
  · rw [Registry.literal, Registry.module, Registry.modules_greetings]
    rfl

end ManagedMachine
