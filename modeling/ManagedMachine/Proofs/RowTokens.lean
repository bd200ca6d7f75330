import ManagedMachine.Proofs.RowTables

/-!
# Tokens and rows

A module is built by calls, and each call that adds a row gives back the token of that row. The log
of the calls and their answers says what the tables have to hold: `Module.tokens_address_rows` is
that they hold just that. As long as no table has more rows than a token can number, all tokens that
were given out are different, each of them leads to the row of the call that gave it out, and no
other token leads to a row of the tables.

`Module.Recorded` says what stands in the tables in terms of the log: a type has the fields and the
methods that were defined for it, in order, and their tokens next to them, and the place of a field
or a method leads back to where its type has it.
-/

set_option autoImplicit false
set_option relaxedAutoImplicit false

namespace ManagedMachine

/-- The row of a method, with another body. -/
def OwnedRow.withBody (row : OwnedRow MethodDef) (b : Body) : OwnedRow MethodDef :=
  { row with row := { row.row with body := some b } }

/-- What the row of a type says apart from its methods. -/
def TypeDef.withoutMethods (d : TypeDef) : TypeDef := { d with methods := #[] }

namespace Module

variable {α : Type} {rows : Array α} {i : Nat}
variable {m m' : Module} {log log' : Log} {c : Call} {answer : ModuleDescription.Row} {k : Nat}
  {owner : Token} {name : String}

/-! ### Rows in terms of the log -/

namespace Log

/-- The tokens that the calls returned. -/
def tokens (log : Log) : List Token :=
  log.filterMap fun (_, row) ↦ match row with
    | .ok token => token
    | .error _ => none

/-- The rows that were defined in a table, with their tokens. -/
def rowsOf (log : Log) (table : Table) : List (Token × Call) :=
  log.filterMap fun (c, row) ↦ match row with
    | .ok (some t) => if c.table? = some table then some (t, c) else none
    | _ => none

/-- The body that a method was given last. -/
def body? (log : Log) (method : Token) : Option Body :=
  (log.filterMap fun
    | (.body target b, .ok _) => if target = method then some b else none
    | _ => none).getLast?

/-- The fields that were defined for a type, in order, with their tokens. -/
def fieldsOf (log : Log) (owner : Token) : List (Token × FieldDef) :=
  log.filterMap fun
    | (.field o d, .ok (some t)) => if o = owner then some (t, d) else none
    | _ => none

/-- The methods that were defined for a type, in order, with their tokens. `bodies` are the bodies
that were set since. -/
def methodsWith (bodies : Token → Option Body) (log : Log) (owner : Token) :
    List (Token × MethodDef) :=
  log.filterMap fun
    | (.method o d, .ok (some t)) =>
      if o = owner then some (t, { d with body := bodies t <|> d.body }) else none
    | _ => none

/-- The methods that were defined for a type, with the bodies that they were given last. -/
def methodsOf (log : Log) (owner : Token) : List (Token × MethodDef) :=
  log.methodsWith log.body? owner

/-- The row of a type after the calls: what was defined for it has been added to its definition. -/
def typeRow (log : Log) (t : Token) (d : TypeDef) : TypeDef :=
  { d with
    fields := ((log.fieldsOf t).map Prod.snd).toArray
    methods := ((log.methodsOf t).map Prod.snd).toArray }

end Log

/-- How many rows the table has. -/
def count (m : Module) : Table → Nat
  | .typeRef => 0
  | .typeDef => m.types.size
  | .field => m.fieldPlaces.size
  | .methodDef => m.methodPlaces.size
  | .memberRef => m.memberRefs.size
  | .typeSpec => m.typeSpecs.size
  | .methodSpec => m.methodSpecs.size
  | .userString => m.userStrings.size

/-- Every table has fewer rows than a token can tell apart. -/
def Small (m : Module) : Prop := ∀ table, m.count table < 2 ^ 24

/-- The token looks up what the call defined: a type with all fields and methods that were defined
for it since, in order, a field or a method at its place among those of its type. A method has the
body that it was given last. -/
def Shows (m : Module) (log : Log) (t : Token) : Call → Prop
  | .type d => m.typeDef t = .ok (log.typeRow t d) ∧ m.typeSignature t = .ok (.definition t) ∧
      m.fieldTokens t = .ok ((log.fieldsOf t).map Prod.fst) ∧ m.fieldsOf t = .ok (log.fieldsOf t) ∧
      m.methodTokens t = .ok ((log.methodsOf t).map Prod.fst) ∧
      m.methodsOf t = .ok (log.methodsOf t)
  | .field owner d => ∃ row, m.fieldDef t = .ok row ∧ typeToken row.owner = owner ∧ row.row = d ∧
      (log.fieldsOf owner)[row.position]? = some (t, row.row)
  | .method owner d => ∃ row, m.methodDef t = .ok row ∧ typeToken row.owner = owner ∧
      row.row = { d with body := log.body? t <|> d.body } ∧
      (log.methodsOf owner)[row.position]? = some (t, row.row)
  | .typeSpec s => m.typeSpec t = .ok s ∧ m.typeSignature t = .ok s
  | .methodRef r => m.memberRef t = .ok (.method r)
  | .fieldRef on name => m.memberRef t = .ok (.field on name)
  | .methodSpec s => m.methodSpec t = .ok s
  | .userString s => m.userString t = .ok s
  | .body .. | .version _ | .lines _ => False

/-- Whatever looks into the table refuses the token. -/
def Refuses (m : Module) (t : Token) : Table → Prop
  | .typeRef => True
  | .typeDef => m.typeDef t = .error (.invalidToken t) ∧
      m.fieldTokens t = .error (.invalidToken t) ∧ m.fieldsOf t = .error (.invalidToken t) ∧
      m.methodTokens t = .error (.invalidToken t) ∧ m.methodsOf t = .error (.invalidToken t)
  | .field => m.fieldDef t = .error (.invalidToken t)
  | .methodDef => m.methodDef t = .error (.invalidToken t)
  | .memberRef => m.memberRef t = .error (.invalidToken t)
  | .typeSpec => m.typeSpec t = .error (.invalidToken t)
  | .methodSpec => m.methodSpec t = .error (.invalidToken t)
  | .userString => m.userString t = .error (.invalidToken t)

/-- The call is about a row that the calls before it defined. -/
def Call.Applies (log : Log) : Call → Prop
  | .field owner _ | .method owner _ => ∃ d, (.type d, .ok (some owner)) ∈ log
  | .body target _ => ∃ owner d, (.method owner d, .ok (some target)) ∈ log
  | _ => True

/-- Tokens address the rows that they were given for. -/
structure Addressed (log : Log) (m : Module) : Prop where
  distinct : log.tokens.Nodup
  shown : ∀ c t, (c, .ok (some t)) ∈ log → m.Shows log t c
  refused : ∀ table t, (∀ c, (c, .ok (some t)) ∈ log → c.table? ≠ some table) →
    m.Refuses t table
  untyped : ∀ t, (∀ c, (c, .ok (some t)) ∈ log → c.table? ≠ some .typeDef ∧
    c.table? ≠ some .typeSpec) → m.typeSignature t = .error (.invalidToken t)
  served : ∀ before c row after, log = before ++ (c, row) :: after →
    ((∃ e, row = .error e) ↔ ¬c.Applies before)

/-! ### What a log tells -/

namespace Log

theorem tokens_append (log log' : Log) : (log ++ log').tokens = log.tokens ++ log'.tokens :=
  List.filterMap_append

theorem rowsOf_append (log log' : Log) (table : Table) :
    (log ++ log').rowsOf table = log.rowsOf table ++ log'.rowsOf table := List.filterMap_append

theorem fieldsOf_append (log log' : Log) (owner : Token) :
    (log ++ log').fieldsOf owner = log.fieldsOf owner ++ log'.fieldsOf owner :=
  List.filterMap_append

theorem methodsWith_append (bodies : Token → Option Body) (log log' : Log) (owner : Token) :
    methodsWith bodies (log ++ log') owner =
      methodsWith bodies log owner ++ methodsWith bodies log' owner :=
  List.filterMap_append

theorem body?_append (log log' : Log) (t : Token) :
    (log ++ log').body? t = (log'.body? t).or (log.body? t) := by
  rw [body?, List.filterMap_append, List.getLast?_append]
  rfl

/-- A row was defined in a table exactly if a call for that table returned its token. -/
theorem mem_rowsOf {table : Table} {t : Token} :
    (t, c) ∈ log.rowsOf table ↔ (c, .ok (some t)) ∈ log ∧ c.table? = some table := by
  rw [rowsOf, List.mem_filterMap]
  constructor
  · rintro ⟨⟨c', answer⟩, hmem, h⟩
    dsimp only at h
    split at h
    · split at h
      · next htable =>
        cases h
        exact ⟨hmem, htable⟩
      · cases h
    · cases h
  · rintro ⟨hmem, htable⟩
    exact ⟨_, hmem, by simp only [if_pos htable]⟩

theorem mem_tokens {t : Token} : t ∈ log.tokens ↔ ∃ c, (c, .ok (some t)) ∈ log := by
  rw [tokens, List.mem_filterMap]
  constructor
  · rintro ⟨⟨c, answer⟩, hmem, h⟩
    dsimp only at h
    split at h
    · exact ⟨c, h ▸ hmem⟩
    · cases h
  · rintro ⟨c, hmem⟩
    exact ⟨_, hmem, rfl⟩

theorem of_mem_fieldsOf {t : Token} {d : FieldDef} (h : (t, d) ∈ log.fieldsOf owner) :
    (.field owner d, .ok (some t)) ∈ log := by
  obtain ⟨⟨c, answer⟩, hmem, h⟩ := List.mem_filterMap.mp h
  split at h
  · next heq =>
    split at h
    · next howner =>
      cases heq
      cases h
      exact howner ▸ hmem
    · cases h
  · cases h

theorem of_mem_methodsOf {t : Token} {d : MethodDef} (h : (t, d) ∈ log.methodsOf owner) :
    ∃ d', (.method owner d', .ok (some t)) ∈ log ∧
      d = { d' with body := log.body? t <|> d'.body } := by
  obtain ⟨⟨c, answer⟩, hmem, h⟩ := List.mem_filterMap.mp h
  split at h
  · next heq =>
    split at h
    · next howner =>
      cases heq
      cases h
      exact ⟨_, howner ▸ hmem, rfl⟩
    · cases h
  · cases h

/-- Every method of a type is a method of the module, and stands there in the same order. -/
theorem sublist_methodsWith (bodies : Token → Option Body) (log : Log) (owner : Token) :
    ((methodsWith bodies log owner).map Prod.fst).Sublist
      ((log.rowsOf .methodDef).map Prod.fst) := by
  induction log with
  | nil => exact .slnil
  | cons entry rest ih =>
    rw [← List.singleton_append, methodsWith_append, rowsOf_append, List.map_append,
      List.map_append]
    refine List.Sublist.append ?_ ih
    obtain ⟨c, answer⟩ := entry
    cases c with
    | method o d =>
      rcases answer with e | _ | t
      · exact .slnil
      · exact .slnil
      · by_cases howner : o = owner <;> simp [methodsWith, rowsOf, Call.table?, howner]
    | _ => exact List.nil_sublist _

/-- The calls, and one more that returned a token. -/
def after (log : Log) (c : Call) (t : Token) : Log := log ++ [(c, .ok (some t))]

section After

variable {table table' : Table} {t : Token} {o : Token}

theorem rowsOf_after (log : Log) (htable : c.table? = some table) (t : Token) (table' : Table) :
    (log.after c t).rowsOf table' =
      log.rowsOf table' ++ if table = table' then [(t, c)] else [] := by
  rw [after, rowsOf_append]
  by_cases heq : table = table' <;> simp [rowsOf, htable, heq]

/-- A call that defines a row sets no body. -/
theorem body?_after (log : Log) (htable : c.table? = some table) (t t' : Token) :
    (log.after c t).body? t' = log.body? t' := by
  rw [after, body?_append]
  cases c <;> first | rfl | cases htable

theorem fieldsOf_after_field (log : Log) (o : Token) (d : FieldDef) (t owner : Token) :
    (log.after (.field o d) t).fieldsOf owner =
      log.fieldsOf owner ++ if o = owner then [(t, d)] else [] := by
  rw [after, fieldsOf_append]
  by_cases howner : o = owner <;> simp [fieldsOf, howner]

theorem fieldsOf_after (log : Log) (h : c.table? ≠ some .field) (t owner : Token) :
    (log.after c t).fieldsOf owner = log.fieldsOf owner := by
  rw [after, fieldsOf_append]
  cases c <;> first | exact List.append_nil _ | exact absurd rfl h

theorem methodsOf_after_method (log : Log) (o : Token) (d : MethodDef) (t owner : Token) :
    (log.after (.method o d) t).methodsOf owner = log.methodsOf owner ++
      if o = owner then [(t, { d with body := log.body? t <|> d.body })] else [] := by
  have hbodies := funext (body?_after log (c := .method o d) rfl t)
  rw [methodsOf, hbodies, after, methodsWith_append]
  by_cases howner : o = owner <;> simp [methodsOf, methodsWith, howner]

theorem methodsOf_after (log : Log) (htable : c.table? = some table) (h : table ≠ .methodDef)
    (t owner : Token) : (log.after c t).methodsOf owner = log.methodsOf owner := by
  have hbodies := funext (body?_after log htable t)
  rw [methodsOf, hbodies, after, methodsWith_append]
  cases c <;> first | exact List.append_nil _ | (cases htable; exact absurd rfl h)

end After

theorem body?_body (log : Log) (target : Token) (b : Body) (t : Token) :
    Log.body? (log ++ [(.body target b, .ok none)]) t =
      if target = t then some b else log.body? t := by
  rw [body?_append]
  by_cases heq : target = t <;> simp [body?, heq]

theorem rowsOf_body (log : Log) (target : Token) (b : Body) (table : Table) :
    Log.rowsOf (log ++ [(.body target b, .ok none)]) table = log.rowsOf table := by
  rw [rowsOf_append]
  exact List.append_nil _

theorem fieldsOf_body (log : Log) (target : Token) (b : Body) (owner : Token) :
    Log.fieldsOf (log ++ [(.body target b, .ok none)]) owner = log.fieldsOf owner := by
  rw [fieldsOf_append]
  exact List.append_nil _

/-- A method and its token, after a body was set for the method of a token. -/
def bodySet (target : Token) (b : Body) (x : Token × MethodDef) : Token × MethodDef :=
  (x.1, if target = x.1 then { x.2 with body := some b } else x.2)

/-- The methods of a type after a body was set. -/
theorem methodsOf_body (log : Log) (target : Token) (b : Body) (owner : Token) :
    Log.methodsOf (log ++ [(.body target b, .ok none)]) owner =
      (log.methodsOf owner).map (bodySet target b) := by
  rw [methodsOf, methodsWith_append, funext (body?_body log target b)]
  refine (List.append_nil _).trans ?_
  rw [methodsOf, methodsWith, methodsWith, List.map_filterMap]
  refine List.filterMap_congr fun (c, answer) _ ↦ ?_
  cases c with
  | method o d =>
    rcases answer with e | _ | t
    · rfl
    · rfl
    · by_cases howner : o = owner <;> by_cases heq : target = t <;> simp [bodySet, howner, heq]
  | _ => rfl

section BodySet

variable {l : List (Token × MethodDef)} {target : Token}

@[simp] theorem map_fst_bodySet (l : List (Token × MethodDef)) (target : Token) (b : Body) :
    (l.map (bodySet target b)).map Prod.fst = l.map Prod.fst := by
  rw [List.map_map]
  rfl

theorem map_bodySet_of_not_mem (b : Body) (h : target ∉ l.map Prod.fst) :
    l.map (bodySet target b) = l := by
  refine (List.map_congr_left fun x hx ↦ ?_).trans (List.map_id l)
  have hne : target ≠ x.1 := fun heq ↦ h (heq ▸ List.mem_map_of_mem hx)
  simp only [bodySet, if_neg hne, id]

/-- Where tokens are different, a body is set in one place. -/
theorem map_bodySet_of_nodup (b : Body) {p : Nat} {row : MethodDef} (h : (l.map Prod.fst).Nodup)
    (hp : l[p]? = some (target, row)) :
    l.map (bodySet target b) = l.set p (target, { row with body := some b }) := by
  obtain ⟨hlt, hrow⟩ := List.getElem?_eq_some_iff.mp hp
  refine List.ext_getElem (by simp) fun q hq _ ↦ ?_
  rw [List.length_map] at hq
  rw [List.getElem_map, List.getElem_set]
  split
  · next heq =>
    subst heq
    simp only [bodySet, hrow, if_true]
  · next hne =>
    have hother : target ≠ l[q].1 := by
      intro heq
      have hp : p < (l.map Prod.fst).length := by rwa [List.length_map]
      have hq : q < (l.map Prod.fst).length := by rwa [List.length_map]
      have hsame : (l.map Prod.fst)[p] = (l.map Prod.fst)[q] := by
        rw [List.getElem_map, List.getElem_map, hrow, heq]
      exact hne (h.getElem_inj_iff.mp hsame)
    simp only [bodySet, if_neg hother]

end BodySet

end Log

/-- The row at a place of the table of the call is what the call defined. A type has the fields and
methods that were defined for it since, and lists their tokens; a field or a method has a place at
which its type has it. -/
def Holds (m : Module) (log : Log) (k : Nat) : Call → Prop
  | .type d => m.types[k]? = some (log.typeRow (typeToken k) d) ∧
      m.fieldLists[k]? = some ((log.fieldsOf (typeToken k)).map Prod.fst).toArray ∧
      m.methodLists[k]? = some ((log.methodsOf (typeToken k)).map Prod.fst).toArray
  | .field owner d => ∃ i p, i < m.types.size ∧ owner = typeToken i ∧
      m.fieldPlaces[k]? = some ⟨i, p⟩ ∧
      (log.fieldsOf owner)[p]? = some (Token.next .field k, d)
  | .method owner d => ∃ i p, i < m.types.size ∧ owner = typeToken i ∧
      m.methodPlaces[k]? = some ⟨i, p⟩ ∧
      (log.methodsOf owner)[p]? = some (Token.next .methodDef k,
        { d with body := log.body? (Token.next .methodDef k) <|> d.body })
  | .typeSpec s => m.typeSpecs[k]? = some s
  | .methodRef r => m.memberRefs[k]? = some (.method r)
  | .fieldRef on name => m.memberRefs[k]? = some (.field on name)
  | .methodSpec s => m.methodSpecs[k]? = some s
  | .userString s => m.userStrings[k]? = some s
  | .body .. | .version _ | .lines _ => False

theorem getElem?_append_of_some {xs ys : List α} {a : α} (h : xs[i]? = some a) :
    (xs ++ ys)[i]? = some a := by
  obtain ⟨hi, rfl⟩ := List.getElem?_eq_some_iff.mp h
  rw [List.getElem?_append_left hi, List.getElem?_eq_getElem hi]

/-- What the first log tells of fields, methods and bodies, the second one tells as well. -/
structure Log.Leads (log log' : Log) : Prop where
  fields : ∀ owner (p : Nat) x, (log.fieldsOf owner)[p]? = some x →
    (log'.fieldsOf owner)[p]? = some x
  methods : ∀ owner (p : Nat) x,
    (log.methodsOf owner)[p]? = some x → (log'.methodsOf owner)[p]? = some x
  bodies : ∀ t, log'.body? t = log.body? t

/-- The rows that belong to no type, and the places of the others, stand at the same positions of
the second module. -/
structure Within (m m' : Module) : Prop where
  types : m.types.size ≤ m'.types.size
  fieldPlaces : ∀ (i : Nat) p, m.fieldPlaces[i]? = some p → m'.fieldPlaces[i]? = some p
  methodPlaces : ∀ (i : Nat) p, m.methodPlaces[i]? = some p → m'.methodPlaces[i]? = some p
  typeSpecs : ∀ (i : Nat) s, m.typeSpecs[i]? = some s → m'.typeSpecs[i]? = some s
  memberRefs : ∀ (i : Nat) r, m.memberRefs[i]? = some r → m'.memberRefs[i]? = some r
  methodSpecs : ∀ (i : Nat) s, m.methodSpecs[i]? = some s → m'.methodSpecs[i]? = some s
  userStrings : ∀ (i : Nat) s, m.userStrings[i]? = some s → m'.userStrings[i]? = some s

theorem Within.refl (m : Module) : m.Within m :=
  ⟨le_rfl, fun _ _ h ↦ h, fun _ _ h ↦ h, fun _ _ h ↦ h, fun _ _ h ↦ h, fun _ _ h ↦ h,
    fun _ _ h ↦ h⟩

/-- Every row but those of types is kept along with what the log tells. -/
theorem Holds.leads (h : m.Holds log k c) (hc : c.table? ≠ some .typeDef) (hm : m.Within m')
    (hlog : Log.Leads log log') : m'.Holds log' k c := by
  cases c with
  | type d => exact absurd rfl hc
  | field owner d =>
    obtain ⟨i, p, hi, howner, hplace, hp⟩ := h
    exact ⟨i, p, hi.trans_le hm.types, howner, hm.fieldPlaces k _ hplace, hlog.fields owner p _ hp⟩
  | method owner d =>
    obtain ⟨i, p, hi, howner, hplace, hp⟩ := h
    refine ⟨i, p, hi.trans_le hm.types, howner, hm.methodPlaces k _ hplace, ?_⟩
    rw [hlog.bodies]
    exact hlog.methods owner p _ hp
  | typeSpec s => exact hm.typeSpecs k s h
  | methodRef r => exact hm.memberRefs k _ h
  | fieldRef on name => exact hm.memberRefs k _ h
  | methodSpec s => exact hm.methodSpecs k s h
  | userString s => exact hm.userStrings k s h
  | _ => exact h.elim

/-- The row of a type is kept where it stays what it is, if nothing is defined for the type. -/
theorem Holds.type_congr {d : TypeDef} (h : m.Holds log k (.type d))
    (htypes : ∀ row, m.types[k]? = some row → m'.types[k]? = some row)
    (hfieldLists : ∀ list, m.fieldLists[k]? = some list → m'.fieldLists[k]? = some list)
    (hmethodLists : ∀ list, m.methodLists[k]? = some list → m'.methodLists[k]? = some list)
    (hfields : log'.fieldsOf (typeToken k) = log.fieldsOf (typeToken k))
    (hmethods : log'.methodsOf (typeToken k) = log.methodsOf (typeToken k)) :
    m'.Holds log' k (.type d) := by
  obtain ⟨hrow, hfieldList, hmethodList⟩ := h
  refine ⟨?_, ?_, ?_⟩
  · rw [Log.typeRow, hfields, hmethods]
    exact htypes _ hrow
  · rw [hfields]
    exact hfieldLists _ hfieldList
  · rw [hmethods]
    exact hmethodLists _ hmethodList

/-- The log tells of every row of the module. -/
structure Recorded (log : Log) (m : Module) : Prop where
  total : ∀ table, (log.rowsOf table).length = m.count table
  each : ∀ (table : Table) (k : Nat) t c, (log.rowsOf table)[k]? = some (t, c) →
    t = Token.next table k ∧ m.Holds log k c
  bodies : ∀ t, log.body? t ≠ none → ∃ k < m.methodPlaces.size, t = Token.next .methodDef k

theorem recorded_empty (name : String) : Recorded [] (.empty name) where
  total table := by cases table <;> rfl
  each table k t c h := by cases h
  bodies t h := absurd rfl h

namespace Recorded

/-! ### What a record tells -/

/-- A token that was returned is that of a row of the table of the call. -/
theorem exists_row (h : Recorded log m) {table : Table} (htable : c.table? = some table)
    {t : Token} (hmem : (c, .ok (some t)) ∈ log) :
    ∃ k < m.count table, t = Token.next table k ∧ m.Holds log k c := by
  obtain ⟨k, hk⟩ := List.mem_iff_getElem?.mp (Log.mem_rowsOf.mpr ⟨hmem, htable⟩)
  obtain ⟨hlt, -⟩ := List.getElem?_eq_some_iff.mp hk
  exact ⟨k, h.total table ▸ hlt, h.each table k t c hk⟩

/-- Every row was defined by a call that returned its token. -/
theorem exists_call (h : Recorded log m) {table : Table} (hk : k < m.count table) :
    ∃ c, (c, .ok (some (Token.next table k))) ∈ log ∧ c.table? = some table ∧ m.Holds log k c := by
  rw [← h.total] at hk
  have hrow := List.getElem?_eq_getElem hk
  obtain ⟨ht, hold⟩ := h.each table k _ _ hrow
  obtain ⟨hmem, htable⟩ := Log.mem_rowsOf.mp (List.mem_of_getElem? hrow)
  exact ⟨_, ht ▸ hmem, htable, hold⟩

/-- Every type has the fields and methods that the log tells of. -/
theorem exists_type (h : Recorded log m) (hk : k < m.types.size) :
    ∃ d, m.Holds log k (.type d) := by
  obtain ⟨c, -, htable, hold⟩ := h.exists_call (show k < m.count .typeDef from hk)
  cases c with
  | type d => exact ⟨d, hold⟩
  | _ => cases htable

/-- The tokens of a table number its rows. -/
theorem map_fst_rowsOf (h : Recorded log m) (table : Table) :
    (log.rowsOf table).map Prod.fst = (List.range (m.count table)).map (Token.next table) := by
  refine List.ext_getElem (by simp [h.total]) fun k hk _ ↦ ?_
  rw [List.length_map] at hk
  rw [List.getElem_map, List.getElem_map, List.getElem_range]
  exact (h.each table k _ _ (List.getElem?_eq_getElem hk)).1

theorem nodup_methodsOf (h : Recorded log m) (hsmall : m.methodPlaces.size < 2 ^ 24)
    (owner : Token) : ((log.methodsOf owner).map Prod.fst).Nodup := by
  refine (Log.sublist_methodsWith _ log owner).nodup ?_
  rw [h.map_fst_rowsOf]
  refine List.Nodup.map_on (fun i hi j hj heq ↦ ?_) List.nodup_range
  have hi' : i < m.methodPlaces.size := List.mem_range.mp hi
  have hj' : j < m.methodPlaces.size := List.mem_range.mp hj
  exact (Token.next_inj (by omega) (by omega) heq).2

/-- Nothing was defined for a type that is not there. -/
theorem fieldsOf_eq_nil (h : Recorded log m) {n : Nat} (hn : m.types.size ≤ n)
    (hsmall : n + 1 < 2 ^ 24) : log.fieldsOf (typeToken n) = [] := by
  refine List.eq_nil_iff_forall_not_mem.mpr fun (t, d) hmem ↦ ?_
  obtain ⟨k, -, -, i, p, hi, heq, -⟩ := h.exists_row rfl (Log.of_mem_fieldsOf hmem)
  obtain ⟨-, rfl⟩ := Token.next_inj hsmall (by omega) heq
  omega

theorem methodsOf_eq_nil (h : Recorded log m) {n : Nat} (hn : m.types.size ≤ n)
    (hsmall : n + 1 < 2 ^ 24) : log.methodsOf (typeToken n) = [] := by
  refine List.eq_nil_iff_forall_not_mem.mpr fun (t, d) hmem ↦ ?_
  obtain ⟨d', hmem', -⟩ := Log.of_mem_methodsOf hmem
  obtain ⟨k, -, -, i, p, hi, heq, -⟩ := h.exists_row rfl hmem'
  obtain ⟨-, rfl⟩ := Token.next_inj hsmall (by omega) heq
  omega

/-- No body was set for a method that is not there. -/
theorem body?_eq_none (h : Recorded log m) (hsmall : m.methodPlaces.size + 1 < 2 ^ 24) :
    log.body? (Token.next .methodDef m.methodPlaces.size) = none := by
  by_contra hset
  obtain ⟨k, hk, heq⟩ := h.bodies _ hset
  obtain ⟨-, rfl⟩ := Token.next_inj hsmall (by omega) heq
  exact lt_irrefl _ hk

/-! ### One call -/

/-- A row is defined, and those that are there hold on. -/
theorem define (h : Recorded log m) (table : Table) (htable : c.table? = some table)
    (hcount : ∀ table', m'.count table' = m.count table' + if table = table' then 1 else 0)
    (hrow : m'.Holds (log.after c (Token.next table (m.count table))) (m.count table) c)
    (hold : ∀ (table' : Table) (k : Nat) t c', (log.rowsOf table')[k]? = some (t, c') →
      m.Holds log k c' → m'.Holds (log.after c (Token.next table (m.count table))) k c') :
    Recorded (log.after c (Token.next table (m.count table))) m' := by
  constructor
  · intro table'
    rw [Log.rowsOf_after log htable, List.length_append, h.total, hcount]
    split <;> rfl
  · intro table' k t c' hk
    rw [Log.rowsOf_after log htable, List.getElem?_append] at hk
    split at hk
    · obtain ⟨ht, hheld⟩ := h.each table' k t c' hk
      exact ⟨ht, hold table' k t c' hk hheld⟩
    · next hnew =>
      rw [h.total] at hk hnew
      split at hk
      · next heq =>
        subst heq
        obtain ⟨hlast, hk⟩ := List.getElem?_eq_some_iff.mp hk
        rw [List.length_singleton] at hlast
        obtain rfl : k = m.count table := by omega
        simp only [List.getElem_singleton, Prod.mk.injEq] at hk
        obtain ⟨rfl, rfl⟩ := hk
        exact ⟨rfl, hrow⟩
      · cases hk
  · intro t ht
    rw [Log.body?_after log htable] at ht
    obtain ⟨k, hk, rfl⟩ := h.bodies t ht
    have hsize : m'.methodPlaces.size = m.methodPlaces.size + _ := hcount .methodDef
    exact ⟨k, by omega, rfl⟩

/-- Nothing happens to the rows. -/
theorem pass (h : Recorded log m) (hanswer : ∀ t, answer ≠ .ok (some t))
    (hbody : ∀ target b, c = .body target b → ∃ e, answer = .error e)
    (hm : m' = { m with version := m'.version, lines := m'.lines }) :
    Recorded (log ++ [(c, answer)]) m' := by
  have hrows (table : Table) : Log.rowsOf (log ++ [(c, answer)]) table = log.rowsOf table := by
    rw [Log.rowsOf_append]
    rcases answer with e | _ | t
    · exact List.append_nil _
    · exact List.append_nil _
    · exact absurd rfl (hanswer t)
  have hbodies : Log.body? (log ++ [(c, answer)]) = log.body? := by
    funext t
    rw [Log.body?_append]
    cases c with
    | body target b =>
      obtain ⟨e, rfl⟩ := hbody target b rfl
      rfl
    | _ => rfl
  have hfields (owner : Token) :
      Log.fieldsOf (log ++ [(c, answer)]) owner = log.fieldsOf owner := by
    rw [Log.fieldsOf_append]
    rcases answer with e | _ | t
    · cases c <;> exact List.append_nil _
    · cases c <;> exact List.append_nil _
    · exact absurd rfl (hanswer t)
  have hmethods (owner : Token) :
      Log.methodsOf (log ++ [(c, answer)]) owner = log.methodsOf owner := by
    rw [Log.methodsOf, hbodies, Log.methodsWith_append]
    rcases answer with e | _ | t
    · cases c <;> exact List.append_nil _
    · cases c <;> exact List.append_nil _
    · exact absurd rfl (hanswer t)
  constructor
  · intro table
    rw [hrows, h.total, hm]
    cases table <;> rfl
  · intro table k t c' hk
    rw [hrows] at hk
    obtain ⟨ht, hold⟩ := h.each table k t c' hk
    refine ⟨ht, ?_⟩
    rw [hm]
    by_cases hc : c'.table? = some .typeDef
    · cases c' with
      | type d =>
        exact hold.type_congr (fun _ h ↦ h) (fun _ h ↦ h) (fun _ h ↦ h) (hfields _) (hmethods _)
      | _ => cases hc
    · refine hold.leads hc ⟨le_rfl, fun _ _ h ↦ h, fun _ _ h ↦ h, fun _ _ h ↦ h, fun _ _ h ↦ h,
        fun _ _ h ↦ h, fun _ _ h ↦ h⟩ ⟨fun o p x hx ↦ ?_, fun o p x hx ↦ ?_, congrFun hbodies⟩
      · rw [hfields, hx]
      · rw [hmethods, hx]
  · intro t ht
    rw [hbodies] at ht
    rw [hm]
    exact h.bodies t ht

/-- A call that is refused changes nothing. -/
theorem refused (h : Recorded log m) (c : Call) (e : Error) : Recorded (log ++ [(c, .error e)]) m :=
  h.pass (by rintro _ ⟨⟩) (fun _ _ _ ↦ ⟨e, rfl⟩) rfl

end Recorded

/-- What was defined for a type takes the place of what its definition says of fields and
methods. -/
theorem Log.typeRow_congr (log' : Log) {t : Token} {d d' : TypeDef}
    (h : log.typeRow t d = log.typeRow t d') : log'.typeRow t d = log'.typeRow t d' :=
  (congrArg (log'.typeRow t) h :)

namespace Recorded

variable {i : Nat} {type : TypeDef} {list : Array Token}

theorem typeToken_inj (hi : i + 1 < 2 ^ 24) (hk : k + 1 < 2 ^ 24)
    (h : typeToken i = typeToken k) : i = k := (Token.next_inj hi hk h).2

theorem typeToken_ne (hk : k + 1 < 2 ^ 24) (hi : i + 1 < 2 ^ 24) (h : i ≠ k) :
    typeToken i ≠ typeToken k := fun heq ↦ h (typeToken_inj hi hk heq)

/-- A row is defined in a table whose rows belong to no type. -/
theorem append (h : Recorded log m) (table : Table) (htable : c.table? = some table)
    (hfield : table ≠ .field) (hmethod : table ≠ .methodDef) (hm : m.Within m')
    (hcount : ∀ table', m'.count table' = m.count table' + if table = table' then 1 else 0)
    (hrow : m'.Holds (log.after c (Token.next table (m.count table))) (m.count table) c)
    (htypes : ∀ (k : Nat) row, m.types[k]? = some row → m'.types[k]? = some row)
    (hfieldLists : ∀ (k : Nat) list, m.fieldLists[k]? = some list → m'.fieldLists[k]? = some list)
    (hmethodLists : ∀ (k : Nat) list,
      m.methodLists[k]? = some list → m'.methodLists[k]? = some list) :
    Recorded (log.after c (Token.next table (m.count table))) m' := by
  have hnofield : c.table? ≠ some .field := htable ▸ fun heq ↦ hfield (Option.some.inj heq)
  have hfields := Log.fieldsOf_after log hnofield (Token.next table (m.count table))
  have hmethods := Log.methodsOf_after log htable hmethod (Token.next table (m.count table))
  refine h.define table htable hcount hrow fun table' k t c' hk hold ↦ ?_
  by_cases hc : c'.table? = some .typeDef
  · cases c' with
    | type d =>
      exact hold.type_congr (htypes k) (hfieldLists k) (hmethodLists k) (hfields _) (hmethods _)
    | _ => cases hc
  · refine hold.leads hc hm ⟨fun o p x hx ↦ ?_, fun o p x hx ↦ ?_, Log.body?_after log htable _⟩
    · rw [hfields, hx]
    · rw [hmethods, hx]

/-- A type comes without fields and methods. -/
theorem addType (h : Recorded log m) (hstep : m.InStep) (hsmall : m.types.size + 1 < 2 ^ 24)
    (d : TypeDef) :
    Recorded (log.after (.type d) (Token.next .typeDef m.types.size)) (m.addType d).2 := by
  have hfields := (Log.fieldsOf_after log (c := .type d) nofun
    (Token.next .typeDef m.types.size) (typeToken m.types.size)).trans
      (h.fieldsOf_eq_nil le_rfl hsmall)
  have hmethods := (Log.methodsOf_after log (c := .type d) rfl nofun
    (Token.next .typeDef m.types.size) (typeToken m.types.size)).trans
      (h.methodsOf_eq_nil le_rfl hsmall)
  refine h.append .typeDef rfl nofun nofun
    { Within.refl m with types := by simp [Module.addType, Module.append] } (fun table ↦ ?_) ?_
    (fun _ _ ↦ getElem?_push_of_some) (fun _ _ ↦ getElem?_push_of_some)
    (fun _ _ ↦ getElem?_push_of_some)
  · cases table <;> first | rfl | exact Array.size_push _
  · refine ⟨?_, ?_, ?_⟩
    · rw [Log.typeRow]
      simp only [count]
      rw [hfields, hmethods]
      exact Array.getElem?_push_size
    · simp only [count]
      rw [hfields, ← hstep.fieldLists]
      exact Array.getElem?_push_size
    · simp only [count]
      rw [hmethods, ← hstep.methodLists]
      exact Array.getElem?_push_size

/-- A field comes behind the fields that its type has. -/
theorem withField (h : Recorded log m) (hsmall : m.types.size < 2 ^ 24)
    (htype : m.types[i]? = some type) (hlist : m.fieldLists[i]? = some list) (d : FieldDef) :
    Recorded (log.after (.field (typeToken i) d) (Token.next .field m.fieldPlaces.size))
      (m.withField i type list d) := by
  obtain ⟨hin, -⟩ := Array.getElem?_eq_some_iff.mp htype
  obtain ⟨hinList, -⟩ := Array.getElem?_eq_some_iff.mp hlist
  obtain ⟨e, hrow, hold, -⟩ := h.exists_type hin
  cases htype.symm.trans hrow
  cases hlist.symm.trans hold
  have hafter := Log.fieldsOf_after_field log (typeToken i) d (Token.next .field m.fieldPlaces.size)
  have hmethods := Log.methodsOf_after log (c := .field (typeToken i) d) rfl nofun
    (Token.next .field m.fieldPlaces.size)
  have hsame := (hafter (typeToken i)).trans (congrArg _ (if_pos rfl))
  refine h.define .field rfl (fun table ↦ ?_) ?_ fun table k t c' hk hold ↦ ?_
  · cases table <;> first | rfl | exact Array.size_push _ | exact Array.size_setIfInBounds ..
  · refine ⟨i, (log.fieldsOf (typeToken i)).length, ?_, rfl, ?_, ?_⟩
    · exact hin.trans_eq (Array.size_setIfInBounds ..).symm
    · refine Array.getElem?_push_size.trans ?_
      simp [Log.typeRow]
    · rw [count, hsame, List.getElem?_append_right le_rfl, Nat.sub_self]
      rfl
  · cases c' with
    | type e' =>
      obtain ⟨hk', -⟩ := Array.getElem?_eq_some_iff.mp hold.1
      by_cases hik : i = k
      · subst hik
        obtain ⟨hrow', -, hmethodList⟩ := hold
        have heq := Log.typeRow_congr (log.after (.field (typeToken i) d)
          (Token.next .field m.fieldPlaces.size)) (Option.some.inj (hrow.symm.trans hrow'))
        refine ⟨?_, ?_, ?_⟩
        · refine (Array.getElem?_setIfInBounds_self_of_lt hin).trans (Eq.trans ?_ (congrArg _ heq))
          simp [Log.typeRow, hsame, hmethods]
        · refine (Array.getElem?_setIfInBounds_self_of_lt hinList).trans ?_
          simp [hsame, count]
        · rw [count, hmethods]
          exact hmethodList
      · have hne := typeToken_ne (k := k) (i := i) (by omega) (by omega) hik
        refine hold.type_congr (fun _ hr ↦ ?_) (fun _ hl ↦ ?_) (fun _ hl ↦ hl) ?_ (hmethods _)
        · exact (Array.getElem?_setIfInBounds_ne hik).trans hr
        · exact (Array.getElem?_setIfInBounds_ne hik).trans hl
        · exact (hafter _).trans (by rw [if_neg hne, List.append_nil])
    | _ =>
      refine hold.leads nofun { Within.refl m with
        types := (Array.size_setIfInBounds ..).ge
        fieldPlaces := fun _ _ ↦ getElem?_push_of_some } ⟨fun o p x hx ↦ ?_, fun o p x hx ↦ ?_,
          Log.body?_after log rfl _⟩
      · rw [count, hafter]
        exact getElem?_append_of_some hx
      · rw [count, hmethods, hx]

/-- A method comes behind the methods that its type has. No body was set for it before. -/
theorem withMethod (h : Recorded log m) (hsmall : m.types.size < 2 ^ 24)
    (hroom : m.methodPlaces.size + 1 < 2 ^ 24) (htype : m.types[i]? = some type)
    (hlist : m.methodLists[i]? = some list) (d : MethodDef) :
    Recorded (log.after (.method (typeToken i) d) (Token.next .methodDef m.methodPlaces.size))
      (m.withMethod i type list d) := by
  obtain ⟨hin, -⟩ := Array.getElem?_eq_some_iff.mp htype
  obtain ⟨hinList, -⟩ := Array.getElem?_eq_some_iff.mp hlist
  obtain ⟨e, hrow, -, hold⟩ := h.exists_type hin
  cases htype.symm.trans hrow
  cases hlist.symm.trans hold
  have hnone := h.body?_eq_none hroom
  have hbodies := Log.body?_after log (c := .method (typeToken i) d) rfl
    (Token.next .methodDef m.methodPlaces.size)
  have hafter (owner : Token) :
      (log.after (.method (typeToken i) d) (Token.next .methodDef m.methodPlaces.size)).methodsOf
        owner = log.methodsOf owner ++ if typeToken i = owner then
          [(Token.next .methodDef m.methodPlaces.size, d)] else [] := by
    rw [Log.methodsOf_after_method, hnone]
    rfl
  have hfields := Log.fieldsOf_after log (c := .method (typeToken i) d) nofun
    (Token.next .methodDef m.methodPlaces.size)
  have hsame := (hafter (typeToken i)).trans (congrArg _ (if_pos rfl))
  refine h.define .methodDef rfl (fun table ↦ ?_) ?_ fun table k t c' hk hold ↦ ?_
  · cases table <;> first | rfl | exact Array.size_push _ | exact Array.size_setIfInBounds ..
  · refine ⟨i, (log.methodsOf (typeToken i)).length, ?_, rfl, ?_, ?_⟩
    · exact hin.trans_eq (Array.size_setIfInBounds ..).symm
    · refine Array.getElem?_push_size.trans ?_
      simp [Log.typeRow]
    · rw [count, hsame, List.getElem?_append_right le_rfl, Nat.sub_self, hbodies, hnone]
      rfl
  · cases c' with
    | type e' =>
      obtain ⟨hk', -⟩ := Array.getElem?_eq_some_iff.mp hold.1
      by_cases hik : i = k
      · subst hik
        obtain ⟨hrow', hfieldList, -⟩ := hold
        have heq := Log.typeRow_congr (log.after (.method (typeToken i) d)
          (Token.next .methodDef m.methodPlaces.size)) (Option.some.inj (hrow.symm.trans hrow'))
        refine ⟨?_, ?_, ?_⟩
        · refine (Array.getElem?_setIfInBounds_self_of_lt hin).trans (Eq.trans ?_ (congrArg _ heq))
          simp [Log.typeRow, hsame, hfields]
        · rw [count, hfields]
          exact hfieldList
        · refine (Array.getElem?_setIfInBounds_self_of_lt hinList).trans ?_
          simp [hsame, count]
      · have hne := typeToken_ne (k := k) (i := i) (by omega) (by omega) hik
        refine hold.type_congr (fun _ hr ↦ ?_) (fun _ hl ↦ hl) (fun _ hl ↦ ?_) (hfields _) ?_
        · exact (Array.getElem?_setIfInBounds_ne hik).trans hr
        · exact (Array.getElem?_setIfInBounds_ne hik).trans hl
        · exact (hafter _).trans (by rw [if_neg hne, List.append_nil])
    | _ =>
      refine hold.leads nofun { Within.refl m with
        types := (Array.size_setIfInBounds ..).ge
        methodPlaces := fun _ _ ↦ getElem?_push_of_some } ⟨fun o p x hx ↦ ?_, fun o p x hx ↦ ?_,
          hbodies⟩
      · rw [count, hfields, hx]
      · rw [count, hafter]
        exact getElem?_append_of_some hx

end Recorded

namespace Recorded

variable {type : TypeDef} {place : RowPlace} {row : MethodDef}

/-- The method at a place, in terms of the log. -/
theorem exists_method (h : Recorded log m) (hplace : m.methodPlaces[k]? = some place)
    (htype : m.types[place.owner]? = some type) (hrow : type.methods[place.position]? = some row) :
    (log.methodsOf (typeToken place.owner))[place.position]? =
      some (Token.next .methodDef k, row) := by
  obtain ⟨hk, -⟩ := Array.getElem?_eq_some_iff.mp hplace
  obtain ⟨c, -, htable, hold⟩ := h.exists_call (show k < m.count .methodDef from hk)
  cases c with
  | method owner d =>
    obtain ⟨i, p, hi, rfl, hplace', hp⟩ := hold
    cases hplace.symm.trans hplace'
    obtain ⟨e, htype', -⟩ := h.exists_type hi
    cases htype.symm.trans htype'
    have hrow' : ((log.methodsOf (typeToken i)).map Prod.snd)[p]? = some row := by
      rw [← List.getElem?_toArray]
      exact hrow
    rw [List.getElem?_map, hp] at hrow'
    cases hrow'
    exact hp
  | _ => cases htable

/-- A method is one of only one type. -/
theorem not_mem_methodsOf (h : Recorded log m) (htypes : m.types.size < 2 ^ 24)
    (hmethods : m.methodPlaces.size < 2 ^ 24) (hplace : m.methodPlaces[k]? = some place) {i : Nat}
    (hi : i < m.types.size) (hne : place.owner ≠ i) :
    Token.next .methodDef k ∉ (log.methodsOf (typeToken i)).map Prod.fst := by
  intro hmem
  obtain ⟨⟨t, d⟩, hmem, rfl⟩ := List.mem_map.mp hmem
  obtain ⟨d', hcall, -⟩ := Log.of_mem_methodsOf hmem
  obtain ⟨hk, -⟩ := Array.getElem?_eq_some_iff.mp hplace
  obtain ⟨k', hk', heq, i', p, hi', howner, hplace', -⟩ := h.exists_row rfl hcall
  have hk' : k' < m.methodPlaces.size := hk'
  obtain ⟨-, rfl⟩ := Token.next_inj (by omega) (by omega) heq
  cases hplace.symm.trans hplace'
  exact hne (typeToken_inj (by omega) (by omega) howner).symm

/-- Methods stay where they are when one of them is given a body. -/
theorem withBody (h : Recorded log m) (htypes : m.types.size < 2 ^ 24)
    (hmethods : m.methodPlaces.size < 2 ^ 24) (hplace : m.methodPlaces[k]? = some place)
    (htype : m.types[place.owner]? = some type) (hrow : type.methods[place.position]? = some row)
    (b : Body) :
    Recorded (log ++ [(.body (Token.next .methodDef k) b, .ok none)])
      (m.withBody place type row b) := by
  have hmethod := h.exists_method hplace htype hrow
  have hset := Log.map_bodySet_of_nodup b (h.nodup_methodsOf hmethods _) hmethod
  constructor
  · intro table
    rw [Log.rowsOf_body, h.total]
    cases table <;> first | rfl | exact (Array.size_setIfInBounds ..).symm
  · intro table k' t c hk
    rw [Log.rowsOf_body] at hk
    obtain ⟨ht, hold⟩ := h.each table k' t c hk
    refine ⟨ht, ?_⟩
    cases c with
    | type e =>
      obtain ⟨hrow', hfieldList, hmethodList⟩ := hold
      obtain ⟨hin, -⟩ := Array.getElem?_eq_some_iff.mp hrow'
      by_cases hik : place.owner = k'
      · subst hik
        cases htype.symm.trans hrow'
        refine ⟨?_, ?_, ?_⟩
        · refine (Array.getElem?_setIfInBounds_self_of_lt hin).trans ?_
          simp [Log.typeRow, Log.fieldsOf_body, Log.methodsOf_body, hset, List.map_set]
        · rw [Log.fieldsOf_body]
          exact hfieldList
        · rw [Log.methodsOf_body, Log.map_fst_bodySet]
          exact hmethodList
      · refine Holds.type_congr ⟨hrow', hfieldList, hmethodList⟩ (fun _ hr ↦ ?_) (fun _ hl ↦ hl)
          (fun _ hl ↦ hl) (Log.fieldsOf_body ..) ?_
        · exact (Array.getElem?_setIfInBounds_ne hik).trans hr
        · rw [Log.methodsOf_body]
          exact Log.map_bodySet_of_not_mem b (h.not_mem_methodsOf htypes hmethods hplace hin hik)
    | field owner d =>
      obtain ⟨i, p, hi, howner, hfield, hp⟩ := hold
      refine ⟨i, p, hi.trans_eq (Array.size_setIfInBounds ..).symm, howner, hfield, ?_⟩
      rw [Log.fieldsOf_body, hp]
    | method owner d =>
      obtain ⟨i, p, hi, howner, hplace', hp⟩ := hold
      refine ⟨i, p, hi.trans_eq (Array.size_setIfInBounds ..).symm, howner, hplace', ?_⟩
      rw [Log.methodsOf_body, List.getElem?_map, hp, Log.body?_body, Option.map_some, Log.bodySet]
      split <;> rfl
    | _ => exact hold
  · intro t ht
    rw [Log.body?_body] at ht
    split at ht
    · next heq =>
      obtain ⟨hk, -⟩ := Array.getElem?_eq_some_iff.mp hplace
      exact ⟨k, hk, heq.symm⟩
    · exact h.bodies t ht

/-- A call leaves a record of what it did. -/
theorem step (h : Recorded log m) (hstep : m.InStep) (hsmall : (c.perform m).2.Small) :
    Recorded (log ++ [(c, (c.perform m).1)]) (c.perform m).2 := by
  cases c with
  | type d =>
    have hlimit := hsmall .typeDef
    simp only [count, Call.perform, Module.addType, Module.append, Array.size_push] at hlimit
    exact h.addType hstep hlimit d
  | field owner d =>
    rcases Call.perform_field hstep owner d with
      ⟨-, hrefused⟩ | ⟨i, type, list, -, rfl, -, htype, hlist, hok⟩
    · rw [hrefused]
      exact h.refused _ _
    · rw [hok] at hsmall ⊢
      have hlimit := hsmall .typeDef
      rw [count, Module.withField, Array.size_setIfInBounds] at hlimit
      exact h.withField hlimit htype hlist d
  | method owner d =>
    rcases Call.perform_method hstep owner d with
      ⟨-, hrefused⟩ | ⟨i, type, list, -, rfl, -, htype, hlist, hok⟩
    · rw [hrefused]
      exact h.refused _ _
    · rw [hok] at hsmall ⊢
      have hlimit := hsmall .typeDef
      have hroom := hsmall .methodDef
      rw [count, Module.withMethod, Array.size_setIfInBounds] at hlimit
      rw [count, Module.withMethod, Array.size_push] at hroom
      exact h.withMethod hlimit hroom htype hlist d
  | body target b =>
    rcases Call.perform_body hstep target b with
      ⟨-, hrefused⟩ | ⟨k, place, type, row, -, rfl, hplace, htype, hrow, -, hok⟩
    · rw [hrefused]
      exact h.refused _ _
    · rw [hok] at hsmall ⊢
      have hlimit := hsmall .typeDef
      rw [count, Module.withBody, Array.size_setIfInBounds] at hlimit
      exact h.withBody hlimit (hsmall .methodDef) hplace htype hrow b
  | typeSpec s =>
    refine h.append .typeSpec rfl (by decide) (by decide)
      { Within.refl m with typeSpecs := fun _ _ h ↦ getElem?_push_of_some h } (fun table ↦ ?_)
      Array.getElem?_push_size (fun _ _ h ↦ h) (fun _ _ h ↦ h) (fun _ _ h ↦ h)
    cases table <;> first | rfl | exact Array.size_push _
  | methodRef r =>
    refine h.append .memberRef rfl (by decide) (by decide)
      { Within.refl m with memberRefs := fun _ _ h ↦ getElem?_push_of_some h } (fun table ↦ ?_)
      Array.getElem?_push_size (fun _ _ h ↦ h) (fun _ _ h ↦ h) (fun _ _ h ↦ h)
    cases table <;> first | rfl | exact Array.size_push _
  | fieldRef on name =>
    refine h.append .memberRef rfl (by decide) (by decide)
      { Within.refl m with memberRefs := fun _ _ h ↦ getElem?_push_of_some h } (fun table ↦ ?_)
      Array.getElem?_push_size (fun _ _ h ↦ h) (fun _ _ h ↦ h) (fun _ _ h ↦ h)
    cases table <;> first | rfl | exact Array.size_push _
  | methodSpec s =>
    refine h.append .methodSpec rfl (by decide) (by decide)
      { Within.refl m with methodSpecs := fun _ _ h ↦ getElem?_push_of_some h } (fun table ↦ ?_)
      Array.getElem?_push_size (fun _ _ h ↦ h) (fun _ _ h ↦ h) (fun _ _ h ↦ h)
    cases table <;> first | rfl | exact Array.size_push _
  | userString s =>
    refine h.append .userString rfl (by decide) (by decide)
      { Within.refl m with userStrings := fun _ _ h ↦ getElem?_push_of_some h } (fun table ↦ ?_)
      Array.getElem?_push_size (fun _ _ h ↦ h) (fun _ _ h ↦ h) (fun _ _ h ↦ h)
    cases table <;> first | rfl | exact Array.size_push _
  | version n => exact h.pass (by rintro _ ⟨⟩) (by rintro _ _ ⟨⟩) rfl
  | lines t => exact h.pass (by rintro _ ⟨⟩) (by rintro _ _ ⟨⟩) rfl

end Recorded

/-! ### Histories and their records -/

/-- No table loses a row. -/
theorem InStep.count_le_perform (h : m.InStep) (c : Call) (table : Table) :
    m.count table ≤ (c.perform m).2.count table := by
  cases c with
  | field owner d =>
    rcases Call.perform_field h owner d with ⟨-, hrefused⟩ | ⟨i, type, list, -, -, -, -, -, hok⟩
    · rw [hrefused]
    · rw [hok]
      cases table <;> simp [count, Module.withField]
  | method owner d =>
    rcases Call.perform_method h owner d with ⟨-, hrefused⟩ | ⟨i, type, list, -, -, -, -, -, hok⟩
    · rw [hrefused]
    · rw [hok]
      cases table <;> simp [count, Module.withMethod]
  | body target b =>
    rcases Call.perform_body h target b with
      ⟨-, hrefused⟩ | ⟨k, place, type, row, -, -, -, -, -, -, hok⟩
    · rw [hrefused]
    · rw [hok]
      cases table <;> simp [count, Module.withBody]
  | _ => cases table <;> simp [count, Call.perform, Module.addType, addTypeSpec, addMember,
      addMethodSpec, addString, append]

theorem Small.of_perform (h : (c.perform m).2.Small) (hstep : m.InStep) : m.Small :=
  fun table ↦ (hstep.count_le_perform c table).trans_lt (h table)

theorem Built.recorded (h : Built name log m) (hsmall : m.Small) : Recorded log m := by
  induction h with
  | empty => exact recorded_empty name
  | step hm c ih => exact (ih (hsmall.of_perform hm.inStep)).step hm.inStep hsmall

/-- The token that a call returns is that of the next row of its table. -/
theorem InStep.perform_token (hstep : m.InStep) {t : Token}
    (h : (c.perform m).1 = .ok (some t)) : ∃ table, c.table? = some table ∧
      t = Token.next table (m.count table) ∧
      (c.perform m).2.count table = m.count table + 1 := by
  cases c with
  | field owner d =>
    rcases Call.perform_field hstep owner d with
      ⟨-, hrefused⟩ | ⟨i, type, list, -, -, -, -, -, hok⟩
    · rw [hrefused] at h
      cases h
    · rw [hok] at h ⊢
      cases h
      exact ⟨.field, rfl, rfl, Array.size_push _⟩
  | method owner d =>
    rcases Call.perform_method hstep owner d with
      ⟨-, hrefused⟩ | ⟨i, type, list, -, -, -, -, -, hok⟩
    · rw [hrefused] at h
      cases h
    · rw [hok] at h ⊢
      cases h
      exact ⟨.methodDef, rfl, rfl, Array.size_push _⟩
  | body target b =>
    rcases Call.perform_body hstep target b with
      ⟨-, hrefused⟩ | ⟨k, place, type, row, -, -, -, -, -, -, hok⟩
    · rw [hrefused] at h
      cases h
    · rw [hok] at h
      cases h
  | _ =>
    cases h
    try exact ⟨_, rfl, rfl, Array.size_push _⟩

theorem Built.exists_table (h : Built name log m) {t : Token} (hmem : (c, .ok (some t)) ∈ log) :
    ∃ table, c.table? = some table := by
  induction h with
  | empty => cases hmem
  | step hm c' ih =>
    rcases List.mem_append.mp hmem with hmem | hmem
    · exact ih hmem
    · obtain ⟨rfl, hanswer⟩ := Prod.mk.inj (List.mem_singleton.mp hmem)
      obtain ⟨table, htable, -⟩ := hm.inStep.perform_token hanswer.symm
      exact ⟨table, htable⟩

/-- A token is returned only once. -/
theorem Built.distinct (h : Built name log m) (hsmall : m.Small) : log.tokens.Nodup := by
  induction h with
  | empty => exact List.nodup_nil
  | @step log m h c ih =>
    have hsmall' := hsmall.of_perform h.inStep
    have hearlier := ih hsmall'
    rw [Log.tokens_append]
    cases hanswer : (c.perform m).1 with
    | error e => exact (List.append_nil _).symm ▸ hearlier
    | ok token =>
      cases token with
      | none => exact (List.append_nil _).symm ▸ hearlier
      | some t =>
        refine List.nodup_append.mpr ⟨hearlier, List.nodup_singleton t, fun a ha b hb heq ↦ ?_⟩
        obtain rfl : b = t := List.mem_singleton.mp hb
        subst heq
        -- the row of an earlier token is there already
        obtain ⟨c', hc'⟩ := Log.mem_tokens.mp ha
        obtain ⟨table', htable'⟩ := h.exists_table hc'
        obtain ⟨k, hk, ht, -⟩ := (h.recorded hsmall').exists_row htable' hc'
        obtain ⟨table, -, hnext, hcount⟩ := h.inStep.perform_token hanswer
        have hlimit := hsmall' table'
        have hroom := hcount ▸ hsmall table
        obtain ⟨rfl, rfl⟩ := Token.next_inj (by omega) hroom (ht.symm.trans hnext)
        exact lt_irrefl _ hk

/-! ### Looking up what was defined -/

theorem typeToken_isIn (hk : k + 1 < 2 ^ 24) : (typeToken k).isIn .typeDef = true :=
  (Token.addresses_iff.mpr ⟨hk, rfl⟩).1

/-- The token of a type specification is not taken for that of a type. -/
theorem typeSignature_spec {s : Signature} (hk : k + 1 < 2 ^ 24)
    (h : m.typeSpecs[k]? = some s) :
    m.typeSignature (Token.next .typeSpec k) = .ok s := by
  have hother : (Token.next .typeSpec k).isIn .typeDef = false := by
    by_contra hin
    obtain ⟨-, hindex⟩ := (Token.addresses_iff (t := Token.next .typeSpec k)).mpr ⟨hk, rfl⟩
    obtain ⟨-, heq⟩ := Token.addresses_iff.mp ⟨eq_true_of_ne_false hin, hindex⟩
    cases (Token.next_inj hk hk heq).1
  rw [typeSignature, hother]
  exact rowAt_next hk h

/-- The token of a field looks up its row at its place among the fields of its type. -/
theorem Recorded.fieldDef_eq (h : Recorded log m) (hsmall : m.Small) {t : Token} {d : FieldDef}
    (hmem : (.field owner d, .ok (some t)) ∈ log) : ∃ place, m.fieldDef t = .ok ⟨place, d⟩ ∧
      typeToken place.owner = owner ∧ (log.fieldsOf owner)[place.position]? = some (t, d) := by
  obtain ⟨k, hk, rfl, i, p, hi, rfl, hplace, hp⟩ := h.exists_row rfl hmem
  have hroom : k + 1 < 2 ^ 24 := Nat.lt_of_le_of_lt hk (hsmall .field)
  obtain ⟨e, htype, -⟩ := h.exists_type hi
  refine ⟨⟨i, p⟩, ownedAt_next hroom hplace htype ?_, rfl, hp⟩
  rw [Log.typeRow, List.getElem?_toArray, List.getElem?_map, hp]
  rfl

/-- The token of a method looks up its row, with the body that was set last. -/
theorem Recorded.methodDef_eq (h : Recorded log m) (hsmall : m.Small) {t : Token} {d : MethodDef}
    (hmem : (.method owner d, .ok (some t)) ∈ log) :
    ∃ place, m.methodDef t = .ok ⟨place, { d with body := log.body? t <|> d.body }⟩ ∧
      typeToken place.owner = owner ∧ (log.methodsOf owner)[place.position]? =
        some (t, { d with body := log.body? t <|> d.body }) := by
  obtain ⟨k, hk, rfl, i, p, hi, rfl, hplace, hp⟩ := h.exists_row rfl hmem
  have hroom : k + 1 < 2 ^ 24 := Nat.lt_of_le_of_lt hk (hsmall .methodDef)
  obtain ⟨e, htype, -⟩ := h.exists_type hi
  refine ⟨⟨i, p⟩, ownedAt_next hroom hplace htype ?_, rfl, hp⟩
  rw [Log.typeRow, List.getElem?_toArray, List.getElem?_map, hp]
  rfl

/-- Looking up the tokens that a type lists gives what was defined for it. -/
theorem Recorded.fieldsOf_eq (h : Recorded log m) (hsmall : m.Small)
    (htokens : m.fieldTokens owner = .ok ((log.fieldsOf owner).map Prod.fst)) :
    m.fieldsOf owner = .ok (log.fieldsOf owner) := by
  rw [fieldsOf, htokens]
  refine lookUpAll_eq fun (t, d) hmem ↦ ?_
  obtain ⟨place, hfound, -⟩ := h.fieldDef_eq hsmall (Log.of_mem_fieldsOf hmem)
  exact ⟨_, hfound, rfl⟩

theorem Recorded.methodsOf_eq (h : Recorded log m) (hsmall : m.Small)
    (htokens : m.methodTokens owner = .ok ((log.methodsOf owner).map Prod.fst)) :
    m.methodsOf owner = .ok (log.methodsOf owner) := by
  rw [methodsOf, htokens]
  refine lookUpAll_eq fun (t, d) hmem ↦ ?_
  obtain ⟨d', hcall, rfl⟩ := Log.of_mem_methodsOf hmem
  obtain ⟨place, hfound, -⟩ := h.methodDef_eq hsmall hcall
  exact ⟨_, hfound, rfl⟩

/-- What a call was answered with leads to the row that the call has added. -/
theorem Recorded.shows (h : Recorded log m) (hsmall : m.Small) {table : Table}
    (htable : c.table? = some table) {t : Token} (hmem : (c, .ok (some t)) ∈ log) :
    m.Shows log t c := by
  obtain ⟨k, hk, rfl, hold⟩ := h.exists_row htable hmem
  have hroom : k + 1 < 2 ^ 24 := Nat.lt_of_le_of_lt hk (hsmall table)
  cases c with
  | type d =>
    cases htable
    obtain ⟨hrow, hfieldList, hmethodList⟩ := hold
    have htype : m.typeDef (typeToken k) = .ok (log.typeRow (typeToken k) d) :=
      rowAt_next hroom hrow
    have hfields :
        m.fieldTokens (typeToken k) = .ok ((log.fieldsOf (typeToken k)).map Prod.fst) := by
      rw [fieldTokens, typeToken, rowAt_next hroom hfieldList]
      rfl
    have hmethods :
        m.methodTokens (typeToken k) = .ok ((log.methodsOf (typeToken k)).map Prod.fst) := by
      rw [methodTokens, typeToken, rowAt_next hroom hmethodList]
      rfl
    refine ⟨htype, ?_, hfields, h.fieldsOf_eq hsmall hfields, hmethods,
      h.methodsOf_eq hsmall hmethods⟩
    show m.typeSignature (typeToken k) = _
    rw [typeSignature, if_pos (typeToken_isIn hroom), htype]
    rfl
  | field owner d =>
    cases htable
    obtain ⟨place, hfound, howner, hplace⟩ := h.fieldDef_eq hsmall hmem
    exact ⟨_, hfound, howner, rfl, hplace⟩
  | method owner d =>
    cases htable
    obtain ⟨place, hfound, howner, hplace⟩ := h.methodDef_eq hsmall hmem
    exact ⟨_, hfound, howner, rfl, hplace⟩
  | typeSpec s =>
    cases htable
    exact ⟨rowAt_next hroom hold, typeSignature_spec hroom hold⟩
  | body target b => cases htable
  | version n => cases htable
  | lines t => cases htable
  | _ =>
    cases htable
    exact rowAt_next hroom hold

/-- Nothing is found under a token that no call for the table returned. -/
theorem Recorded.rowAt_error (h : Recorded log m) {table : Table}
    (hsize : rows.size = m.count table)
    {t : Token} (hnone : ∀ c, (c, .ok (some t)) ∈ log → c.table? ≠ some table) :
    rowAt rows t table = .error (.invalidToken t) := by
  rcases rowAt_cases rows t table with ⟨i, row, -, rfl, -, hrow, -⟩ | ⟨-, herror⟩
  · obtain ⟨hi, -⟩ := Array.getElem?_eq_some_iff.mp hrow
    obtain ⟨c, hmem, htable, -⟩ := h.exists_call (hsize ▸ hi)
    exact absurd htable (hnone c hmem)
  · exact herror

/-- A token that no call was answered with leads nowhere. -/
theorem Recorded.refuses (h : Recorded log m) (hstep : m.InStep) {table : Table} {t : Token}
    (hnone : ∀ c, (c, .ok (some t)) ∈ log → c.table? ≠ some table) : m.Refuses t table := by
  cases table with
  | typeRef => trivial
  | typeDef =>
    have hfields : m.fieldTokens t = .error (.invalidToken t) := by
      rw [fieldTokens, h.rowAt_error hstep.fieldLists hnone]
      rfl
    have hmethods : m.methodTokens t = .error (.invalidToken t) := by
      rw [methodTokens, h.rowAt_error hstep.methodLists hnone]
      rfl
    refine ⟨h.rowAt_error rfl hnone, hfields, ?_, hmethods, ?_⟩
    · rw [fieldsOf, hfields]
      rfl
    · rw [methodsOf, hmethods]
      rfl
  | field => exact ownedAt_of_error _ (h.rowAt_error rfl hnone)
  | methodDef => exact ownedAt_of_error _ (h.rowAt_error rfl hnone)
  | _ => exact h.rowAt_error rfl hnone

theorem Recorded.typeSignature_error (h : Recorded log m) {t : Token}
    (hnone : ∀ c, (c, .ok (some t)) ∈ log → c.table? ≠ some .typeDef ∧ c.table? ≠ some .typeSpec) :
    m.typeSignature t = .error (.invalidToken t) := by
  have htype : m.typeDef t = .error (.invalidToken t) :=
    h.rowAt_error rfl fun c hmem ↦ (hnone c hmem).1
  rw [typeSignature]
  split
  · rw [htype]
    rfl
  · exact h.rowAt_error rfl fun c hmem ↦ (hnone c hmem).2

/-! ### Which calls are refused -/

theorem Recorded.typeDef_ok_iff (h : Recorded log m) (hsmall : m.Small) (t : Token) :
    (∃ d, m.typeDef t = .ok d) ↔ ∃ d, (.type d, .ok (some t)) ∈ log := by
  constructor
  · rintro ⟨d, hok⟩
    by_contra hnone
    have herror : m.typeDef t = .error (.invalidToken t) := h.rowAt_error rfl fun c hmem htable ↦ by
      cases c <;> first | exact hnone ⟨_, hmem⟩ | cases htable
    cases hok.symm.trans herror
  · rintro ⟨d, hmem⟩
    exact ⟨_, (h.shows hsmall rfl hmem).1⟩

theorem Recorded.methodDef_ok_iff (h : Recorded log m) (hsmall : m.Small) (t : Token) :
    (∃ row, m.methodDef t = .ok row) ↔ ∃ owner d, (.method owner d, .ok (some t)) ∈ log := by
  constructor
  · rintro ⟨row, hok⟩
    by_contra hnone
    have herror : m.methodDef t = .error (.invalidToken t) :=
      ownedAt_of_error _ <| h.rowAt_error rfl fun c hmem htable ↦ by
        cases c <;> first | exact hnone ⟨_, _, hmem⟩ | cases htable
    cases hok.symm.trans herror
  · rintro ⟨owner, d, hmem⟩
    obtain ⟨place, hfound, -⟩ := h.methodDef_eq hsmall hmem
    exact ⟨_, hfound⟩

/-- A call is refused exactly if no earlier call defined the row that it is about. -/
theorem Recorded.refused_iff (h : Recorded log m) (hstep : m.InStep) (hsmall : m.Small) (c : Call) :
    (∃ e, (c.perform m).1 = .error e) ↔ ¬c.Applies log := by
  cases c with
  | field owner d =>
    rw [Call.Applies, ← h.typeDef_ok_iff hsmall]
    rcases Call.perform_field hstep owner d with
      ⟨htype, hrefused⟩ | ⟨i, type, list, -, -, htype, -, -, hok⟩
    · simp [hrefused, htype]
    · simp [hok, htype]
  | method owner d =>
    rw [Call.Applies, ← h.typeDef_ok_iff hsmall]
    rcases Call.perform_method hstep owner d with
      ⟨htype, hrefused⟩ | ⟨i, type, list, -, -, htype, -, -, hok⟩
    · simp [hrefused, htype]
    · simp [hok, htype]
  | body target b =>
    rw [Call.Applies, ← h.methodDef_ok_iff hsmall]
    rcases Call.perform_body hstep target b with
      ⟨hmethod, hrefused⟩ | ⟨k, place, type, row, -, -, -, -, -, hmethod, hok⟩
    · simp [hrefused, hmethod]
    · simp [hok, hmethod]
  | _ => simp [Call.perform, Call.Applies]

/-- Every call of a history was made on what the calls before it built. -/
theorem Built.split {before after : Log} (h : Built name log m)
    (hlog : log = before ++ (c, answer) :: after) : ∃ m₀, Built name before m₀ ∧
      answer = (c.perform m₀).1 ∧ ∀ table, m₀.count table ≤ m.count table := by
  induction h generalizing after with
  | empty => simp at hlog
  | @step log m h c' ih =>
    have hle' := h.inStep.count_le_perform c'
    rcases List.eq_nil_or_concat' after with rfl | ⟨rest, last, rfl⟩
    · obtain ⟨rfl, hentry⟩ := List.append_inj' hlog rfl
      obtain ⟨rfl, rfl⟩ := Prod.mk.inj (List.singleton_inj.mp hentry)
      exact ⟨m, h, rfl, hle'⟩
    · rw [← List.cons_append, ← List.append_assoc] at hlog
      obtain ⟨hlog, -⟩ := List.append_inj' hlog rfl
      obtain ⟨m₀, hbuilt, hanswer, hle⟩ := ih hlog
      exact ⟨m₀, hbuilt, hanswer, fun table ↦ (hle table).trans (hle' table)⟩

/-- What the log says of the tables, for a module that is small enough for its tokens to be
different. -/
theorem Built.addressed (h : Built name log m) (hsmall : m.Small) : Addressed log m where
  distinct := h.distinct hsmall
  shown c t hmem := by
    obtain ⟨table, htable⟩ := h.exists_table hmem
    exact (h.recorded hsmall).shows hsmall htable hmem
  refused table t hnone := (h.recorded hsmall).refuses h.inStep hnone
  untyped t hnone := (h.recorded hsmall).typeSignature_error hnone
  served before c answer after hlog := by
    obtain ⟨m₀, hbuilt, rfl, hle⟩ := h.split hlog
    have hsmall₀ : m₀.Small := fun table ↦ (hle table).trans_lt (hsmall table)
    exact (hbuilt.recorded hsmall₀).refused_iff hbuilt.inStep hsmall₀ c

/-! ### Setting a body -/

section WithBody

variable {type d : TypeDef} {place place' : RowPlace} {row row' : MethodDef} {t : Token}

/-- Setting a body leaves everything but the methods of types as it is. -/
theorem types_withBody (htype : m.types[place.owner]? = some type) (row : MethodDef) (b : Body)
    {i : Nat} (hd : m.types[i]? = some d) : ∃ d', (m.withBody place type row b).types[i]? =
    some d' ∧
      d'.withoutMethods = d.withoutMethods := by
  by_cases hi : place.owner = i
  · subst hi
    cases htype.symm.trans hd
    obtain ⟨hin, -⟩ := Array.getElem?_eq_some_iff.mp htype
    exact ⟨_, Array.getElem?_setIfInBounds_self_of_lt hin, rfl⟩
  · exact ⟨d, (Array.getElem?_setIfInBounds_ne hi).trans hd, rfl⟩

theorem typeDef_withBody (htype : m.types[place.owner]? = some type) (row : MethodDef) (b : Body)
    (t : Token) : ((m.withBody place type row b).typeDef t).map TypeDef.withoutMethods =
      (m.typeDef t).map TypeDef.withoutMethods := by
  rcases rowAt_cases m.types t .typeDef with ⟨i, d, hi, rfl, -, hd, hok⟩ | ⟨-, herror⟩
  · obtain ⟨d', hd', hsame⟩ := types_withBody htype row b hd
    rw [typeDef, typeDef, hok, rowAt_next hi hd']
    exact congrArg Except.ok hsame
  · have hsize : m.types.size = (m.withBody place type row b).types.size :=
      (Array.size_setIfInBounds ..).symm
    rw [typeDef, typeDef, herror, rowAt_eq_of_size hsize herror]

theorem fieldDef_withBody (hstep : m.InStep) (htype : m.types[place.owner]? = some type)
    (row : MethodDef) (b : Body) (t : Token) :
    (m.withBody place type row b).fieldDef t = m.fieldDef t := by
  rcases ownedAt_cases hstep.fields t .field with
    ⟨i, at_, d, field, hi, rfl, hat, hd, hfield, hok⟩ | ⟨hnone, herror⟩
  · obtain ⟨d', hd', hsame⟩ := types_withBody htype row b hd
    have hfields : d'.fields = d.fields := (congrArg TypeDef.fields hsame :)
    rw [fieldDef, fieldDef, hok]
    exact ownedAt_next hi hat hd' (hfields ▸ hfield)
  · exact (ownedAt_of_error _ hnone).trans herror.symm

/-- The method at the place has the body. -/
theorem method_withBody_self (htype : m.types[place.owner]? = some type)
    (hrow : type.methods[place.position]? = some row) (b : Body) :
    ∃ d, (m.withBody place type row b).types[place.owner]? = some d ∧
      d.methods[place.position]? = some { row with body := some b } := by
  obtain ⟨hin, -⟩ := Array.getElem?_eq_some_iff.mp htype
  obtain ⟨hat, -⟩ := Array.getElem?_eq_some_iff.mp hrow
  exact ⟨_, Array.getElem?_setIfInBounds_self_of_lt hin,
    Array.getElem?_setIfInBounds_self_of_lt hat⟩

/-- Setting a body leaves the other methods where they are. -/
theorem method_withBody_ne (htype : m.types[place.owner]? = some type) (row : MethodDef) (b : Body)
    (hne : place ≠ place') (hd : m.types[place'.owner]? = some d)
    (hrow : d.methods[place'.position]? = some row') :
    ∃ d', (m.withBody place type row b).types[place'.owner]? = some d' ∧
      d'.methods[place'.position]? = some row' := by
  by_cases howner : place.owner = place'.owner
  · rw [← howner] at hd ⊢
    cases htype.symm.trans hd
    obtain ⟨hin, -⟩ := Array.getElem?_eq_some_iff.mp htype
    have hposition : place.position ≠ place'.position := by
      intro heq
      obtain ⟨i, p⟩ := place
      obtain ⟨i', p'⟩ := place'
      exact hne (congrArg₂ RowPlace.mk howner heq)
    exact ⟨_, Array.getElem?_setIfInBounds_self_of_lt hin,
      (Array.getElem?_setIfInBounds_ne hposition).trans hrow⟩
  · exact ⟨d, (Array.getElem?_setIfInBounds_ne howner).trans hd, hrow⟩

/-- Two methods do not share a place. -/
theorem Recorded.places_inj (h : Recorded log m) (hstep : m.InStep) (hsmall : m.Small) {k k' : Nat}
    (hplace : m.methodPlaces[k]? = some place) (hplace' : m.methodPlaces[k']? = some place) :
    k = k' := by
  obtain ⟨d, hd, hlt⟩ := hstep.methods k place hplace
  have hrow := Array.getElem?_eq_getElem hlt
  have heq := (h.exists_method hplace hd hrow).symm.trans (h.exists_method hplace' hd hrow)
  obtain ⟨hk, -⟩ := Array.getElem?_eq_some_iff.mp hplace
  obtain ⟨hk', -⟩ := Array.getElem?_eq_some_iff.mp hplace'
  have hlimit : m.methodPlaces.size < 2 ^ 24 := hsmall .methodDef
  exact (Token.next_inj (by omega) (by omega) (congrArg Prod.fst (Option.some.inj heq))).2

/-- Lookups of methods, after one of them has got a body. -/
theorem Recorded.methodDef_withBody (h : Recorded log m) (hstep : m.InStep) (hsmall : m.Small)
    (hk : k + 1 < 2 ^ 24) (hplace : m.methodPlaces[k]? = some place)
    (htype : m.types[place.owner]? = some type) (hrow : type.methods[place.position]? = some row)
    (b : Body) (t : Token) : (m.withBody place type row b).methodDef t =
      if t = Token.next .methodDef k then (m.methodDef t).map (OwnedRow.withBody · b)
      else m.methodDef t := by
  rcases ownedAt_cases hstep.methods t .methodDef with
    ⟨k', place', d, row', hk', rfl, hplace', hd, hrow', hok⟩ | ⟨hnone, herror⟩
  · by_cases hkk : k = k'
    · subst hkk
      cases hplace.symm.trans hplace'
      cases htype.symm.trans hd
      cases hrow.symm.trans hrow'
      obtain ⟨d', hd', hset⟩ := method_withBody_self htype hrow b
      rw [if_pos rfl, methodDef, methodDef, hok]
      exact ownedAt_next hk hplace hd' hset
    · have hne : place ≠ place' := fun heq ↦
        hkk (h.places_inj hstep hsmall hplace (heq ▸ hplace'))
      obtain ⟨d', hd', hkept⟩ := method_withBody_ne htype row b hne hd hrow'
      rw [if_neg fun heq ↦ hkk (Token.next_inj hk' hk heq).2.symm, methodDef, methodDef, hok]
      exact ownedAt_next hk' hplace' hd' hkept
  · have herror' : (m.withBody place type row b).methodDef t = .error (.invalidToken t) :=
      ownedAt_of_error _ hnone
    rw [herror', methodDef, herror]
    split <;> rfl

end WithBody

/-- Two modules differ in the body of one method, and in nothing else that looks into them. -/
structure DiffersInBody (m m' : Module) (target : Token) (b : Body) : Prop where
  tables : m' = { m with types := m'.types }
  types : ∀ t, (m'.typeDef t).map TypeDef.withoutMethods = (m.typeDef t).map TypeDef.withoutMethods
  fields : ∀ t, m'.fieldDef t = m.fieldDef t
  methods : ∀ t, m'.methodDef t =
    if t = target then (m.methodDef t).map (OwnedRow.withBody · b) else m.methodDef t

theorem Built.differsInBody (h : Built name log m) (hsmall : m.Small) {target : Token} {b : Body}
    (hset : (Call.body target b).perform m = (.ok none, m')) : DiffersInBody m m' target b := by
  rcases Call.perform_body h.inStep target b with
    ⟨-, hrefused⟩ | ⟨k, place, type, row, hk, rfl, hplace, htype, hrow, -, hok⟩
  · cases hset.symm.trans hrefused
  · cases hset.symm.trans hok
    exact ⟨rfl, typeDef_withBody htype row b, fieldDef_withBody h.inStep htype row b,
      (h.recorded hsmall).methodDef_withBody h.inStep hsmall hk hplace htype hrow b⟩

/-- Tokens address the rows for which they were returned, whatever calls build a module up, as long
as no table outgrows the tokens. The tokens are all different, each looks up what its call defined,
and what no call returned is refused. The tables stay in step all along, so that no lookup and no
call goes past the end of one of them. A refused call changes nothing, and setting a body changes
what the token of its method looks up, and nothing else. -/
theorem tokens_address_rows :
    (∀ name log m, Built name log m → m.InStep) ∧
    (∀ name log m, Built name log m → m.Small → Addressed log m) ∧
    (∀ name log m (c : Call) e, Built name log m → (c.perform m).1 = .error e →
      ∃ t, c.subject? = some t ∧ c.perform m = (.error (.invalidToken t), m)) ∧
    ∀ name log m m' target b, Built name log m → m.Small →
      (Call.body target b).perform m = (.ok none, m') → DiffersInBody m m' target b :=
  ⟨fun _ _ _ hbuilt ↦ hbuilt.inStep, fun _ _ _ hbuilt hsmall ↦ hbuilt.addressed hsmall,
    fun _ _ _ _ _ hbuilt herror ↦ Call.perform_of_refused hbuilt.inStep herror,
    fun _ _ _ _ _ _ hbuilt hsmall hset ↦ hbuilt.differsInBody hsmall hset⟩

/-! ### A module with a refused row and a body that is set later -/

def fooDef : TypeDef := ⟨"Sample", "Foo", .none, none, [], [], #[], #[]⟩

def barDef : TypeDef := ⟨"Sample", "Bar", TypeKind.struct.flags, none, [], [], #[], #[]⟩

def countDef : FieldDef := ⟨"count", .definition ⟨0x02000002⟩, false⟩

def runDef : MethodDef := ⟨"Run", .none, [], .definition ⟨0x02000001⟩, [], none⟩

def stopDef : MethodDef := ⟨"Stop", .none, [], .definition ⟨0x02000001⟩, [], none⟩

def runBody : Body := ⟨[], #[.loadNull, .ret], []⟩

/-- Rows of two types in turn, so that the tokens of a type are not consecutive. -/
def sampleLog : Log :=
  [(.type fooDef, .ok (some ⟨0x02000001⟩)), (.type barDef, .ok (some ⟨0x02000002⟩)),
    (.field ⟨0x02000002⟩ countDef, .ok (some ⟨0x04000001⟩)),
    (.method ⟨0x02000001⟩ runDef, .ok (some ⟨0x06000001⟩)),
    (.method ⟨0x02000002⟩ runDef, .ok (some ⟨0x06000002⟩)),
    (.method ⟨0x02000001⟩ stopDef, .ok (some ⟨0x06000003⟩)),
    (.field ⟨0x02000009⟩ countDef, .error (.invalidToken ⟨0x02000009⟩)),
    (.userString "hello", .ok (some ⟨0x70000001⟩))]

def sample : Module :=
  { empty "Sample" with
    types := #[{ fooDef with methods := #[runDef, stopDef] },
      { barDef with fields := #[countDef], methods := #[runDef] }]
    fieldPlaces := #[⟨1, 0⟩]
    methodPlaces := #[⟨0, 0⟩, ⟨1, 0⟩, ⟨0, 1⟩]
    fieldLists := #[#[], #[⟨0x04000001⟩]]
    methodLists := #[#[⟨0x06000001⟩, ⟨0x06000003⟩], #[⟨0x06000002⟩]]
    userStrings := #["hello"] }

theorem built_sample : Built "Sample" sampleLog sample :=
  (((((((Built.empty.step (.type fooDef)).step (.type barDef)).step
    (.field ⟨0x02000002⟩ countDef)).step (.method ⟨0x02000001⟩ runDef)).step
    (.method ⟨0x02000002⟩ runDef)).step (.method ⟨0x02000001⟩ stopDef)).step
    (.field ⟨0x02000009⟩ countDef)).step (.userString "hello")

/-- The module after a body was set for the third of its methods. -/
def sampleStopped : Module := ((Call.body ⟨0x06000003⟩ runBody).perform sample).2

/-- For a module with two types and rows that were defined in turns, and one call that was refused.
-/
theorem tokens_address_rows_sample :
    (Built "Sample" sampleLog sample ∧ sample.Small ∧ sample.InStep ∧
      Addressed sampleLog sample) ∧
    (((Call.field ⟨0x02000009⟩ countDef).perform sample).1 = .error (.invalidToken ⟨0x02000009⟩) ∧
      (Call.field ⟨0x02000009⟩ countDef).perform sample =
        (.error (.invalidToken ⟨0x02000009⟩), sample)) ∧
    (Call.body ⟨0x06000003⟩ runBody).perform sample = (.ok none, sampleStopped) ∧
      DiffersInBody sample sampleStopped ⟨0x06000003⟩ runBody := by
  obtain ⟨hinStep, haddresses, hrefuses, hsets⟩ := tokens_address_rows
  have hsmall : sample.Small := fun table ↦ by cases table <;> decide
  have hrefused : ((Call.field ⟨0x02000009⟩ countDef).perform sample).1 =
      .error (.invalidToken ⟨0x02000009⟩) := rfl
  have hset : (Call.body ⟨0x06000003⟩ runBody).perform sample = (.ok none, sampleStopped) := rfl
  obtain ⟨t, ht, hunchanged⟩ := hrefuses _ _ _ _ _ built_sample hrefused
  cases ht
  exact ⟨⟨built_sample, hsmall, hinStep _ _ _ built_sample,
    haddresses _ _ _ built_sample hsmall⟩, ⟨hrefused, hunchanged⟩, hset,
    hsets _ _ _ _ _ _ built_sample hsmall hset⟩

end Module

end ManagedMachine
