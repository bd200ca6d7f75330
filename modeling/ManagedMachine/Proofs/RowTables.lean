import ManagedMachine.Module.Description
import ManagedMachine.Proofs.Keeping

/-!
# The tables of a module

The rows of fields and methods stand with their types, and two further tables lead to them: the
places where the rows stand, and for each type the tokens of what it has. Lookups and calls follow
an entry of one table into another and take it for granted that it is there. `Module.InStep` is what
they rely on. It holds of every module that calls build, however large it is
(`Module.Built.inStep`), and `Module.Call.perform_field` and its siblings say what a call does where
it holds.

Every call of the builder either fails with all tables as they were, or adds one row and the entries
that lead to it. The lemmas about calls say both with the owner of the row, its position and its
token given, so users never look at the tables themselves. Lookups through a token use the same
tables in the other direction (`rowAt_cases`).
-/

set_option autoImplicit false
set_option relaxedAutoImplicit false

namespace ManagedMachine

namespace Token

/-! ### Tokens as numbers -/

theorem toNat_row (t : Token) : t.row.toNat = t.value.toNat % 2 ^ 24 := by
  rw [row, UInt32.toNat_and]
  exact Nat.and_two_pow_sub_one_eq_mod _ 24

theorem toNat_tableByte (t : Token) : t.tableByte.toNat = t.value.toNat / 2 ^ 24 := by
  have hlt := t.value.toNat_lt
  have hshift : (t.value >>> 24).toNat = t.value.toNat / 2 ^ 24 := by
    rw [UInt32.toNat_shiftRight, Nat.shiftRight_eq_div_pow]
    rfl
  rw [tableByte, UInt32.toNat_toUInt8, hshift]
  omega

theorem toNat_ofRow (table : Table) (row : UInt32) :
    (ofRow table row).value.toNat = table.byte.toNat * 2 ^ 24 + row.toNat % 2 ^ 24 := by
  have hbyte := table.byte.toNat_lt
  have hrow : (row &&& 0xffffff).toNat = row.toNat % 2 ^ 24 := by
    rw [UInt32.toNat_and]
    exact Nat.and_two_pow_sub_one_eq_mod _ 24
  have hshift : (table.byte.toUInt32 <<< 24).toNat = table.byte.toNat <<< 24 := by
    rw [UInt32.toNat_shiftLeft, UInt8.toNat_toUInt32, Nat.shiftLeft_eq]
    show table.byte.toNat * 2 ^ 24 % 2 ^ 32 = _
    omega
  rw [ofRow, UInt32.toNat_or, hshift, hrow,
    ← Nat.shiftLeft_add_eq_or_of_lt (Nat.mod_lt _ (by decide)), Nat.shiftLeft_eq]

variable {t : Token} {table table' : Table} {i j : Nat}

theorem toNat_next (h : i + 1 < 2 ^ 24) :
    (next table i).value.toNat = table.byte.toNat * 2 ^ 24 + (i + 1) := by
  have hrow : (UInt32.ofNat (i + 1)).toNat = i + 1 := by
    rw [UInt32.toNat_ofNat']
    omega
  rw [next, toNat_ofRow, hrow, Nat.mod_eq_of_lt h]

theorem isIn_iff : t.isIn table = true ↔ t.value.toNat / 2 ^ 24 = table.byte.toNat := by
  rw [isIn, beq_iff_eq, ← UInt8.toNat_inj, toNat_tableByte]

theorem index?_eq_some_iff : t.index? = some i ↔ t.value.toNat % 2 ^ 24 = i + 1 := by
  have hzero : t.row = 0 ↔ t.value.toNat % 2 ^ 24 = 0 := by
    rw [← UInt32.toNat_inj, toNat_row]
    rfl
  rw [index?, toNat_row]
  split
  · next h =>
    rw [hzero] at h
    simp only [h, reduceCtorEq]
  · next h =>
    rw [hzero] at h
    rw [Option.some.injEq]
    omega

/-- A token addresses a row of a table exactly if it is the token that the row was given. -/
theorem addresses_iff : t.isIn table = true ∧ t.index? = some i ↔
    i + 1 < 2 ^ 24 ∧ t = next table i := by
  rw [isIn_iff, index?_eq_some_iff]
  constructor
  · rintro ⟨htable, hrow⟩
    have hsmall : i + 1 < 2 ^ 24 := hrow ▸ Nat.mod_lt _ (by decide)
    have hvalue : t.value.toNat = (next table i).value.toNat := by
      rw [toNat_next hsmall]
      omega
    exact ⟨hsmall, congrArg Token.mk (UInt32.toNat_inj.mp hvalue)⟩
  · rintro ⟨hsmall, rfl⟩
    rw [toNat_next hsmall]
    omega

theorem next_inj (hi : i + 1 < 2 ^ 24) (hj : j + 1 < 2 ^ 24)
    (h : next table i = next table' j) : table = table' ∧ i = j := by
  have heq : (next table i).value.toNat = (next table' j).value.toNat := by rw [h]
  rw [toNat_next hi, toNat_next hj] at heq
  exact ⟨Table.byte_injective (UInt8.toNat_inj.mp (by omega)), by omega⟩

end Token

namespace Module

variable {α : Type} {rows : Array α} {table : Table} {t : Token} {i : Nat} {row : α} {e : Error}

/-! ### Looking up rows -/

/-- A token is looked up if it is that of a row, and is refused otherwise. -/
theorem rowAt_cases (rows : Array α) (t : Token) (table : Table) :
    (∃ i row, i + 1 < 2 ^ 24 ∧ t = Token.next table i ∧ t.index? = some i ∧
      rows[i]? = some row ∧ rowAt rows t table = .ok row) ∨
    ((∀ i row, i + 1 < 2 ^ 24 → t = Token.next table i → rows[i]? ≠ some row) ∧
      rowAt rows t table = .error (.invalidToken t)) := by
  cases hfound : if t.isIn table then t.index?.bind (rows[·]?) else none with
  | some row =>
    have hrow : rowAt rows t table = .ok row := by simp only [rowAt, hfound]
    split at hfound
    · next htable =>
      obtain ⟨i, hindex, hi⟩ := Option.bind_eq_some_iff.mp hfound
      obtain ⟨hsmall, ht⟩ := Token.addresses_iff.mp ⟨htable, hindex⟩
      exact Or.inl ⟨i, row, hsmall, ht, hindex, hi, hrow⟩
    · cases hfound
  | none =>
    refine Or.inr ⟨fun i row hsmall ht hi ↦ ?_, by simp only [rowAt, hfound]⟩
    obtain ⟨htable, hindex⟩ := Token.addresses_iff.mpr ⟨hsmall, ht⟩
    rw [if_pos htable, hindex, Option.bind_some, hi] at hfound
    cases hfound

theorem rowAt_next (hi : i + 1 < 2 ^ 24) (h : rows[i]? = some row) :
    rowAt rows (Token.next table i) table = .ok row := by
  rcases rowAt_cases rows (Token.next table i) table with
    ⟨j, other, hj, heq, -, hrow, hok⟩ | ⟨hnone, -⟩
  · obtain ⟨-, rfl⟩ := Token.next_inj hi hj heq
    cases h.symm.trans hrow
    exact hok
  · exact absurd h (hnone i row hi rfl)

theorem rowAt_eq_of_size {β : Type} {others : Array β} (h : rows.size = others.size)
    (herror : rowAt rows t table = .error e) : rowAt others t table = .error (.invalidToken t) := by
  rcases rowAt_cases others t table with ⟨i, other, hi, rfl, -, hother, -⟩ | ⟨-, hnone⟩
  · have hlt := h ▸ (Array.getElem?_eq_some_iff.mp hother).1
    rw [rowAt_next hi (Array.getElem?_eq_getElem hlt)] at herror
    cases herror
  · exact hnone

theorem entryAt_of_some {entries : Array α} (h : entries[i]? = some row) :
    entryAt entries i = .ok row := by
  rw [entryAt, h]

/-! ### Tables in step -/

/-- Every place leads to a row that is there: `rows` says which rows of a type the places are of. -/
def Placed (m : Module) (places : Array RowPlace) (rows : TypeDef → Array α) : Prop :=
  ∀ (k : Nat) place, places[k]? = some place →
    ∃ d, m.types[place.owner]? = some d ∧ place.position < (rows d).size

/-- What lookups and calls take for granted of one table when they follow an entry of another. -/
structure InStep (m : Module) : Prop where
  fieldLists : m.fieldLists.size = m.types.size
  methodLists : m.methodLists.size = m.types.size
  fields : m.Placed m.fieldPlaces TypeDef.fields
  methods : m.Placed m.methodPlaces TypeDef.methods

theorem inStep_empty (name : String) : (empty name).InStep :=
  ⟨rfl, rfl, fun _ _ h ↦ (nomatch h), fun _ _ h ↦ (nomatch h)⟩

section Owned

variable {m m' : Module} {places : Array RowPlace} {rowsOf : TypeDef → Array α} {place : RowPlace}
  {d d' : TypeDef}

theorem ownedAt_next (hi : i + 1 < 2 ^ 24) (hplace : places[i]? = some place)
    (hd : m.types[place.owner]? = some d) (hrow : (rowsOf d)[place.position]? = some row) :
    m.ownedAt places rowsOf (Token.next table i) table = .ok ⟨place, row⟩ := by
  rw [ownedAt, rowAt_next hi hplace]
  simp only [bind, Except.bind, entryAt_of_some hd, hrow]

theorem ownedAt_of_error (rowsOf : TypeDef → Array α) (h : rowAt places t table = .error e) :
    m.ownedAt places rowsOf t table = .error e := by
  rw [ownedAt, h]
  rfl

/-- In a module in step, a token of a field or a method is looked up if there is a place for it, and
is refused otherwise: no entry is missed on the way. -/
theorem ownedAt_cases (h : m.Placed places rowsOf) (t : Token) (table : Table) :
    (∃ i place d row, i + 1 < 2 ^ 24 ∧ t = Token.next table i ∧ places[i]? = some place ∧
      m.types[place.owner]? = some d ∧ (rowsOf d)[place.position]? = some row ∧
      m.ownedAt places rowsOf t table = .ok ⟨place, row⟩) ∨
    (rowAt places t table = .error (.invalidToken t) ∧
      m.ownedAt places rowsOf t table = .error (.invalidToken t)) := by
  rcases rowAt_cases places t table with ⟨i, place, hi, rfl, -, hplace, -⟩ | ⟨-, herror⟩
  · obtain ⟨d, hd, hlt⟩ := h i place hplace
    have hrow := Array.getElem?_eq_getElem hlt
    exact .inl ⟨i, place, d, _, hi, rfl, hplace, hd, hrow, ownedAt_next hi hplace hd hrow⟩
  · exact .inr ⟨herror, ownedAt_of_error rowsOf herror⟩

theorem Placed.mono (h : m.Placed places rowsOf) (hm : ∀ (i : Nat) d, m.types[i]? = some d →
    ∃ d', m'.types[i]? = some d' ∧ (rowsOf d).size ≤ (rowsOf d').size) :
    m'.Placed places rowsOf := by
  intro k place hplace
  obtain ⟨d, hd, hlt⟩ := h k place hplace
  obtain ⟨d', hd', hle⟩ := hm _ d hd
  exact ⟨d', hd', hlt.trans_le hle⟩

theorem Placed.push (h : m.Placed places rowsOf) (hd : m.types[place.owner]? = some d)
    (hlt : place.position < (rowsOf d).size) : m.Placed (places.push place) rowsOf := by
  intro k other hother
  rw [Array.getElem?_push] at hother
  split at hother
  · cases hother
    exact ⟨d, hd, hlt⟩
  · exact h k other hother

/-- The rows that the types have are not fewer after one of the types has been replaced. -/
theorem size_le_of_replaced (hd : m.types[i]? = some d)
    (hle : (rowsOf d).size ≤ (rowsOf d').size) (j : Nat) {e : TypeDef} (he : m.types[j]? = some e) :
    ∃ e', (m.types.setIfInBounds i d')[j]? = some e' ∧ (rowsOf e).size ≤ (rowsOf e').size := by
  by_cases hij : i = j
  · subst hij
    cases hd.symm.trans he
    obtain ⟨hin, -⟩ := Array.getElem?_eq_some_iff.mp hd
    exact ⟨d', Array.getElem?_setIfInBounds_self_of_lt hin, hle⟩
  · exact ⟨e, (Array.getElem?_setIfInBounds_ne hij).trans he, le_rfl⟩

/-- Looking up the tokens of rows gives the rows. -/
theorem lookUpAll_eq {lookUp : Token → Except Error (OwnedRow α)} : {l : List (Token × α)} →
    (∀ x ∈ l, ∃ found, lookUp x.1 = .ok found ∧ found.row = x.2) →
    lookUpAll lookUp (l.map Prod.fst) = .ok l
  | [], _ => rfl
  | (t, a) :: rest, h => by
    obtain ⟨found, hfound, hrow⟩ := h (t, a) List.mem_cons_self
    dsimp only at hfound hrow
    subst hrow
    rw [List.map_cons, lookUpAll, hfound, lookUpAll_eq fun x hx ↦ h x (.tail _ hx)]
    rfl

end Owned

/-! ### Building a module up -/

/-- A call that builds a module up. -/
inductive Call where
  | type (d : TypeDef)
  | field (owner : Token) (d : FieldDef)
  | method (owner : Token) (d : MethodDef)
  | body (target : Token) (b : Body)
  | typeSpec (s : Signature)
  | methodRef (r : MethodRef)
  | fieldRef (on : Signature) (name : String)
  | methodSpec (s : MethodSpec)
  | userString (s : String)
  | version (n : Nat)
  | lines (t : LineTable)

namespace Call

open ModuleDescription

/-- What a call answers, and the module after it. -/
def perform (c : Call) (m : Module) : Row × Module :=
  match c with
  | type d => let (t, m) := m.addType d; (.ok (some t), m)
  | field owner d => tryAdd m (m.addField owner d)
  | method owner d => tryAdd m (m.addMethod owner d)
  | body target b => tryUpdate m (m.setBody target b)
  | typeSpec s => let (t, m) := m.addTypeSpec s; (.ok (some t), m)
  | methodRef r => let (t, m) := m.addMember (.method r); (.ok (some t), m)
  | fieldRef on name => let (t, m) := m.addMember (.field on name); (.ok (some t), m)
  | methodSpec s => let (t, m) := m.addMethodSpec s; (.ok (some t), m)
  | userString s => let (t, m) := m.addString s; (.ok (some t), m)
  | version n => (.ok none, { m with version := n })
  | lines t => (.ok none, { m with lines := some t })

/-- The table in which a call defines a row. -/
def table? : Call → Option Table
  | type _ => some .typeDef
  | field .. => some .field
  | method .. => some .methodDef
  | typeSpec _ => some .typeSpec
  | methodRef _ | fieldRef .. => some .memberRef
  | methodSpec _ => some .methodSpec
  | userString _ => some .userString
  | body .. | version _ | lines _ => none

/-- The row that a call is about, if it is about one that is there already. -/
def subject? : Call → Option Token
  | field owner _ | method owner _ => some owner
  | body target _ => some target
  | _ => none

end Call

/-! ### Histories -/

/-- The calls made on a module in order, with their answers. -/
abbrev Log := List (Call × ModuleDescription.Row)

/-- What calls have made of an empty module, refused ones included. -/
inductive Built (name : String) : Log → Module → Prop
  | empty : Built name [] (.empty name)
  | step {log : Log} {m : Module} (h : Built name log m) (c : Call) :
      Built name (log ++ [(c, (c.perform m).1)]) (c.perform m).2

variable {m m' : Module} {log : Log} {c : Call} {owner : Token} {name : String}

/-! ### What a call does -/

theorem ownerIndex_cases (m : Module) (owner : Token) :
    (∃ i d, i + 1 < 2 ^ 24 ∧ owner = typeToken i ∧ m.types[i]? = some d ∧
      m.typeDef owner = .ok d ∧ m.ownerIndex owner = .ok i) ∨
    (m.typeDef owner = .error (.invalidToken owner) ∧
      m.ownerIndex owner = .error (.invalidToken owner)) := by
  rcases rowAt_cases m.types owner .typeDef with ⟨i, d, hi, ht, hindex, hrow, hok⟩ | ⟨-, herror⟩
  · refine Or.inl ⟨i, d, hi, ht, hrow, hok, ?_⟩
    rw [ownerIndex, typeDef, hok, hindex]
    rfl
  · refine Or.inr ⟨herror, ?_⟩
    rw [ownerIndex, typeDef, herror]
    rfl

/-- The module with one more field of a type, whose row and tokens are given. -/
def withField (m : Module) (i : Nat) (type : TypeDef) (list : Array Token) (d : FieldDef) :
    Module :=
  { m with
    types := m.types.setIfInBounds i { type with fields := type.fields.push d }
    fieldPlaces := m.fieldPlaces.push ⟨i, type.fields.size⟩
    fieldLists := m.fieldLists.setIfInBounds i
      (list.push (Token.next .field m.fieldPlaces.size)) }

/-- The module with one more method of a type, whose row and tokens are given. -/
def withMethod (m : Module) (i : Nat) (type : TypeDef) (list : Array Token) (d : MethodDef) :
    Module :=
  { m with
    types := m.types.setIfInBounds i { type with methods := type.methods.push d }
    methodPlaces := m.methodPlaces.push ⟨i, type.methods.size⟩
    methodLists := m.methodLists.setIfInBounds i
      (list.push (Token.next .methodDef m.methodPlaces.size)) }

/-- The module with another body of a method, whose row and type are given. -/
def withBody (m : Module) (place : RowPlace) (type : TypeDef) (row : MethodDef) (b : Body) :
    Module :=
  { m with
    types := m.types.setIfInBounds place.owner { type with
      methods := type.methods.setIfInBounds place.position { row with body := some b } } }

namespace Call

/-- Defining a field for a token that is no type of the module is refused. Otherwise the row is
added to its type, and its token to the list of the type. -/
theorem perform_field (h : m.InStep) (owner : Token) (d : FieldDef) :
    (m.typeDef owner = .error (.invalidToken owner) ∧
      perform (.field owner d) m = (.error (.invalidToken owner), m)) ∨
    ∃ i type list, i + 1 < 2 ^ 24 ∧ owner = typeToken i ∧ m.typeDef owner = .ok type ∧
      m.types[i]? = some type ∧ m.fieldLists[i]? = some list ∧
      perform (.field owner d) m =
        (.ok (some (Token.next .field m.fieldPlaces.size)), m.withField i type list d) := by
  rcases ownerIndex_cases m owner with ⟨i, type, hi, ht, hrow, htype, hindex⟩ | ⟨htype, hindex⟩
  · have hin := h.fieldLists ▸ (Array.getElem?_eq_some_iff.mp hrow).1
    have hlist := Array.getElem?_eq_getElem hin
    refine .inr ⟨i, type, _, hi, ht, htype, hrow, hlist, ?_⟩
    simp only [perform, addField, enlist, hindex, bind, Except.bind, entryAt_of_some hrow,
      entryAt_of_some hlist]
    rfl
  · refine .inl ⟨htype, ?_⟩
    rw [perform, addField, hindex]
    rfl

/-- The same for a method. -/
theorem perform_method (h : m.InStep) (owner : Token) (d : MethodDef) :
    (m.typeDef owner = .error (.invalidToken owner) ∧
      perform (.method owner d) m = (.error (.invalidToken owner), m)) ∨
    ∃ i type list, i + 1 < 2 ^ 24 ∧ owner = typeToken i ∧ m.typeDef owner = .ok type ∧
      m.types[i]? = some type ∧ m.methodLists[i]? = some list ∧
      perform (.method owner d) m =
        (.ok (some (Token.next .methodDef m.methodPlaces.size)), m.withMethod i type list d) := by
  rcases ownerIndex_cases m owner with ⟨i, type, hi, ht, hrow, htype, hindex⟩ | ⟨htype, hindex⟩
  · have hin := h.methodLists ▸ (Array.getElem?_eq_some_iff.mp hrow).1
    have hlist := Array.getElem?_eq_getElem hin
    refine .inr ⟨i, type, _, hi, ht, htype, hrow, hlist, ?_⟩
    simp only [perform, addMethod, enlist, hindex, bind, Except.bind, entryAt_of_some hrow,
      entryAt_of_some hlist]
    rfl
  · refine .inl ⟨htype, ?_⟩
    rw [perform, addMethod, hindex]
    rfl

/-- Setting a body overwrites the row of a method in its place. -/
theorem perform_body (h : m.InStep) (target : Token) (b : Body) :
    (m.methodDef target = .error (.invalidToken target) ∧
      perform (.body target b) m = (.error (.invalidToken target), m)) ∨
    ∃ k place type row, k + 1 < 2 ^ 24 ∧ target = Token.next .methodDef k ∧
      m.methodPlaces[k]? = some place ∧ m.types[place.owner]? = some type ∧
      type.methods[place.position]? = some row ∧ m.methodDef target = .ok ⟨place, row⟩ ∧
      perform (.body target b) m = (.ok none, m.withBody place type row b) := by
  rcases ownedAt_cases h.methods target .methodDef with
    ⟨k, place, type, row, hk, rfl, hplace, htype, hrow, hok⟩ | ⟨hplace, herror⟩
  · refine .inr ⟨k, place, type, row, hk, rfl, hplace, htype, hrow, hok, ?_⟩
    simp only [perform, setBody, rowAt_next hk hplace, bind, Except.bind, entryAt_of_some htype,
      entryAt_of_some hrow]
    rfl
  · refine .inl ⟨herror, ?_⟩
    rw [perform, setBody, hplace]
    rfl

/-- A refused call is about a token that addresses nothing, and changes nothing. -/
theorem perform_of_refused (h : m.InStep) {e : Error} (herror : (c.perform m).1 = .error e) :
    ∃ t, c.subject? = some t ∧ c.perform m = (.error (.invalidToken t), m) := by
  cases c with
  | field owner d =>
    rcases perform_field h owner d with ⟨-, hrefused⟩ | ⟨_, _, _, -, -, -, -, -, hok⟩
    · exact ⟨owner, rfl, hrefused⟩
    · rw [hok] at herror
      cases herror
  | method owner d =>
    rcases perform_method h owner d with ⟨-, hrefused⟩ | ⟨_, _, _, -, -, -, -, -, hok⟩
    · exact ⟨owner, rfl, hrefused⟩
    · rw [hok] at herror
      cases herror
  | body target b =>
    rcases perform_body h target b with ⟨-, hrefused⟩ | ⟨_, _, _, _, -, -, -, -, -, -, hok⟩
    · exact ⟨target, rfl, hrefused⟩
    · rw [hok] at herror
      cases herror
  | _ => cases herror

end Call

/-! ### Every call keeps the tables in step -/

/-- A row that is added with its place and its token leaves the tables in step. -/
theorem InStep.withField (h : m.InStep) {i : Nat} {type : TypeDef} (htype : m.types[i]? = some type)
    (list : Array Token) (d : FieldDef) : (m.withField i type list d).InStep where
  fieldLists := by simpa only [Module.withField, Array.size_setIfInBounds] using h.fieldLists
  methodLists := by simpa only [Module.withField, Array.size_setIfInBounds] using h.methodLists
  fields := by
    have hin := (Array.getElem?_eq_some_iff.mp htype).1
    have hkept : (m.withField i type list d).Placed m.fieldPlaces TypeDef.fields :=
      h.fields.mono fun j _ ↦ size_le_of_replaced htype (by simp) j
    exact hkept.push (Array.getElem?_setIfInBounds_self_of_lt hin) (by simp)
  methods := h.methods.mono fun j _ ↦ size_le_of_replaced htype (by rfl) j

/-- So does a row for a method. -/
theorem InStep.withMethod (h : m.InStep) {i : Nat} {type : TypeDef}
    (htype : m.types[i]? = some type) (list : Array Token) (d : MethodDef) :
    (m.withMethod i type list d).InStep where
  fieldLists := by simpa only [Module.withMethod, Array.size_setIfInBounds] using h.fieldLists
  methodLists := by simpa only [Module.withMethod, Array.size_setIfInBounds] using h.methodLists
  fields := h.fields.mono fun j _ ↦ size_le_of_replaced htype (by rfl) j
  methods := by
    have hin := (Array.getElem?_eq_some_iff.mp htype).1
    have hkept : (m.withMethod i type list d).Placed m.methodPlaces TypeDef.methods :=
      h.methods.mono fun j _ ↦ size_le_of_replaced htype (by simp) j
    exact hkept.push (Array.getElem?_setIfInBounds_self_of_lt hin) (by simp)

theorem InStep.withBody (h : m.InStep) {place : RowPlace} {type : TypeDef}
    (htype : m.types[place.owner]? = some type) (row : MethodDef) (b : Body) :
    (m.withBody place type row b).InStep where
  fieldLists := by simpa only [Module.withBody, Array.size_setIfInBounds] using h.fieldLists
  methodLists := by simpa only [Module.withBody, Array.size_setIfInBounds] using h.methodLists
  fields := h.fields.mono fun j _ ↦ size_le_of_replaced htype (by rfl) j
  methods := h.methods.mono fun j _ ↦ size_le_of_replaced htype (by simp) j

/-- A new type has neither fields nor methods, and no tokens of any. -/
theorem InStep.addType (h : m.InStep) (d : TypeDef) : (m.addType d).2.InStep where
  fieldLists := by simp [Module.addType, append, h.fieldLists]
  methodLists := by simp [Module.addType, append, h.methodLists]
  fields := h.fields.mono fun _ d hd ↦ ⟨d, getElem?_push_of_some hd, le_rfl⟩
  methods := h.methods.mono fun _ d hd ↦ ⟨d, getElem?_push_of_some hd, le_rfl⟩

/-- The step: every call keeps the tables in step. -/
theorem InStep.perform (h : m.InStep) (c : Call) : (c.perform m).2.InStep := by
  cases c with
  | type d => exact h.addType d
  | field owner d =>
    rcases Call.perform_field h owner d with ⟨-, hrefused⟩ | ⟨i, type, list, -, -, -, htype, -, hok⟩
    · exact hrefused ▸ h
    · exact hok ▸ h.withField htype list d
  | method owner d =>
    rcases Call.perform_method h owner d with
      ⟨-, hrefused⟩ | ⟨i, type, list, -, -, -, htype, -, hok⟩
    · exact hrefused ▸ h
    · exact hok ▸ h.withMethod htype list d
  | body target b =>
    rcases Call.perform_body h target b with
      ⟨-, hrefused⟩ | ⟨_, place, type, row, -, -, -, htype, -, -, hok⟩
    · exact hrefused ▸ h
    · exact hok ▸ h.withBody htype row b
  | _ => exact ⟨h.fieldLists, h.methodLists, h.fields, h.methods⟩

theorem Built.inStep (h : Built name log m) : m.InStep := by
  induction h with
  | empty => exact inStep_empty name
  | step _ c ih => exact ih.perform c

end Module

end ManagedMachine
