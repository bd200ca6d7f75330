import ManagedMachine.Text.Numeral

/-!
Metadata tokens. A token is a 32-bit word: the high byte names a table of a module, the low 24 bits
a row of that table, counted from one. Row 0 addresses nothing.
-/

set_option autoImplicit false
set_option relaxedAutoImplicit false

namespace ManagedMachine

/-- The tables that a token can point into. -/
inductive Table where
  | typeRef
  | typeDef
  | field
  | methodDef
  | memberRef
  | typeSpec
  | methodSpec
  | userString
  deriving DecidableEq

namespace Table

def byte : Table → UInt8
  | typeRef => 0x01
  | typeDef => 0x02
  | field => 0x04
  | methodDef => 0x06
  | memberRef => 0x0a
  | typeSpec => 0x1b
  | methodSpec => 0x2b
  | userString => 0x70

def all : List Table :=
  [typeRef, typeDef, field, methodDef, memberRef, typeSpec, methodSpec, userString]

def ofByte? (b : UInt8) : Option Table := all.find? (·.byte == b)

def name : Table → String
  | typeRef => "TypeRef"
  | typeDef => "TypeDef"
  | field => "Field"
  | methodDef => "MethodDef"
  | memberRef => "MemberRef"
  | typeSpec => "TypeSpec"
  | methodSpec => "MethodSpec"
  | userString => "UserString"

@[simp] theorem ofByte?_byte (t : Table) : ofByte? t.byte = some t := by
  cases t <;> rfl

theorem byte_injective {a b : Table} (h : a.byte = b.byte) : a = b := by
  have := congrArg ofByte? h
  simpa using this

end Table

/-- A metadata token: the table in the upper byte, the row in the rest. -/
structure Token where
  value : UInt32
  deriving DecidableEq, Hashable, Inhabited

namespace Token

/-- The token of a row; rows past 24 bits wrap. -/
def ofRow (table : Table) (row : UInt32) : Token :=
  ⟨table.byte.toUInt32 <<< 24 ||| (row &&& 0xffffff)⟩

def tableByte (t : Token) : UInt8 := (t.value >>> 24).toUInt8

/-- The table of a token, if its upper byte names one. -/
def table? (t : Token) : Option Table := Table.ofByte? t.tableByte

def row (t : Token) : UInt32 := t.value &&& 0xffffff

/-- Position of the row in its table, counted from zero. -/
def index? (t : Token) : Option Nat :=
  if t.row = 0 then none else some (t.row.toNat - 1)

def isNull (t : Token) : Bool := t.value == 0

def isIn (t : Token) (table : Table) : Bool := t.tableByte == table.byte

/-- The token of the row that follows `count` rows of a table. -/
def next (table : Table) (count : Nat) : Token := ofRow table (UInt32.ofNat (count + 1))

def text (t : Token) : String := "0x" ++ Text.hex 8 t.value.toNat

/-- A token with its table and row spelled out, for diagnostics. -/
def describe (t : Token) : String :=
  match t.table? with
  | some table => s!"Token({t.text}, {table.name}: {t.row})"
  | none => s!"Token({t.text}, table: 0x{Text.hex 2 t.tableByte.toNat}, row: {t.row})"

instance : ToString Token := ⟨text⟩

end Token

end ManagedMachine
