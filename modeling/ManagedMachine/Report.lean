import ManagedMachine.Slot
import ManagedMachine.Text.Numeral

/-!
Reports: what the machine tells about its values, types and errors, as plain data. Numbers of 64
bits are written as decimal text and floating-point numbers as the bits they consist of, so that no
reader can round them.
-/

set_option autoImplicit false
set_option relaxedAutoImplicit false

namespace ManagedMachine

/-- What a request answers, as a tree. -/
inductive Report where
  | null
  | flag (v : Bool)
  | number (v : Int)
  | text (s : String)
  | list (items : List Report)
  | record (fields : List (String × Report))
  deriving Inhabited

namespace Report

def ofNat (n : Nat) : Report := .number n

def ofOption {α : Type} (report : α → Report) : Option α → Report
  | some a => report a
  | none => .null

def texts (items : List String) : Report := .list (items.map .text)

def optionalText (s : Option String) : Report := ofOption .text s

def int32 (v : Int32) : Report := .number v.toInt

def int64 (v : Int64) : Report := .text (toString v)

/-- The bits of a single; all that are no number are written alike. -/
def single (v : Float32) : Report :=
  .text (if v.isNaN then "nan" else "0x" ++ Text.hex 8 v.toBits.toNat)

def double (v : Float) : Report :=
  .text (if v.isNaN then "nan" else "0x" ++ Text.hex 16 v.toBits.toNat)

def slot : Slot → Report
  | .null => .list [.text "null"]
  | .int32 v => .list [.text "int32", int32 v]
  | .int64 v => .list [.text "int64", int64 v]
  | .single v => .list [.text "float", single v]
  | .double v => .list [.text "double", double v]
  | .object entry => .list [.text "object", ofNat entry]
  | .fieldRef entry field => .list [.text "field_ref", ofNat entry, ofNat field]
  | .elementRef entry index => .list [.text "array_ref", ofNat entry, ofNat index]
  | .staticRef type field => .list [.text "static_ref", ofNat type.index, ofNat field]
  | .stackRef addr => .list [.text "stack_ref", ofNat addr]
  | .block header => .list [.text "value_type", ofNat header]
  | .header type fields => .list [.text "descriptor", ofNat type.index, ofNat fields]

end Report

end ManagedMachine
