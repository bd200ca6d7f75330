import ManagedMachine.Text.Invisible

/-!
Quoted text, as diagnostics show strings. A quote, a backslash and the usual control characters
have two-character escapes; other control characters and the invisible characters are written by
code point.
-/

set_option autoImplicit false
set_option relaxedAutoImplicit false

namespace ManagedMachine.Text

def codePointEscape (c : Char) : List Char :=
  ['\\', 'u', '\x7b'] ++ Nat.toDigits 16 c.toNat ++ ['\x7d']

def quoteChar (c : Char) : List Char :=
  if c = '"' then ['\\', '"']
  else if c = '\\' then ['\\', '\\']
  else if c = '\n' then ['\\', 'n']
  else if c = '\r' then ['\\', 'r']
  else if c = '\t' then ['\\', 't']
  else if c.toNat = 0 then ['\\', '0']
  else if c.toNat < 0x20 || c.toNat = 0x7f || isInvisible c then codePointEscape c
  else [c]

def quote (s : String) : String :=
  String.ofList (['"'] ++ s.toList.flatMap quoteChar ++ ['"'])

end ManagedMachine.Text
