import Std.Data.HashMap

/-!
String interning. A string is kept under a 64-bit key: the low half is its hash and the high half
counts the other strings of that hash that came before it. A key handed out once means its string
for ever.
-/

set_option autoImplicit false
set_option relaxedAutoImplicit false

namespace ManagedMachine

/-- The 32-bit hash FNV-1a of the UTF-8 bytes of a string. -/
def fnv1a (s : String) : UInt32 :=
  s.toUTF8.toList.foldl (fun hash b => (hash ^^^ b.toUInt32) * 0x01000193) 0x811c9dc5

/-- Strings under keys that are made from their hashes. -/
structure InternTable where
  hash : String → UInt32
  entries : Std.HashMap UInt64 String

namespace InternTable

def empty (hash : String → UInt32) : InternTable := ⟨hash, {}⟩

instance : Inhabited InternTable := ⟨empty fnv1a⟩

/-- The key of the string that is number `counter` among the strings with one hash. -/
def key (counter hash : UInt32) : UInt64 := counter.toUInt64 <<< 32 ||| hash.toUInt64

/-- The first key, from `counter` on, that is free or already holds `s`. -/
def probe (t : InternTable) (s : String) (hash counter : UInt32) : (steps : Nat) → UInt64
  | 0 => key counter hash
  | steps + 1 =>
    match t.entries[key counter hash]? with
    | some held => if held == s then key counter hash else probe t s hash (counter + 1) steps
    | none => key counter hash

/-- Some key is free after as many steps as there are entries. -/
def keyFor (t : InternTable) (s : String) : UInt64 := t.probe s (t.hash s) 0 (t.entries.size + 1)

/-- The key of a string, which is added if it is new. -/
def intern (t : InternTable) (s : String) : UInt64 × InternTable :=
  let k := t.keyFor s
  (k, { t with entries := t.entries.insertIfNew k s })

/-- The string behind a key. -/
def get? (t : InternTable) (k : UInt64) : Option String := t.entries[k]?

def size (t : InternTable) : Nat := t.entries.size

end InternTable

end ManagedMachine
