import ManagedMachine.Host.Type

/-!
Adaptors. Interpreted types may derive from host types; an adaptor for a host type makes a wrapper
around every new object of such a derived type, through which the host calls the object's
interpreted methods. During method lookup the adaptor's own type stands in for the derived type.
-/

set_option autoImplicit false
set_option relaxedAutoImplicit false

namespace ManagedMachine

/-- Host code that lets interpreted types extend a host type. -/
structure Adaptor where
  /-- The full names of the host types it serves. -/
  bases : List String
  type : HostType
  /-- Why it makes no wrappers, if it makes none. -/
  refusal : Option Error

/-- The adaptors by the host type that they serve. -/
structure AdaptorTable where
  entries : List (String × Adaptor)

namespace AdaptorTable

def empty : AdaptorTable := ⟨[]⟩

/-- The adaptor of the host type of this full name. -/
def find? (t : AdaptorTable) (base : String) : Option Adaptor := t.entries.lookup base

def size (t : AdaptorTable) : Nat := t.entries.length

/-- Enters an adaptor for one host type after the other, up to one that has an adaptor. -/
def enter (adaptor : Adaptor) : List String → AdaptorTable → Except Error Unit × AdaptorTable
  | [], t => (.ok (), t)
  | base :: rest, t =>
    match t.find? base with
    | some _ => (.error (.adaptorRegistered base), t)
    | none => enter adaptor rest ⟨(base, adaptor) :: t.entries⟩

/-- Registers an adaptor for all its host types, none of which may have an adaptor. -/
def register (t : AdaptorTable) (adaptor : Adaptor) : Except Error Unit × AdaptorTable :=
  match adaptor.bases.find? fun base => (t.find? base).isSome with
  | some base => (.error (.adaptorRegistered base), t)
  | none => enter adaptor adaptor.bases t

end AdaptorTable

end ManagedMachine
