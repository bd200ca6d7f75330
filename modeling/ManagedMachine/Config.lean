/-!
Settings of a domain: the limits of its interpreters, and how strict it is about calls to unbound
host methods and about copies between different struct types.
-/

set_option autoImplicit false
set_option relaxedAutoImplicit false

namespace ManagedMachine

/-- The limits and permissions of a domain. -/
structure Config where
  /-- Slots of every interpreter stack. -/
  stackCapacity : Nat
  /-- Nested interpreted frames of one top level call. -/
  maxCallDepth : Nat
  /-- May host methods without a redirection be called through their description? -/
  allowUnboundNative : Bool
  /-- Is a copy into storage of another struct type refused? -/
  checkStructCasts : Bool
  deriving DecidableEq

namespace Config

def standard : Config := ⟨16384, 256, true, true⟩

/-- Every host call has to be bound; small stacks and shallow calls. -/
def strict : Config := ⟨4096, 128, false, true⟩

/-- Deep stacks, and no checks of struct copies. -/
def lenient : Config := ⟨65536, 1024, true, false⟩

instance : Inhabited Config := ⟨standard⟩

end Config

end ManagedMachine
