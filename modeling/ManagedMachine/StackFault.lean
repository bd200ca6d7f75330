import ManagedMachine.Value

/-!
Causes for which an operation on the evaluation stack, or on a location it reaches, is refused. They
are faults of the running code or of the host, and no handler of the code catches them.
-/

set_option autoImplicit false
set_option relaxedAutoImplicit false

namespace ManagedMachine

/-- The ways to misuse a stack. -/
inductive StackFault where
  -- slots and addresses
  | unexpectedSlot (expected found : String)
  | outsideStack (addr : Nat)
  | empty
  | underflow
  | popAbove (addr top : Nat)
  | deadEntry (entry : Nat)
  | noHeader (addr : Nat) (found : String)
  | noField (index count : Nat)
  -- objects of the heap
  | notAn (typeName what : String)
  | noFieldSlot (index : Nat)
  | noStaticSlot (index : Nat)
  | unknownType (index : Nat)
  | fieldOfNonObject
  | elementOfNonArray
  | elementOutOfRange (index : Nat)
  | notAnArray (shown : String)
  | arrayTooLong
  | stringTooLong
  | arrayLengthSlot (found : String)
  | arrayIndexSlot (found : String)
  | factoryCount (typeName : String) (made length : Nat)
  -- structs
  | notInline (typeName : String)
  | notInlineSlot (found : String)
  | inlineInOne (field : Nat)
  | intoBlock
  | headerAsReceiver
  | headerAsValue
  | headerCopied
  | fieldSlotCount (written count : Nat)
  -- references
  | heapReferenceExpected (found : String)
  | addressExpected (found : String)
  | objectExpected (found : String)
  | noFields (shown : String)
  -- arithmetic
  | notNumeric (found : String)
  | bitwiseOnFloats (operation : String)
  | unordered (left right : String)
  -- calls
  | argumentSlots (method : String) (expected found : Nat)
  | callOperands (method : String) (count : Nat)
  | referenceToSlot (index pushed : Nat)
  | slotNotPushed (index pushed : Nat)
  | noResult (method : String)
  -- field bindings
  | nothingStored (field : String)
  | pushedTwice (field : String)
  | pushedNothing (field : String)
  /-- Raised by host code for a reason of its own. -/
  | host (reason : String)
  deriving DecidableEq

def StackFault.message : StackFault → String
  | unexpectedSlot expected found => s!"expected {expected}, found {found}"
  | outsideStack addr => s!"address {addr} outside of the stack"
  | empty => "evaluation stack is empty"
  | underflow => "evaluation stack underflow"
  | popAbove addr top => s!"cannot pop to {addr} above esp {top}"
  | deadEntry entry => s!"managed index {entry} is not live"
  | noHeader addr found => s!"expected value type descriptor at {addr}, found {found}"
  | noField index count => s!"field {index} of a block with {count} fields"
  | notAn typeName what => s!"{typeName} is not {what}"
  | noFieldSlot index => s!"field slot {index} out of range"
  | noStaticSlot index => s!"static slot {index} out of range"
  | unknownType index => s!"unknown type index {index}"
  | fieldOfNonObject => "field reference to a non-object"
  | elementOfNonArray => "element reference to a non-array"
  | elementOutOfRange index => s!"element reference {index} out of range"
  | notAnArray shown => s!"{shown} is not an array"
  | arrayTooLong => "array too long"
  | stringTooLong => "string too long"
  | arrayLengthSlot found => s!"array length is a {found} slot"
  | arrayIndexSlot found => s!"array index is a {found} slot"
  | factoryCount typeName made length =>
    s!"array factory of {typeName} made {made} elements for a length of {length}"
  | notInline typeName => s!"{typeName} is not stored inline"
  | notInlineSlot found => s!"{found} is not an inline value type"
  | inlineInOne field => s!"field {field} is inline in only one of two blocks"
  | intoBlock => "store of a non value type into a block"
  | headerAsReceiver => "a value type descriptor is not a receiver"
  | headerAsValue => "a value type descriptor is not a value"
  | headerCopied => "cannot copy a value type descriptor"
  | fieldSlotCount written count => s!"{written} field slots written to a block of {count}"
  | heapReferenceExpected found => s!"expected a heap reference, found {found}"
  | addressExpected found => s!"expected an address, found {found}"
  | objectExpected found => s!"expected an object reference, found {found}"
  | noFields shown => s!"{shown} has no fields"
  | notNumeric found => s!"arithmetic on a {found} slot"
  | bitwiseOnFloats operation => s!"{operation} on floating point operands"
  | unordered left right => s!"cannot order {left} and {right}"
  | argumentSlots method expected found =>
    s!"{method} expects {expected} argument slots, found {found}"
  | callOperands method count =>
    s!"call in {method} needs {count} arguments on the evaluation stack"
  | referenceToSlot index pushed => s!"reference to slot {index} of {pushed} pushed"
  | slotNotPushed index pushed => s!"slot {index} of {pushed} pushed"
  | noResult method => s!"{method} has no result to read"
  | nothingStored field => s!"no value is stored to {field}"
  | pushedTwice field => s!"field binding of {field} pushed more than one value"
  | pushedNothing field => s!"field binding of {field} pushed no value"
  | host reason => reason

end ManagedMachine
