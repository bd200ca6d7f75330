/-!
Fixed-width numerals: padding with zeros on the left, in decimal and in lower-case hexadecimal.
-/

set_option autoImplicit false
set_option relaxedAutoImplicit false

namespace ManagedMachine.Text

/-- Digits padded with zeros on the left to `width`; longer digit strings stay whole. -/
def padZeros (width : Nat) (digits : List Char) : List Char :=
  List.replicate (width - digits.length) '0' ++ digits

def decimal (width n : Nat) : String := String.ofList (padZeros width (Nat.toDigits 10 n))

def hex (width n : Nat) : String := String.ofList (padZeros width (Nat.toDigits 16 n))

@[simp] theorem length_padZeros (width : Nat) (digits : List Char) :
    (padZeros width digits).length = max width digits.length := by
  simp [padZeros]
  omega

end ManagedMachine.Text
