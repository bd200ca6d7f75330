/-!
Binary floating point taken apart. A finite number is a sign, a significand and a power of two;
`Layout` says how the three share the bits of a word. The remainder of a division is exact in this
form, so it is computed here in natural numbers.
-/

set_option autoImplicit false
set_option relaxedAutoImplicit false

namespace ManagedMachine.Binary

/-- Widths of the fraction and the exponent field, and the exponent of the last fraction bit of a
subnormal number. -/
structure Layout where
  fractionBits : Nat
  exponentBits : Nat
  lowest : Int

def single : Layout := ⟨23, 8, -149⟩

def double : Layout := ⟨52, 11, -1074⟩

/-- What a word of a layout stands for. A finite number is `significand * 2 ^ exponent`; it is
`boundary` when the numbers below it lie twice as dense as those above. -/
inductive Class where
  | nan
  | infinite (negative : Bool)
  | finite (negative : Bool) (significand : Nat) (exponent : Int) (boundary : Bool)

namespace Layout

/-- The leading significand bit of a normal number, which its word leaves out. -/
def hidden (layout : Layout) : Nat := Nat.pow 2 layout.fractionBits

/-- The number of values the exponent field can take. -/
def exponents (layout : Layout) : Nat := Nat.pow 2 layout.exponentBits

/-- The sign bit of a word. -/
def sign (layout : Layout) : Nat := layout.hidden * layout.exponents

/-- What the bits of a number stand for. -/
def classify (layout : Layout) (bits : Nat) : Class :=
  let fraction := bits % layout.hidden
  let biased := bits / layout.hidden % layout.exponents
  let negative := bits / layout.sign % 2 == 1
  if biased + 1 = layout.exponents then
    if fraction = 0 then .infinite negative else .nan
  else if biased = 0 then .finite negative fraction layout.lowest false
  else
    .finite negative (layout.hidden + fraction) (layout.lowest + (biased - 1))
      (fraction = 0 && biased ≠ 1)

/-- The word of `significand * 2 ^ exponent`, for numbers the layout holds exactly. -/
def word (layout : Layout) (negative : Bool) (significand : Nat) (exponent : Int) : Nat :=
  let sign := if negative then layout.sign else 0
  if significand = 0 then sign
  else
    let shift := min (layout.fractionBits - significand.log2) (exponent - layout.lowest).toNat
    let scaled := significand * Nat.pow 2 shift
    let biased := (exponent - layout.lowest).toNat - shift
    if scaled < layout.hidden then sign + scaled
    else sign + (biased + 1) * layout.hidden + (scaled - layout.hidden)

end Layout

/-- The remainder of `x / y` truncated toward zero, with the sign of `x`; it is always exact. -/
def remainder (x y : Float) : Float :=
  match double.classify x.toBits.toNat, double.classify y.toBits.toNat with
  | .nan, _ => x
  | _, .nan => y
  | .infinite _, _ => 0.0 / 0.0
  | .finite .., .infinite _ => x
  | .finite negative mx ex _, .finite _ my ey _ =>
    if my = 0 then 0.0 / 0.0
    else
      let e := min ex ey
      let rest := mx * Nat.pow 2 (ex - e).toNat % (my * Nat.pow 2 (ey - e).toNat)
      Float.ofBits (UInt64.ofNat (double.word negative rest e))

end ManagedMachine.Binary
