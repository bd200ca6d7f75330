import ManagedMachine.Binary
import ManagedMachine.Text.Numeral

/-!
Shortest decimal text of a binary number: the fewest digits that read back as the same number, and
of those the nearest to it, a tie going up. Magnitudes are written in full, without an exponent.
-/

set_option autoImplicit false
set_option relaxedAutoImplicit false

namespace ManagedMachine.Decimal

open Binary

/-- A positive number as the fraction `num / den`, with the open or closed interval
`(low / den, high / den)` of the reals that round to it. -/
structure Target where
  num : Nat
  den : Nat
  low : Nat
  high : Nat
  closed : Bool

/-- The target of `significand * 2 ^ exponent`. The interval ends half way to the neighbours, and
belongs to the number when its significand is even. -/
def target (significand : Nat) (exponent : Int) (boundary : Bool) : Target :=
  let up := Nat.pow 2 exponent.toNat
  let den := 4 * Nat.pow 2 (-exponent).toNat
  { num := 4 * significand * up
    den
    low := (4 * significand - if boundary then 1 else 2) * up
    high := (4 * significand + 2) * up
    closed := significand % 2 == 0 }

namespace Target

/-- Does `digits * scaleUp / scaleDown` round to the target? -/
def reads (t : Target) (digits scaleUp scaleDown : Nat) : Bool :=
  let x := digits * scaleUp * t.den
  if t.closed then t.low * scaleDown ≤ x && x ≤ t.high * scaleDown
  else t.low * scaleDown < x && x < t.high * scaleDown

/-- The `k` with `10 ^ (k - 1) ≤ num / den < 10 ^ k`. -/
def magnitude (t : Target) : Int :=
  if t.den ≤ t.num then (Nat.toDigits 10 (t.num / t.den)).length
  else
    let j := (Nat.toDigits 10 (t.den / t.num)).length
    if t.num * Nat.pow 10 (j - 1) < t.den then 1 - (j : Int) else 2 - (j : Int)

/-- The better neighbour of the target on the grid of the multiples of `10 ^ e`, if one reads
back. -/
def onGrid (t : Target) (e : Int) : Option Nat :=
  let scaleUp := Nat.pow 10 e.toNat
  let scaleDown := Nat.pow 10 (-e).toNat
  let below := t.num * scaleDown / (t.den * scaleUp)
  let rest := t.num * scaleDown % (t.den * scaleUp)
  let lowReads := t.reads below scaleUp scaleDown
  let highReads := t.reads (below + 1) scaleUp scaleDown
  if highReads && (!lowReads || t.den * scaleUp ≤ 2 * rest) then some (below + 1)
  else if lowReads then some below
  else none

/-- Digits and exponent of the first grid, from coarse to fine, that holds a number reading back;
`steps` grids are tried. -/
def search (t : Target) (e : Int) : (steps : Nat) → Nat × Int
  | 0 => (t.num / t.den, 0)
  | steps + 1 =>
    match t.onGrid e with
    | some digits => (digits, e)
    | none => search t (e - 1) steps

end Target

/-- Seventeen digits always suffice for the two layouts. -/
def shortest (significand : Nat) (exponent : Int) (boundary : Bool) : Nat × Int :=
  let t := target significand exponent boundary
  t.search (t.magnitude - 1) 18

/-- `digits * 10 ^ e` without an exponent and without superfluous zeros. -/
def positional (digits : Nat) (e : Int) : String :=
  if 0 ≤ e then String.ofList (Nat.toDigits 10 (digits * Nat.pow 10 e.toNat))
  else
    let places := (-e).toNat
    let padded := Text.padZeros (places + 1) (Nat.toDigits 10 digits)
    let whole := padded.take (padded.length - places)
    let fraction := (padded.drop (padded.length - places)).reverse.dropWhile (· == '0')
    if fraction.isEmpty then String.ofList whole
    else String.ofList (whole ++ '.' :: fraction.reverse)

def text (layout : Layout) (bits : Nat) : String :=
  match layout.classify bits with
  | .nan => "NaN"
  | .infinite negative => if negative then "-inf" else "inf"
  | .finite negative significand exponent boundary =>
    let magnitude :=
      if significand = 0 then "0"
      else
        let (digits, e) := shortest significand exponent boundary
        positional digits e
    if negative then "-" ++ magnitude else magnitude

def ofDouble (x : Float) : String := text double x.toBits.toNat

def ofSingle (x : Float32) : String := text single x.toBits.toNat

end ManagedMachine.Decimal
