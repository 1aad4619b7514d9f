import Floodgate.Decimal
import Floodgate.Double

/-! # Decimal text of floating-point numbers

A decimal `c * 10 ^ k` is read as the number nearest to it. A number is written with the fewest
digits that read back: grids of multiples of `10 ^ k` are tried from the coarsest to the finest, on
each grid only the two neighbours of the number can be nearest to it, and of two neighbours that
both read back the nearer one is taken, the upper one if they are equally near. The digits are
written positionally, without an exponent and without a fraction of zero. -/

namespace Floodgate

namespace Double

/-- The number of decimal digits beyond which a decimal is certainly too large or too small. -/
def decimalReach : Int := 400

/-- The number nearest to `coefficient * 10 ^ exponent`, with a sign. -/
def ofDecimal (negative : Bool) (coefficient : Nat) (exponent : Int) : Double :=
  let top : Int := exponent + (Decimal.digits coefficient).length
  if coefficient = 0 ∨ top < -decimalReach then .finite negative .zero
  else if decimalReach < top then .infinite negative
  else
    signed negative (Magnitude.round (coefficient * 10 ^ exponent.toNat * Magnitude.unitsInOne)
      (10 ^ (-exponent).toNat))

end Double

namespace Magnitude

/-- Does `c * 10 ^ k` read back as the magnitude? -/
def readBack (m : Magnitude) (c : Nat) (k : Int) : Bool :=
  Double.ofDecimal false c k = .finite false m

/-- The multiple of `10 ^ k` nearest to the magnitude among those that read back. -/
def onGrid (m : Magnitude) (k : Int) : Option (Nat × Int) :=
  let n := m.units * 10 ^ (-k).toNat
  let d := unitsInOne * 10 ^ k.toNat
  let c := n / d
  match m.readBack c k, m.readBack (c + 1) k with
  | true, true => some (if 2 * (n % d) < d then c else c + 1, k)
  | true, false => some (c, k)
  | false, true => some (c + 1, k)
  | false, false => none

/-- The magnitude written out to the last digit. -/
def exactDecimal (m : Magnitude) : Nat × Int := (m.units * 5 ^ (1074 : Nat), -1074)

/-- The grids from the coarsest that can hold a multiple near the magnitude to the one that holds
every magnitude. -/
def grids (m : Magnitude) : List Int :=
  let top := (Decimal.digits (m.units / unitsInOne)).length
  (List.range (top + 1075)).map fun i : Nat => (top : Int) - i

/-- The decimal with the fewest digits that reads back as the magnitude. -/
def shortest (m : Magnitude) : Nat × Int := (m.grids.findSome? m.onGrid).getD m.exactDecimal

end Magnitude

namespace Double

/-- The digits of `c * 10 ^ k`, with a point if `k` is negative. -/
def positional (c : Nat) (k : Int) : List Char :=
  let ds := Decimal.numeral c
  let places := (-k).toNat
  let padded := List.replicate (places + 1 - ds.length) '0' ++ ds ++ List.replicate k.toNat '0'
  let whole := padded.length - places
  if places = 0 then padded else padded.take whole ++ '.' :: padded.drop whole

/-- The digits of a magnitude. -/
def magnitudeText (m : Magnitude) : List Char :=
  if m = .zero then ['0'] else positional m.shortest.1 m.shortest.2

/-- The sign of a negative number. -/
def sign (negative : Bool) : List Char := if negative then ['-'] else []

/-- The text of a number in messages. -/
def text : Double → String
  | .nan => "NaN"
  | .infinite negative => String.ofList (sign negative ++ ['i', 'n', 'f'])
  | .finite negative m => String.ofList (sign negative ++ magnitudeText m)

end Double

end Floodgate
