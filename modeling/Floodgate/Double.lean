import Floodgate.Power

/-! # Binary floating-point numbers

Numbers of the binary format with 53 bits of precision, held exactly. A magnitude is a significand
times a power of two, counted in units of `2 ^ -1074`, the smallest positive number of the format;
a significand below `2 ^ 52` occurs only with the least exponent, so each magnitude has one
representation. Every operation computes its exact result and rounds it once: to the nearest
magnitude, of two equally near ones to the one with the even significand. -/

namespace Floodgate

/-- A finite magnitude: `significand * 2 ^ exponent` units. -/
structure Magnitude where
  significand : Nat
  exponent : Nat
  significand_lt : significand < 2 ^ (53 : Nat)
  exponent_le : exponent ≤ 2045
  leading : exponent = 0 ∨ 2 ^ (52 : Nat) ≤ significand
deriving DecidableEq

namespace Magnitude

/-- The number of units in one. -/
def unitsInOne : Nat := 2 ^ (1074 : Nat)

/-- The magnitude of a number of units. -/
def units (m : Magnitude) : Nat := m.significand * 2 ^ m.exponent

/-- The magnitude with the given fields, if there is one. -/
def of? (significand exponent : Nat) : Option Magnitude :=
  if h : significand < 2 ^ (53 : Nat) ∧ exponent ≤ 2045 ∧
      (exponent = 0 ∨ 2 ^ (52 : Nat) ≤ significand) then
    some ⟨significand, exponent, h.1, h.2.1, h.2.2⟩
  else none

/-- The magnitude zero. -/
def zero : Magnitude := ⟨0, 0, by decide, by decide, Or.inl rfl⟩

/-- The quotient of `n` by `d` to the nearest number, a tie to the even one. -/
def roundQuotient (n d : Nat) : Nat :=
  let q := n / d
  let r := n % d
  if 2 * r < d then q else if d < 2 * r then q + 1 else q + q % 2

/-- The exponent of the magnitudes near `n / d` units. -/
def exponentNear (n d : Nat) : Nat := (n / d).log2 - 52

/-- The magnitude nearest to `n / d` units, a tie to the even significand; nothing if it is larger
than every magnitude. -/
def round (n d : Nat) : Option Magnitude :=
  let e := exponentNear n d
  let s := roundQuotient n (d * 2 ^ e)
  if s < 2 ^ (53 : Nat) then of? s e else of? (2 ^ (52 : Nat)) (e + 1)

end Magnitude

/-- A floating-point number; what is no number has neither a sign nor a content. -/
inductive Double where
  | nan
  | infinite (negative : Bool)
  | finite (negative : Bool) (magnitude : Magnitude)
deriving DecidableEq

namespace Double

/-- Positive zero. -/
def zero : Double := .finite false .zero

instance : Inhabited Double := ⟨zero⟩

/-- The number with a sign and a rounded magnitude; what is too large is infinite. -/
def signed (negative : Bool) : Option Magnitude → Double
  | some m => .finite negative m
  | none => .infinite negative

/-- The number nearest to `n / d`. -/
def ofFraction (n d : Nat) : Double := signed false (Magnitude.round (n * Magnitude.unitsInOne) d)

/-- The number nearest to a natural number. -/
def ofNat (n : Nat) : Double := ofFraction n 1

/-- The number nearest to an integer. -/
def ofInt (i : Int) : Double :=
  signed (decide (i < 0)) (Magnitude.round (i.natAbs * Magnitude.unitsInOne) 1)

/-- The exact value of a finite number in units. -/
def signedUnits (negative : Bool) (m : Magnitude) : Int :=
  if negative then - (m.units : Int) else m.units

/-! ### Order -/

/-- The order of numbers; nothing is below or above what is no number. -/
def le : Double → Double → Bool
  | .nan, _ => false
  | _, .nan => false
  | .infinite true, _ => true
  | _, .infinite false => true
  | .infinite false, _ => false
  | _, .infinite true => false
  | .finite s a, .finite t b => signedUnits s a ≤ signedUnits t b

/-- The strict order of numbers. -/
def lt (x y : Double) : Bool := le x y && !le y x

/-- Does the number lie between two bounds, both included? -/
def within (x low high : Double) : Bool := le low x && le x high

/-! ### Arithmetic -/

/-- The product, rounded. -/
def mul : Double → Double → Double
  | .nan, _ => .nan
  | _, .nan => .nan
  | .infinite s, .infinite t => .infinite (s ^^ t)
  | .infinite s, .finite t m => if m.units = 0 then .nan else .infinite (s ^^ t)
  | .finite s m, .infinite t => if m.units = 0 then .nan else .infinite (s ^^ t)
  | .finite s a, .finite t b =>
    signed (s ^^ t) (Magnitude.round (a.units * b.units) Magnitude.unitsInOne)

/-- The difference, rounded. -/
def sub : Double → Double → Double
  | .nan, _ => .nan
  | _, .nan => .nan
  | .infinite s, .infinite t => if s = t then .nan else .infinite s
  | .infinite s, .finite _ _ => .infinite s
  | .finite _ _, .infinite t => .infinite (!t)
  | .finite s a, .finite t b =>
    let d := signedUnits s a - signedUnits t b
    let negative := if d = 0 then s && !t else decide (d < 0)
    signed negative (Magnitude.round d.natAbs 1)

/-- The nearest natural number up to `limit`, halves away from zero; what is negative or no number
gives zero. -/
def toNat (limit : Nat) : Double → Nat
  | .nan => 0
  | .infinite s => if s then 0 else limit
  | .finite s m =>
    if s then 0 else min limit ((2 * m.units + Magnitude.unitsInOne) / (2 * Magnitude.unitsInOne))

end Double

end Floodgate
