/-! # Decimal numerals

A numeral is the list of the decimal digits of a number, most significant first, without leading
zeros; zero has the one digit `0`. `digits` writes it and `value` reads it. -/

namespace Floodgate.Decimal

/-- The decimal digits of a number, most significant first. -/
def digits (n : Nat) : List Nat :=
  if n < 10 then [n] else digits (n / 10) ++ [n % 10]

/-- The number a list of digits stands for. -/
def value (ds : List Nat) : Nat := ds.foldl (fun v d => 10 * v + d) 0

/-- The character of a digit. -/
def digitChar (d : Nat) : Char := Char.ofNat ('0'.toNat + d)

/-- The digit a character stands for. -/
def digit? (c : Char) : Option Nat := if '0' ≤ c ∧ c ≤ '9' then some (c.toNat - '0'.toNat) else none

/-- Is the character a decimal digit? -/
def isDigit (c : Char) : Bool := (digit? c).isSome

/-- The characters of the numeral of `n`. -/
def numeral (n : Nat) : List Char := (digits n).map digitChar

/-- The number that a list of characters stands for, of which only the digits count. -/
def read (cs : List Char) : Nat := value (cs.filterMap digit?)

theorem value_append_singleton (ds : List Nat) (d : Nat) :
    value (ds ++ [d]) = 10 * value ds + d := by
  simp [value, List.foldl_append]

@[simp]
theorem value_digits (n : Nat) : value (digits n) = n := by
  induction n using Nat.strongRecOn with
  | ind n ih =>
    rw [digits]
    split
    · simp [value]
    · rw [value_append_singleton, ih (n / 10) (by omega)]
      omega

end Floodgate.Decimal
