import Floodgate.Decimal
import Floodgate.Document
import Floodgate.Toml.Quoted

/-! # Numbers and moments

Integers are decimal with an optional sign, or unsigned with base 16, 8 or 2; they must fit into 64
bits with sign. Floating-point numbers have a fraction, an exponent or both, or are an infinity or
no number. A single underline may stand between two digits. Moments are dates and times of day that
exist in the calendar. -/

namespace Floodgate.Toml

/-! ### Digits -/

/-- The digits at the front of a text, with single underlines between them left out; an underline
that no digit follows spoils the text. -/
def moreDigits (isDigit : Char → Bool) : Reader (List Char)
  | [] => some ([], [])
  | '_' :: c :: s => if isDigit c then (moreDigits isDigit s).map fun t => (c :: t.1, t.2) else none
  | c :: s =>
    if isDigit c then (moreDigits isDigit s).map fun t => (c :: t.1, t.2)
    else if c = '_' then none
    else some ([], c :: s)

/-- One or more digits. -/
def digits (isDigit : Char → Bool) : Reader (List Char)
  | [] => none
  | c :: s => if isDigit c then (moreDigits isDigit s).map fun t => (c :: t.1, t.2) else none

/-- A decimal numeral without leading zeros. -/
def numeral : Reader (List Char)
  | '0' :: s => some (['0'], s)
  | s => digits Decimal.isDigit s

/-- A sign: is it a minus? -/
def sign : List Char → Bool × List Char
  | '-' :: s => (true, s)
  | '+' :: s => (false, s)
  | s => (false, s)

/-- An integer with a sign. -/
def signed (negative : Bool) (n : Nat) : Int := if negative then - (n : Int) else n

/-! ### Integers -/

/-- An integer that fits into 64 bits with sign. -/
def fitting (i : Int) : Option Document :=
  if - (2 ^ (63 : Nat) : Int) ≤ i ∧ i < 2 ^ (63 : Nat) then some (.integer i) else none

/-- Is the character a digit of a base of at most 16? -/
def isDigitOf (base : Nat) (c : Char) : Bool := (hexDigit? c).any fun d => d < base

/-- The value of digits of a base of at most 16. -/
def valueOf (base : Nat) (cs : List Char) : Nat :=
  cs.foldl (fun v c => base * v + (hexDigit? c).getD 0) 0

/-- An unsigned integer of a base, after the sign of the base. -/
def based (base : Nat) : Reader Document := fun s =>
  (digits (isDigitOf base) s).bind fun (ds, r) =>
    (fitting (valueOf base ds)).map fun d => (d, r)

/-- An integer. -/
def integer : Reader Document
  | '0' :: 'x' :: s => based 16 s
  | '0' :: 'o' :: s => based 8 s
  | '0' :: 'b' :: s => based 2 s
  | s =>
    let (negative, r) := sign s
    (numeral r).bind fun (ds, r) =>
      (fitting (signed negative (Decimal.read ds))).map fun d => (d, r)

/-! ### Floating-point numbers -/

/-- An exponent, after its letter. -/
def exponent : Reader Int := fun s =>
  let (negative, r) := sign s
  (digits Decimal.isDigit r).map fun (ds, r) => (signed negative (Decimal.read ds), r)

/-- An exponent with its letter, or nothing. -/
def exponent? : Reader (Option Int)
  | 'e' :: s | 'E' :: s => (exponent s).map fun (e, r) => (some e, r)
  | s => some (none, s)

/-- A fraction with its point, or nothing. -/
def fraction? : Reader (Option (List Char))
  | '.' :: s => (digits Decimal.isDigit s).map fun (ds, r) => (some ds, r)
  | s => some (none, s)

/-- An infinity or no number; the sign of what is no number is not kept. -/
def special (negative : Bool) : Reader Document
  | 'i' :: 'n' :: 'f' :: s => some (.number (.infinite negative), s)
  | 'n' :: 'a' :: 'n' :: s => some (.number .nan, s)
  | _ => none

/-- The number that its digits stand for; digits never stand for positive infinity. -/
def magnitude (negative : Bool) (whole fraction : List Char) (e : Int) : Option Double :=
  let x := Double.ofDecimal negative (Decimal.read (whole ++ fraction)) (e - fraction.length)
  if x = .infinite false then none else some x

/-- A number: floating-point if it has a fraction or an exponent, else an integer. -/
def number : Reader Document := fun s =>
  let (negative, r) := sign s
  match special negative r with
  | some t => some t
  | none =>
    match numeral r with
    | none => none
    | some (whole, r) =>
      match fraction? r with
      | none => none
      | some (fraction, r) =>
        match exponent? r with
        | none => none
        | some (e, r) =>
          if fraction.isNone && e.isNone then integer s
          else (magnitude negative whole (fraction.getD []) (e.getD 0)).map fun x => (.number x, r)

/-! ### Moments -/

/-- A numeral of exactly `n` digits, from `low` to `high`. -/
def field (n low high : Nat) : Reader Nat := fun s =>
  let ds := s.take n
  let v := Decimal.read ds
  if ds.length = n && ds.all Decimal.isDigit && low ≤ v && v ≤ high then some (v, s.drop n)
  else none

/-- The text after a character. -/
def after? (c : Char) : List Char → Option (List Char)
  | d :: s => if d = c then some s else none
  | [] => none

/-- Has the year a leap day? -/
def isLeapYear (y : Nat) : Bool := y % 4 = 0 && (y % 100 ≠ 0 || y % 400 = 0)

/-- The number of days of a month. -/
def daysOf (y m : Nat) : Nat :=
  if m = 2 then if isLeapYear y then 29 else 28
  else if m = 4 || m = 6 || m = 9 || m = 11 then 30
  else 31

/-- The text after a date. -/
def date? (s : List Char) : Option (List Char) := do
  let (y, s) ← field 4 0 9999 s
  let s ← after? '-' s
  let (m, s) ← field 2 1 12 s
  let s ← after? '-' s
  let (_, s) ← field 2 1 (daysOf y m) s
  return s

/-- The text after an hour and a minute. -/
def minutes? (s : List Char) : Option (List Char) := do
  let (_, s) ← field 2 0 23 s
  let s ← after? ':' s
  let (_, s) ← field 2 0 59 s
  return s

/-- The text after the fraction of a second, if there is one. -/
def secondFraction? : List Char → Option (List Char)
  | '.' :: c :: s => if Decimal.isDigit c then some (s.dropWhile Decimal.isDigit) else none
  | ['.'] => none
  | s => some s

/-- The text after a time of day. -/
def time? (s : List Char) : Option (List Char) := do
  let s ← minutes? s
  let s ← after? ':' s
  let (_, s) ← field 2 0 60 s
  secondFraction? s

/-- The text after the offset of a time, if there is one. -/
def offset? : List Char → Option (List Char)
  | 'Z' :: s | 'z' :: s => some s
  | '+' :: s | '-' :: s => minutes? s
  | s => some s

/-- The text after the time of a date, if there is one. -/
def timeOfDate? : List Char → Option (List Char)
  | c :: s =>
    if c = 'T' || c = 't' || c = ' ' then
      match time? s with
      | some r => offset? r
      | none => if c = ' ' then some (c :: s) else none
    else some (c :: s)
  | [] => some []

/-- A moment: a date, with a time or without, or a time. -/
def moment : Reader Document := fun s =>
  match date? s with
  | some r => (timeOfDate? r).map fun r => (.moment, r)
  | none => (time? s).map fun r => (.moment, r)

/-! ### Writing -/

/-- The text of an integer. -/
def integerText (n : Nat) : List Char := Decimal.numeral n

/-- The text of a floating-point number: an integral one has the fraction `.0`. -/
def doubleText : Double → List Char
  | .nan => ['n', 'a', 'n']
  | .infinite negative => Double.sign negative ++ ['i', 'n', 'f']
  | .finite negative m =>
    let text := Double.magnitudeText m
    Double.sign negative ++ text ++ if text.contains '.' then [] else ['.', '0']

/-- The text of a truth value. -/
def booleanText (b : Bool) : List Char :=
  if b then ['t', 'r', 'u', 'e'] else ['f', 'a', 'l', 's', 'e']

end Floodgate.Toml
