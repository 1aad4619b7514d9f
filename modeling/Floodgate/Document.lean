import Floodgate.Double.Text
import Floodgate.Keyed

/-! # Documents

The tree of values that a configuration text stands for, and how settings are read off it. A section
is a table, whose entries are found by name; a sequence of values stands for the settings of a
section in their order, and a moment for a section without settings. -/

namespace Floodgate

/-- A value of a configuration text. -/
inductive Document where
  | nothing
  | boolean (b : Bool)
  | integer (i : Int)
  | number (x : Double)
  | string (s : String)
  /-- A date or a time; no setting holds one. -/
  | moment
  | sequence (items : List Document)
  | table (entries : List (String × Document))

namespace Document

/-! ### Single settings -/

/-- A truth value. -/
def boolean? : Document → Option Bool
  | boolean b => some b
  | _ => none

/-- A text. -/
def string? : Document → Option String
  | string s => some s
  | _ => none

/-- A natural number below a bound. -/
def below? (bound : Nat) : Document → Option Nat
  | integer i => if 0 ≤ i ∧ i < bound then some i.toNat else none
  | _ => none

/-- A number of 32 bits. -/
def word32? (d : Document) : Option UInt32 := (d.below? UInt32.size).map .ofNat

/-- A number of 64 bits. -/
def word64? (d : Document) : Option UInt64 := (d.below? UInt64.size).map .ofNat

/-- A floating-point number; an integer stands for the nearest one. -/
def double? : Document → Option Double
  | number x => some x
  | integer i => some (.ofInt i)
  | _ => none

/-- A list of values of one kind. -/
def list? {α : Type} (item? : Document → Option α) : Document → Option (List α)
  | sequence ds => ds.mapM item?
  | _ => none

/-! ### Sections -/

/-- The settings of a section whose settings have the given names. -/
def settings? (names : List String) : Document → Option (List (String × Document))
  | table entries => some entries
  | sequence ds => some (names.zip ds)
  | moment => some []
  | _ => none

/-- The value of a setting, or a default if it is missing. -/
def setting {α : Type} (settings : List (String × Document)) (name : String)
    (value? : Document → Option α) (default : α) : Option α :=
  match Keyed.find name settings with
  | some d => value? d
  | none => some default

/-- The value of a setting that must not be missing. -/
def required {α : Type} (settings : List (String × Document)) (name : String)
    (value? : Document → Option α) : Option α :=
  (Keyed.find name settings).bind value?

end Document

end Floodgate
