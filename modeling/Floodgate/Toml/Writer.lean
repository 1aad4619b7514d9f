import Floodgate.Toml.Statement

/-! # Writing

A statement is written on a line of its own, a header after an empty line. Only values that
configurations hold are written: truth values, numbers, texts and the empty sequence. An integer
that no text can hold is not written. -/

namespace Floodgate.Toml

/-- The names of a path, joined by points. -/
def pathText (path : List String) : List Char :=
  (path.map String.toList).intersperse ['.'] |>.flatten

/-- The text of a value. -/
def valueText : Document → List Char
  | .boolean b => booleanText b
  | .integer i => integerText i.toNat
  | .number x => doubleText x
  | .string s => quote s.toList
  | _ => ['[', ']']

/-- The line of a statement. -/
def Statement.text : Statement → List Char
  | .assign path d => pathText path ++ [' ', '=', ' '] ++ valueText d ++ ['\n']
  | .header path => ['\n', '['] ++ pathText path ++ [']', '\n']
  | .arrayHeader path => ['\n', '[', '['] ++ pathText path ++ [']', ']', '\n']

/-- Can a value be written? An integer must fit into 64 bits with sign. -/
def isWritable : Document → Bool
  | .integer i => (fitting i).isSome
  | _ => true

/-- Can the value of a statement be written? -/
def Statement.isWritable : Statement → Bool
  | .assign _ d => Toml.isWritable d
  | .header _ | .arrayHeader _ => true

/-- The text of statements. -/
def write (ss : List Statement) : List Char := ss.flatMap Statement.text

end Floodgate.Toml
