/-! # Characters of TOML texts

The classes of characters, the blanks between tokens, and the ends of lines. A line ends with a line
feed, before which a carriage return may stand; alone, a carriage return is not allowed anywhere. -/

namespace Floodgate.Toml

/-- A reader takes a value off the front of a text and leaves the rest. -/
abbrev Reader (α : Type) := List Char → Option (α × List Char)

/-- Is the character a space or a tab? -/
def isBlank (c : Char) : Bool := c = ' ' || c = '\t'

/-- May the character stand unchanged in comments and quoted texts: is it a tab, or no control
character? -/
def isPlain (c : Char) : Bool := c = '\t' || (' ' ≤ c && c ≠ '\x7f')

/-- The text without the blanks at its front. -/
def skipBlanks (s : List Char) : List Char := s.dropWhile isBlank

/-- The text after the end of a line. -/
def newline? : List Char → Option (List Char)
  | '\n' :: s => some s
  | '\r' :: '\n' :: s => some s
  | _ => none

/-- The text after a comment, if it starts with one. -/
def skipComment : List Char → List Char
  | '#' :: s => s.dropWhile isPlain
  | s => s

/-- The text after a line that has nothing but blanks and a comment left. -/
def endLine? (s : List Char) : Option (List Char) :=
  match skipComment (skipBlanks s) with
  | [] => some []
  | s => newline? s

theorem newline?_shorter {s r : List Char} (h : newline? s = some r) : r.length < s.length := by
  unfold newline? at h
  split at h
  · cases h; simp
  · cases h; simp only [List.length_cons]; omega
  · cases h

theorem skipBlanks_length_le (s : List Char) : (skipBlanks s).length ≤ s.length :=
  (List.dropWhile_sublist isBlank).length_le

theorem skipComment_length_le (s : List Char) : (skipComment s).length ≤ s.length := by
  unfold skipComment
  split
  · exact Nat.le_succ_of_le (List.dropWhile_sublist isPlain).length_le
  · exact Nat.le_refl _

/-- The text without the blanks, line ends and comments at its front. -/
def skipLines (s : List Char) : List Char :=
  match _h : newline? (skipComment (skipBlanks s)) with
  | none => skipBlanks s
  | some r => skipLines r
termination_by s.length
decreasing_by
  have h1 := newline?_shorter _h
  have h2 := skipComment_length_le (skipBlanks s)
  have h3 := skipBlanks_length_le s
  omega

end Floodgate.Toml
