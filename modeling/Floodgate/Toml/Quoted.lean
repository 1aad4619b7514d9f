import Floodgate.Toml.Text

/-! # Quoted texts

Four ways to quote a text. Basic texts stand between double quotes and know escapes; literal texts
stand between single quotes and mean what they show. With three quotes on each side both kinds may
run over several lines: an end of line right after the opening quotes is left out, and in a basic
text a backslash at the end of a line leaves out all white space that follows. One or two quotes may
stand right before the closing ones. -/

namespace Floodgate.Toml

/-! ### Reading -/

/-- The value of a hexadecimal digit. -/
def hexDigit? (c : Char) : Option Nat :=
  if '0' ≤ c ∧ c ≤ '9' then some (c.toNat - '0'.toNat)
  else if 'a' ≤ c ∧ c ≤ 'f' then some (c.toNat - 'a'.toNat + 10)
  else if 'A' ≤ c ∧ c ≤ 'F' then some (c.toNat - 'A'.toNat + 10)
  else none

/-- The value of hexadecimal digits. -/
def hexValue? (cs : List Char) : Option Nat :=
  cs.foldlM (fun v c => (hexDigit? c).map (16 * v + ·)) 0

/-- The character whose code is given by the first `n` hexadecimal digits. -/
def scalar? (n : Nat) : Reader Char := fun s =>
  if s.length < n then none
  else
    match hexValue? (s.take n) with
    | some v => if v.isValidChar then some (Char.ofNat v, s.drop n) else none
    | none => none

/-- The character of an escape, after its backslash. -/
def escape? : Reader Char
  | 'b' :: s => some ('\x08', s)
  | 't' :: s => some ('\t', s)
  | 'n' :: s => some ('\n', s)
  | 'f' :: s => some ('\x0c', s)
  | 'r' :: s => some ('\r', s)
  | '"' :: s => some ('"', s)
  | '\\' :: s => some ('\\', s)
  | 'u' :: s => scalar? 4 s
  | 'U' :: s => scalar? 8 s
  | _ => none

theorem scalar?_length_le {n : Nat} {s r : List Char} {c : Char} (h : scalar? n s = some (c, r)) :
    r.length ≤ s.length := by
  unfold scalar? at h
  repeat' split at h
  all_goals simp_all
  obtain ⟨-, rfl⟩ := h
  simp

theorem escape?_shorter {s r : List Char} {c : Char} (h : escape? s = some (c, r)) :
    r.length < s.length := by
  unfold escape? at h
  split at h
  case h_8 => exact Nat.lt_succ_of_le (scalar?_length_le h)
  case h_9 => exact Nat.lt_succ_of_le (scalar?_length_le h)
  all_goals simp_all

/-- A basic text, after its opening quote. -/
def basic (s : List Char) : Option (List Char × List Char) :=
  match s with
  | [] => none
  | '"' :: r => some ([], r)
  | '\\' :: r =>
    match _h : escape? r with
    | none => none
    | some (c, r') => (basic r').map fun t => (c :: t.1, t.2)
  | c :: r => if isPlain c then (basic r).map fun t => (c :: t.1, t.2) else none
termination_by s.length
decreasing_by
  · have := escape?_shorter _h; simp only [List.length_cons]; omega
  · simp

/-- A literal text, after its opening quote. -/
def literal : Reader (List Char)
  | [] => none
  | '\'' :: r => some ([], r)
  | c :: r => if isPlain c then (literal r).map fun t => (c :: t.1, t.2) else none

/-- The number of quotes at the front of a text. -/
def run (quote : Char) (s : List Char) : Nat := (s.takeWhile (· = quote)).length

/-- What a run of quotes in a text over several lines means: fewer than three stand for themselves,
three close the text, and up to two more stand for themselves before that. -/
def closing? (quote : Char) (n : Nat) : Option (List Char) :=
  if 3 ≤ n ∧ n ≤ 5 then some (List.replicate (n - 3) quote) else none

/-- The text after the white space of at least one end of line. -/
def skipWhite (s : List Char) : List Char :=
  match _h : newline? (skipBlanks s) with
  | none => skipBlanks s
  | some r => skipWhite r
termination_by s.length
decreasing_by
  have h1 := newline?_shorter _h
  have h2 := skipBlanks_length_le s
  omega

theorem skipWhite_length_le (s : List Char) : (skipWhite s).length ≤ s.length := by
  fun_induction skipWhite s with
  | case1 s h => exact skipBlanks_length_le s
  | case2 s r h ih =>
    have h1 := newline?_shorter h
    have h2 := skipBlanks_length_le s
    omega

/-- The text after a line end that a backslash cancels, with the white space that follows. -/
def continued? (s : List Char) : Option (List Char) := (newline? (skipBlanks s)).map skipWhite

theorem continued?_shorter {s r : List Char} (h : continued? s = some r) :
    r.length < s.length := by
  obtain ⟨t, ht, rfl⟩ := Option.map_eq_some_iff.mp h
  have h1 := newline?_shorter ht
  have h2 := skipBlanks_length_le s
  have h3 := skipWhite_length_le t
  omega

/-- A basic text over several lines, after its opening quotes. -/
def basicLines (s : List Char) : Option (List Char × List Char) :=
  match s with
  | [] => none
  | '"' :: r =>
    let n := run '"' r + 1
    if n < 3 then
      (basicLines (r.drop (n - 1))).map fun t => (List.replicate n '"' ++ t.1, t.2)
    else (closing? '"' n).map fun t => (t, r.drop (n - 1))
  | '\\' :: r =>
    match _h : continued? r with
    | some r' => basicLines r'
    | none =>
      match _h' : escape? r with
      | none => none
      | some (c, r') => (basicLines r').map fun t => (c :: t.1, t.2)
  | '\n' :: r => (basicLines r).map fun t => ('\n' :: t.1, t.2)
  | '\r' :: '\n' :: r => (basicLines r).map fun t => ('\n' :: t.1, t.2)
  | c :: r => if isPlain c then (basicLines r).map fun t => (c :: t.1, t.2) else none
termination_by s.length
decreasing_by
  · simp only [List.length_drop, List.length_cons]; omega
  · have := continued?_shorter _h; simp only [List.length_cons]; omega
  · have := escape?_shorter _h'; simp only [List.length_cons]; omega
  · simp
  · simp only [List.length_cons]; omega
  · simp

/-- A literal text over several lines, after its opening quotes. -/
def literalLines (s : List Char) : Option (List Char × List Char) :=
  match s with
  | [] => none
  | '\'' :: r =>
    let n := run '\'' r + 1
    if n < 3 then
      (literalLines (r.drop (n - 1))).map fun t => (List.replicate n '\'' ++ t.1, t.2)
    else (closing? '\'' n).map fun t => (t, r.drop (n - 1))
  | '\n' :: r => (literalLines r).map fun t => ('\n' :: t.1, t.2)
  | '\r' :: '\n' :: r => (literalLines r).map fun t => ('\n' :: t.1, t.2)
  | c :: r => if isPlain c then (literalLines r).map fun t => (c :: t.1, t.2) else none
termination_by s.length
decreasing_by
  · simp only [List.length_drop, List.length_cons]; omega
  · simp
  · simp only [List.length_cons]; omega
  · simp

/-- A text over several lines without the end of line at its front. -/
def trimFirst (s : List Char) : List Char := (newline? s).getD s

/-- A quoted text on one line. -/
def quotedLine? : Reader (List Char)
  | '"' :: s => basic s
  | '\'' :: s => literal s
  | _ => none

/-- A quoted text. -/
def quoted? : Reader (List Char)
  | '"' :: '"' :: '"' :: s => basicLines (trimFirst s)
  | '\'' :: '\'' :: '\'' :: s => literalLines (trimFirst s)
  | s => quotedLine? s

/-! ### Writing -/

/-- The ways to quote a text. -/
inductive Quoting where
  | basic
  | literal
  | basicLines
  | literalLines
deriving DecidableEq

/-- Is the character a control character other than those of white space? -/
def isCode (c : Char) : Bool := (c < ' ' && c ≠ '\t' && c ≠ '\n') || c = '\x7f'

/-- The length of the longest run of a character. -/
def longestRun (quote : Char) : List Char → Nat
  | [] => 0
  | c :: cs => max (run quote (c :: cs)) (longestRun quote cs)

/-- The way in which a text is quoted: as a basic text if it needs no escapes, else as a literal one
if it can be; over several lines if it has a line end or both kinds of quotes, and as a basic text
with escapes if nothing else is possible. -/
def Quoting.of (s : List Char) : Quoting :=
  let code := s.any isCode
  let line := s.contains '\n'
  let backslash := s.contains '\\'
  if !code && !backslash && !line && !s.contains '"' then .basic
  else if !code && !line && !s.contains '\'' then .literal
  else if !code && !backslash && longestRun '"' s ≤ 2 then .basicLines
  else if !code && longestRun '\'' s ≤ 2 then .literalLines
  else if line then .basicLines
  else .basic

/-- A hexadecimal digit. -/
def hexChar (n : Nat) : Char := (Nat.digitChar n).toUpper

/-- The escape of a control character by its code. -/
def codeEscape (c : Char) : List Char :=
  ['\\', 'u', '0', '0', hexChar (c.toNat / 16), hexChar (c.toNat % 16)]

/-- A character of a basic text; a line end stays if the text runs over lines, and a quote stays as
long as fewer than `quotes` stand before it. -/
def basicChar (lines : Bool) (before quotes : Nat) (c : Char) : List Char :=
  if c = '\x08' then ['\\', 'b']
  else if c = '\t' then ['\\', 't']
  else if c = '\n' then if lines then ['\n'] else ['\\', 'n']
  else if c = '\x0c' then ['\\', 'f']
  else if c = '\r' then ['\\', 'r']
  else if c = '\\' then ['\\', '\\']
  else if c = '"' then if before < quotes then ['"'] else ['\\', '"']
  else if isCode c then codeEscape c
  else [c]

/-- The characters of a basic text, of which the first has `before` quotes before it. -/
def basicChars (lines : Bool) (quotes : Nat) : Nat → List Char → List Char
  | _, [] => []
  | before, c :: cs =>
    basicChar lines before quotes c ++
      basicChars lines quotes (if c = '"' ∧ before < quotes then before + 1 else 0) cs

/-- The line end that follows the opening quotes of a text over several lines. -/
def opening (s : List Char) : List Char := if s.contains '\n' then ['\n'] else []

/-- Three of a quote. -/
def triple (quote : Char) : List Char := List.replicate 3 quote

/-- The number of quotes that may stand in a row in a basic text over several lines. -/
def quotesInLines : Nat := 2

/-- A text in quotes. -/
def quote (s : List Char) : List Char :=
  match Quoting.of s with
  | .basic => '"' :: basicChars false 0 0 s ++ ['"']
  | .literal => '\'' :: s ++ ['\'']
  | .basicLines => triple '"' ++ opening s ++ basicChars true quotesInLines 0 s ++ triple '"'
  | .literalLines => triple '\'' ++ opening s ++ s ++ triple '\''

end Floodgate.Toml
