import Floodgate.Toml.Statement

/-! # Reading

A text is read in two steps: into statements, and from statements into the table that they build.
Every reader takes something off the front of the text; where a loop cannot see that the rest is
shorter it asks. -/

namespace Floodgate.Toml

/-! ### Values -/

/-- The items of an array, from the front of one of them to the closing bracket. -/
def items (value : Reader Document) (s : List Char) : Option (List Document × List Char) :=
  match value s with
  | none => none
  | some (d, r) =>
    match skipLines r with
    | ']' :: r' => some ([d], r')
    | ',' :: r' =>
      match skipLines r' with
      | ']' :: r'' => some ([d], r'')
      | r'' =>
        if r''.length < s.length then (items value r'').map fun t => (d :: t.1, t.2) else none
    | _ => none
termination_by s.length

/-- An array, after its opening bracket. -/
def array (value : Reader Document) : Reader Document := fun s =>
  match skipLines s with
  | ']' :: r => some (.sequence [], r)
  | r => (items value r).map fun t => (.sequence t.1, t.2)

/-- A key with its value, and the blanks around them. -/
def binding (value : Reader Document) : Reader (List String × Document) := fun s =>
  match key s with
  | some (path, '=' :: r) =>
    (value (skipBlanks r)).map fun t => ((path, t.1), skipBlanks t.2)
  | _ => none

/-- The entries of a table on one line, from the front of one of them to the closing brace. -/
def bindings (value : Reader Document) (s : List Char) :
    Option (List (List String × Document) × List Char) :=
  match binding value s with
  | none => none
  | some (b, r) =>
    match r with
    | '}' :: r' => some ([b], r')
    | ',' :: r' =>
      if r'.length < s.length then (bindings value r').map fun t => (b :: t.1, t.2) else none
    | _ => none
termination_by s.length

/-- The table on one line that bindings stand for. -/
def inlineTable (bs : List (List String × Document)) : Option Document :=
  (bs.foldlM (fun entries b => assign? b.2 b.1 entries) []).map fun entries =>
    .table (documents entries)

/-- A table on one line, after its opening brace. -/
def braced (value : Reader Document) : Reader Document := fun s =>
  match skipBlanks s with
  | '}' :: r => some (.table [], r)
  | r =>
    (bindings value r).bind fun t => (inlineTable t.1).map fun d => (d, t.2)

/-- A value that does not nest. -/
def scalar : Reader Document
  | 't' :: 'r' :: 'u' :: 'e' :: s => some (.boolean true, s)
  | 'f' :: 'a' :: 'l' :: 's' :: 'e' :: s => some (.boolean false, s)
  | '"' :: s => (quoted? ('"' :: s)).map fun t => (.string (String.ofList t.1), t.2)
  | '\'' :: s => (quoted? ('\'' :: s)).map fun t => (.string (String.ofList t.1), t.2)
  | s => (moment s).orElse fun _ => number s

/-- A value that nests at most to a depth. -/
def value : Nat → Reader Document
  | 0, s => scalar s
  | depth + 1, s =>
    match s with
    | '[' :: r => array (value depth) r
    | '\x7b' :: r => braced (value depth) r
    | r => scalar r

/-! ### Statements -/

/-- The key of a header, up to the bracket that closes it. -/
def headerKey : Reader (List String) := fun s =>
  match key s with
  | some (path, ']' :: r) => some (path, r)
  | _ => none

/-- A statement. -/
def statement : Reader Statement
  | '[' :: '[' :: s =>
    match headerKey s with
    | some (path, ']' :: r) => some (.arrayHeader path, r)
    | _ => none
  | '[' :: s => (headerKey s).map fun t => (.header t.1, t.2)
  | s => (binding (value (nestingBound - 1)) s).map fun t => (.assign t.1.1 t.1.2, t.2)

/-- The statements of a text. -/
def statements (s : List Char) : Option (List Statement) :=
  match skipLines s with
  | [] => some []
  | '#' :: r => if (r.all isPlain) then some [] else none
  | r =>
    match statement r with
    | none => none
    | some (st, r') =>
      match endLine? r' with
      | none => none
      | some r'' =>
        if r''.length < s.length then (statements r'').map (st :: ·) else none
termination_by s.length

/-- The text without the mark of its byte order. -/
def skipMark : List Char → List Char
  | '\ufeff' :: s => s
  | s => s

/-- The table that a text stands for. -/
def read (s : List Char) : Option Document := (statements (skipMark s)).bind documentOf

end Floodgate.Toml
