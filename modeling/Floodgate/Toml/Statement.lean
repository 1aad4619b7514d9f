import Floodgate.Toml.Number

/-! # Statements

A text is a list of statements, one a line: an assignment of a value to a key, the header of a
table, or the header of the next table of an array. A key is a path of names, which are joined by
points. Values nest to a bounded depth. -/

namespace Floodgate.Toml

/-- A statement of a text. -/
inductive Statement where
  /-- The value of a key, below the table of the last header. -/
  | assign (path : List String) (value : Document)
  /-- The table that the assignments after it belong to. -/
  | header (path : List String)
  /-- The next table of an array, to which the assignments after it belong. -/
  | arrayHeader (path : List String)

/-- The bound of nesting: values nest less deep, and paths have fewer names. -/
def nestingBound : Nat := 80

/-! ### Keys -/

/-- May the character stand in a name without quotes? -/
def isBare (c : Char) : Bool :=
  ('A' ≤ c && c ≤ 'Z') || ('a' ≤ c && c ≤ 'z') || Decimal.isDigit c || c = '-' || c = '_'

/-- A name. -/
def name : Reader (List Char)
  | '"' :: s => basic s
  | '\'' :: s => literal s
  | s =>
    let bare := s.takeWhile isBare
    if bare.isEmpty then none else some (bare, s.dropWhile isBare)

/-- The names of a path, with blanks around each. -/
def path (s : List Char) : Option (List String × List Char) :=
  match name (skipBlanks s) with
  | none => none
  | some (n, r) =>
    match skipBlanks r with
    | '.' :: r' =>
      if r'.length < s.length then
        (path r').map fun t => (String.ofList n :: t.1, t.2)
      else none
    | r' => some ([String.ofList n], r')
termination_by s.length

/-- A path with fewer names than the bound. -/
def key : Reader (List String) := fun s =>
  (path s).bind fun t => if t.1.length < nestingBound then some t else none

/-! ### Tables under construction

A table remembers how it came about: by a header, on the way to a header's table, or on the way of a
key. A table of a header is complete and cannot be named by a second header or extended by keys from
outside; one on the way to a header's table can still get its own header; one on the way of a key
can still be extended by keys. -/

/-- How a table came about. -/
inductive Origin where
  | header
  | implied
  | dotted
deriving DecidableEq

/-- An item of a table under construction. -/
inductive Item where
  | value (d : Document)
  | table (origin : Origin) (entries : List (String × Item))
  /-- The tables of an array, last first. -/
  | tables (last : List (String × Item)) (before : List (List (String × Item)))

/-- The entries of a table under construction. -/
abbrev Entries := List (String × Item)

/-- A table that is reached on the way of a path, and what the item becomes when its entries
change. -/
structure Reached where
  origin : Origin
  entries : Entries
  rebuild : Entries → Item

/-- The table that is reached by a name of a path, which is made if nothing is there. A path that is
`dotted` belongs to a key: it does not enter the table of a header. -/
def enter? (dotted : Bool) : Option Item → Option Reached
  | none =>
    let origin := if dotted then .dotted else .implied
    some ⟨origin, [], .table origin⟩
  | some (.table origin entries) =>
    if dotted && origin = .header then none else some ⟨origin, entries, .table origin⟩
  | some (.tables last before) => some ⟨.header, last, fun entries => .tables entries before⟩
  | some (.value _) => none

/-- Changes the entries of the table at the end of a path. -/
def change? (dotted : Bool) (f : Origin → Entries → Option Entries) :
    List String → Origin → Entries → Option Entries
  | [], origin, entries => f origin entries
  | n :: ns, _, entries =>
    match enter? dotted (Keyed.find n entries) with
    | none => none
    | some t =>
      (change? dotted f ns t.origin t.entries).map fun inner =>
        Keyed.put n (t.rebuild inner) entries

/-- Adds a value under a name that is not there yet. -/
def add? (n : String) (d : Document) (entries : Entries) : Option Entries :=
  match Keyed.find n entries with
  | some _ => none
  | none => some (entries ++ [(n, .value d)])

/-- Assigns a value to the last name of a path. A path of several names must end in a table that
came about by keys. -/
def assign? (d : Document) (path : List String) (entries : Entries) : Option Entries :=
  match path.getLast? with
  | none => none
  | some n =>
    change? true
      (fun origin inner =>
        if (origin = .dotted) ↔ path.dropLast = [] then none else add? n d inner)
      path.dropLast .header entries

/-- The item that a header makes of what is under its name. -/
def headed? : Option Item → Option Item
  | none => some (.table .header [])
  | some (.table .implied entries) => some (.table .header entries)
  | some _ => none

/-- The item that the header of an array makes of what is under its name. -/
def arrayHeaded? : Option Item → Option Item
  | none => some (.tables [] [])
  | some (.tables last before) => some (.tables [] (last :: before))
  | some _ => none

/-- Opens the table at the end of a path. -/
def open? (item? : Option Item → Option Item) (path : List String) (entries : Entries) :
    Option Entries :=
  match path.getLast? with
  | none => none
  | some n =>
    change? false
      (fun _ inner => (item? (Keyed.find n inner)).map fun item => Keyed.put n item inner)
      path.dropLast .header entries

mutual

/-- The value that an item stands for. -/
def Item.document : Item → Document
  | .value d => d
  | .table _ entries => .table (documents entries)
  | .tables last before => .sequence ((tableDocuments before).reverse ++ [.table (documents last)])

/-- The values of entries. -/
def documents : List (String × Item) → List (String × Document)
  | [] => []
  | (n, item) :: entries => (n, item.document) :: documents entries

/-- The values of tables. -/
def tableDocuments : List (List (String × Item)) → List Document
  | [] => []
  | entries :: rest => .table (documents entries) :: tableDocuments rest

end

/-- A text under construction: its root table, and the path of the table of the last header. -/
structure Draft where
  root : Entries := []
  path : List String := []

/-- A text under construction with one more statement. -/
def Draft.add? (t : Draft) : Statement → Option Draft
  | .assign path d =>
    (change? false (fun _ => assign? d path) t.path .header t.root).map fun root => { t with root }
  | .header path => (open? headed? path t.root).map fun root => { root, path }
  | .arrayHeader path => (open? arrayHeaded? path t.root).map fun root => { root, path }

/-- The table that statements stand for. -/
def documentOf (ss : List Statement) : Option Document :=
  (ss.foldlM Draft.add? {}).map fun t => .table (documents t.root)

end Floodgate.Toml
