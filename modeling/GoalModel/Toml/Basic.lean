/-! # TOML documents

A document is read into statements, headers and assignments, and the statements are put together
into a table (`Statement.table?`). A table may be defined only once: a header may open a table
that so far was only passed through, but neither one that a header or a dotted key has defined
nor the table of an inline value; a dotted key may add to a table that dotted keys have made or
that was only passed through.

The readers of settings ask for texts and truth values only, so all other values are told apart
no further. -/

namespace GoalModel.Toml

inductive Value where
  | string (text : String)
  | bool (value : Bool)
  /-- A number, a date, an array or an inline table. -/
  | other
  deriving DecidableEq, Repr

/-- How a table came about. -/
inductive Origin where
  /-- It was passed through on the way to another table. -/
  | implicit
  | header
  | dotted
  deriving DecidableEq, Repr

inductive Node where
  | value (value : Value)
  | table (origin : Origin) (entries : List (String × Node))
  /-- The tables of an array, each opened by a header. -/
  | tables (items : List (List (String × Node)))

abbrev Entries := List (String × Node)

namespace Entries

/-- Replaces or adds the entry with a key. -/
def update (key : String) (f : Option Node → Option Node) : Entries → Option Entries
  | [] => (f none).map fun node => [(key, node)]
  | (other, node) :: rest =>
    if other = key then (f (some node)).map fun node => (other, node) :: rest
    else (update key f rest).map fun rest => (other, node) :: rest

/-- Changes the last one of some tables. -/
def changeLast (f : Entries → Option Entries) : List Entries → Option (List Entries)
  | [] => none
  | [last] => (f last).map fun last => [last]
  | first :: rest => (changeLast f rest).map fun rest => first :: rest

/-- Changes the table at the end of a path of headers, passing through tables that need not
exist yet. -/
def atPath (f : Entries → Option Entries) : List String → Entries → Option Entries
  | [], entries => f entries
  | key :: path, entries =>
    update key (fun
      | none => (atPath f path []).map (.table .implicit)
      | some (.table origin inner) => (atPath f path inner).map (.table origin)
      | some (.tables items) => (changeLast (atPath f path) items).map .tables
      | some (.value _) => none) entries

/-- Opens the table with a key. -/
def openTable (key : String) : Entries → Option Entries :=
  update key fun
    | none => some (.table .header [])
    | some (.table .implicit inner) => some (.table .header inner)
    | some _ => none

/-- Adds a table to the array with a key. -/
def pushTable (key : String) : Entries → Option Entries :=
  update key fun
    | none => some (.tables [[]])
    | some (.tables items) => some (.tables (items ++ [[]]))
    | some _ => none

/-- Gives a value to a dotted key. -/
def assign (value : Value) : List String → Entries → Option Entries
  | [], _ => none
  | [key], entries =>
    update key (fun
      | none => some (.value value)
      | some _ => none) entries
  | key :: path, entries =>
    update key (fun
      | none => (assign value path []).map (.table .dotted)
      | some (.table .header _) => none
      | some (.table origin inner) => (assign value path inner).map (.table origin)
      | some _ => none) entries

end Entries

inductive Statement where
  /-- `[a.b]`, as the path to the table and its key. -/
  | header (path : List String) (key : String)
  /-- `[[a.b]]`. -/
  | arrayHeader (path : List String) (key : String)
  /-- `a.b = value`. -/
  | assignment (path : List String) (value : Value)
  deriving Repr

namespace Statement

/-- Adds statements to a document in which `current` is the path of the open table. -/
def addAll : (current : List String) → Entries → List Statement → Option Entries
  | _, entries, [] => some entries
  | current, entries, statement :: rest =>
    match statement with
    | .header path key =>
      (Entries.atPath (Entries.openTable key) path entries).bind fun entries =>
        addAll (path ++ [key]) entries rest
    | .arrayHeader path key =>
      (Entries.atPath (Entries.pushTable key) path entries).bind fun entries =>
        addAll (path ++ [key]) entries rest
    | .assignment path value =>
      (Entries.atPath (Entries.assign value path) current entries).bind fun entries =>
        addAll current entries rest

/-- The table that some statements describe, if they define everything once. -/
def table? (statements : List Statement) : Option Entries := addAll [] [] statements

end Statement

end GoalModel.Toml
