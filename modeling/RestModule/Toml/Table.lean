/-!
# TOML tables

The values of a TOML document and the rules by which headers and dotted keys build its tables: a table is
defined once, a key is set once, and a table written inline or by dotted keys is not taken up again by a
header.
-/

namespace RestModule.Toml

/-- How a table came about. -/
inductive Form where
  /-- A header names it, or it is the document itself. -/
  | header
  /-- A header names a table below it. -/
  | implied
  /-- A dotted key leads through it. -/
  | dotted
  /-- It is written between braces. -/
  | inline
  deriving DecidableEq

/-- A value of a TOML document; what a number or a date says is left aside. -/
inductive Value where
  | text (value : String)
  | bool (value : Bool)
  | number
  | moment
  | list (items : List Value)
  | table (form : Form) (entries : List (String × Value))
  /-- The tables of one double-bracket header. -/
  | tables (items : List (List (String × Value)))

/-- The entries of a table. -/
abbrev Entries : Type := List (String × Value)

namespace Entries

/-- The entries with the value of a known key replaced. -/
def replace (key : String) (value : Value) (entries : Entries) : Entries :=
  entries.map fun (k, v) => if k == key then (k, value) else (k, v)

/-- Changes the table that a path leads to. Missing tables on the way are made in the form `fresh`;
dotted keys do not lead through tables that a header has defined. -/
def within (fresh : Form) (change : Form → Entries → Option Entries) :
    List String → Form → Entries → Option Entries
  | [], form, entries => change form entries
  | key :: path, _, entries =>
    match entries.lookup key with
    | none => (within fresh change path fresh []).map fun inner =>
        entries ++ [(key, .table fresh inner)]
    | some (.table form inner) =>
      if form == .inline || (fresh == .dotted && form == .header) then none
      else (within fresh change path form inner).map fun inner =>
        replace key (.table form inner) entries
    | some (.tables items) =>
      match items.getLast? with
      | none => none
      | some last => (within fresh change path .header last).map fun last =>
          replace key (.tables (items.dropLast ++ [last])) entries
    | some _ => none

/-- Sets a dotted key below a table. -/
def assign (path : List String) (key : String) (value : Value) (form : Form)
    (entries : Entries) : Option Entries :=
  within .dotted
    (fun form entries =>
      if (form == .dotted) == path.isEmpty || (entries.lookup key).isSome then none
      else some (entries ++ [(key, value)]))
    path form entries

/-- Defines the table of a header. -/
def define (key : String) (entries : Entries) : Option Entries :=
  match entries.lookup key with
  | none => some (entries ++ [(key, .table .header [])])
  | some (.table .implied inner) => some (replace key (.table .header inner) entries)
  | some _ => none

/-- Adds a table to those of a double-bracket header. -/
def add (key : String) (entries : Entries) : Option Entries :=
  match entries.lookup key with
  | none => some (entries ++ [(key, .tables [[]])])
  | some (.tables items) => some (replace key (.tables (items ++ [[]])) entries)
  | some _ => none

end Entries

/-- A path of keys: those that lead to a table, and the key in it. -/
structure Path where
  before : List String
  last : String

/-- All keys of a path. -/
def Path.keys (path : Path) : List String :=
  path.before ++ [path.last]

/-- A statement of a document. -/
inductive Statement where
  | header (path : Path)
  | item (path : Path)
  | assign (path : Path) (value : Value)

namespace Statement

/-- Carries statements out; `current` is the path of the last header. -/
def perform (current : List String) (entries : Entries) : List Statement → Option Entries
  | [] => some entries
  | header path :: rest =>
    match Entries.within .implied (fun _ inner => Entries.define path.last inner) path.before .header
        entries with
    | some entries => perform path.keys entries rest
    | none => none
  | item path :: rest =>
    match Entries.within .implied (fun _ inner => Entries.add path.last inner) path.before .header
        entries with
    | some entries => perform path.keys entries rest
    | none => none
  | assign path value :: rest =>
    match Entries.within .implied
        (fun form inner => Entries.assign path.before path.last value form inner) current .header
        entries with
    | some entries => perform current entries rest
    | none => none

end Statement

/-- The entries of a table written between braces. -/
def inlineEntries? (pairs : List (Path × Value)) : Option Entries :=
  Statement.perform [] [] (pairs.map fun (path, value) => .assign path value)

end RestModule.Toml
