import DocAudit.Text

/-!
# TOML values and tables

The values of a TOML document, and how its tables grow while the document is
read.  A table knows how it came about, since that decides who may add to it:
a table of a header line is closed to other headers, a table that only a longer
header implied can still get a header of its own, a table of dotted keys is
open to dotted keys alone, and an inline table is complete.
-/

namespace DocAudit

namespace Toml

/-- How a table came about. -/
inductive Origin where
  /-- By a header of its own, or as the root. -/
  | header
  /-- As the beginning of the name in a header. -/
  | implied
  /-- As the beginning of a dotted key. -/
  | dotted
  /-- As an inline table. -/
  | inlined
deriving DecidableEq, Repr

/-- A value.  Dates and times keep their text, floats are checked and forgotten. -/
inductive Value where
  | string (t : Text)
  | integer (n : Int)
  | float
  | boolean (b : Bool)
  | dateTime (t : Text)
  | array (items : List Value)
  | table (origin : Origin) (entries : List (Text × Value))
  /-- The tables of headers in double brackets. -/
  | tables (items : List (List (Text × Value)))

/-- The entries of a table. -/
abbrev Entries := List (Text × Value)

namespace Entries

/-- The value of a key. -/
def get? (key : Text) (entries : Entries) : Option Value := entries.lookup key

/-- Replaces the value of a key, or adds it at the end. -/
def alter? (key : Text) (change : Option Value → Option Value) : Entries → Option Entries
  | [] => (change none).map fun value => [(key, value)]
  | (k, v) :: entries =>
      if k = key then (change (some v)).map fun value => (k, value) :: entries
      else (alter? key change entries).map ((k, v) :: ·)

/-- Changes the table at the end of a path.  A table that is missing on the way gets the given
origin, and where a key holds tables of double brackets, the last of them is meant. -/
def descend? (origin : Origin) (change : Origin → Entries → Option Entries) :
    (path : List Text) → Origin → Entries → Option Entries
  | [], at_, entries => change at_ entries
  | key :: path, _, entries =>
      alter? key
        (fun
          | none => (descend? origin change path origin []).map (.table origin)
          | some (.table .inlined _) => none
          | some (.table found inner) =>
              if origin = .dotted ∧ found = .header then none
              else (descend? origin change path found inner).map (.table found)
          | some (.tables items) =>
              match items.getLast? with
              | none => none
              | some last =>
                  (descend? origin change path .header last).map fun last =>
                    .tables (items.dropLast ++ [last])
          | some _ => none)
        entries

/-- Adds a key that is not there yet. -/
def insert? (key : Text) (value : Value) (entries : Entries) : Option Entries :=
  alter? key (fun found => if found.isSome then none else some value) entries

/-- Adds the value of a dotted key.  The tables that it names belong to dotted keys alone. -/
def addDotted? (path : List Text) (key : Text) (value : Value) (entries : Entries) :
    Option Entries :=
  descend? .dotted
    (fun origin entries =>
      if (origin = .dotted) = (path = []) then none else insert? key value entries)
    path .header entries

/-- Opens the table of a header. -/
def openTable? (path : List Text) (key : Text) (entries : Entries) : Option Entries :=
  descend? .implied
    (fun _ =>
      alter? key fun
        | none => some (.table .header [])
        | some (.table .implied inner) => some (.table .header inner)
        | some _ => none)
    path .header entries

/-- Opens a further table of a header in double brackets. -/
def openNext? (path : List Text) (key : Text) (entries : Entries) : Option Entries :=
  descend? .implied
    (fun _ =>
      alter? key fun
        | none => some (.tables [[]])
        | some (.tables items) => some (.tables (items ++ [[]]))
        | some _ => none)
    path .header entries

end Entries

end Toml

end DocAudit
