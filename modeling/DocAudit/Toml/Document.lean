import DocAudit.Toml.Quoted
import DocAudit.Toml.Scalar

/-!
# TOML documents

A document is a list of lines: keys with their values, headers that open
tables, and empty lines.  Arrays and inline tables can go over several lines
and end with a comma, and they are nested at most eighty deep.  A document
that gives a key twice, or opens a table twice, is malformed.
-/

namespace DocAudit

namespace Toml

/-- Whether a character can stand in a comment. -/
def isCommentChar (c : Char) : Bool := Quoted.isPlain c

/-- The text behind blanks. -/
def skipBlanks (t : Text) : Text := t.dropWhile Quoted.isBlank

/-- The text behind a comment, if it starts with one. -/
def skipComment (t : Text) : Text :=
  match t with
  | '#' :: rest => rest.dropWhile isCommentChar
  | _ => t

/-- The text behind blanks, comments and line breaks.  The first argument bounds their number. -/
def skipTrivia : Nat → Text → Text
  | 0, t => t
  | n + 1, t =>
      match skipComment (skipBlanks t) with
      | '\n' :: rest => skipTrivia n rest
      | '\r' :: '\n' :: rest => skipTrivia n rest
      | rest => rest

/-- The text behind all blanks, comments and line breaks that it starts with. -/
def skipGap (t : Text) : Text := skipTrivia (t.length + 1) t

/-- The text behind the end of a line: blanks, a comment, and a line break or the end. -/
def finishLine? (t : Text) : Option Text :=
  match skipComment (skipBlanks t) with
  | [] => some []
  | '\n' :: rest => some rest
  | '\r' :: '\n' :: rest => some rest
  | _ => none

/-- The characters of keys without quotes. -/
def isKeyChar (c : Char) : Bool := c.isAlphanum || c == '_' || c == '-'

/-- Reads a simple key. -/
def readSimpleKey? (t : Text) : Option (Text × Text) :=
  match t with
  | '"' :: _ => Quoted.readLine? t
  | '\'' :: _ => Quoted.readLine? t
  | _ =>
      let key := t.takeWhile isKeyChar
      if key = [] then none else some (key, t.dropWhile isKeyChar)

/-- Reads a key with its dots.  Gives the tables that it names, its last part, and the text behind
the blanks that follow.  The first argument bounds the number of parts. -/
def readParts? : Nat → Text → Option (List Text × Text × Text)
  | 0, _ => none
  | n + 1, t => do
      let (key, t) ← readSimpleKey? (skipBlanks t)
      match skipBlanks t with
      | '.' :: rest => do
          let (path, last, rest) ← readParts? n rest
          some (key :: path, last, rest)
      | rest => some ([], key, rest)

/-- Reads a key with its dots. -/
def readKey? (t : Text) : Option (List Text × Text × Text) := readParts? (t.length + 1) t

/-- How deep arrays and inline tables can be nested. -/
def maxDepth : Nat := 80

mutual

/-- Reads a value in which collections can be nested to a depth.  The first argument of these
functions bounds the number of steps. -/
def readValue? : (steps depth : Nat) → Text → Option (Value × Text)
  | 0, _, _ => none
  | n + 1, depth, t =>
      match t with
      | '[' :: rest =>
          match depth with
          | 0 => none
          | depth + 1 => (readItems? n depth rest).map fun (items, rest) => (.array items, rest)
      | '{' :: rest =>
          match depth with
          | 0 => none
          | depth + 1 =>
              (readPairs? n depth [] rest).map fun (entries, rest) =>
                (.table .inlined entries, rest)
      | '"' :: _ => (Quoted.read? t).map fun (s, rest) => (.string s, rest)
      | '\'' :: _ => (Quoted.read? t).map fun (s, rest) => (.string s, rest)
      | _ => Scalar.read? t

/-- Reads the items of an array, its closing bracket included. -/
def readItems? : (steps depth : Nat) → Text → Option (List Value × Text)
  | 0, _, _ => none
  | n + 1, depth, t =>
      match skipGap t with
      | ']' :: rest => some ([], rest)
      | t => do
          let (item, t) ← readValue? n depth t
          match skipGap t with
          | ',' :: rest => do
              let (items, rest) ← readItems? n depth rest
              some (item :: items, rest)
          | ']' :: rest => some ([item], rest)
          | _ => none

/-- Reads the entries of an inline table onto those before, its closing brace included. -/
def readPairs? : (steps depth : Nat) → Entries → Text → Option (Entries × Text)
  | 0, _, _, _ => none
  | n + 1, depth, entries, t =>
      match skipGap t with
      | '}' :: rest => some (entries, rest)
      | t => do
          let (path, key, t) ← readKey? t
          let t ← Text.after? ['='] t
          let (value, t) ← readValue? n depth (skipBlanks t)
          let entries ← entries.addDotted? path key value
          match skipGap t with
          | ',' :: rest => readPairs? n depth entries rest
          | '}' :: rest => some (entries, rest)
          | _ => none

end

/-- Reads a value. -/
def Value.read? (t : Text) : Option (Value × Text) :=
  readValue? (2 * t.length + 2) maxDepth t

/-- The document so far: its root table, and the table that keys are added to. -/
structure Draft where
  root : Entries
  /-- The name of the open table. -/
  current : List Text

namespace Draft

/-- Adds a key to the open table. -/
def add? (path : List Text) (key : Text) (value : Value) (draft : Draft) : Option Draft :=
  (Entries.descend? .implied (fun _ entries => entries.addDotted? path key value) draft.current
    .header draft.root).map fun root => { draft with root := root }

/-- Opens the table of a header. -/
def openTable? (path : List Text) (key : Text) (draft : Draft) : Option Draft :=
  (draft.root.openTable? path key).map fun root => ⟨root, path ++ [key]⟩

/-- Opens a further table of a header in double brackets. -/
def openNext? (path : List Text) (key : Text) (draft : Draft) : Option Draft :=
  (draft.root.openNext? path key).map fun root => ⟨root, path ++ [key]⟩

/-- Reads a line that is not empty, up to the end of what it says. -/
def readLine? (draft : Draft) (t : Text) : Option (Draft × Text) :=
  match t with
  | '[' :: '[' :: rest => do
      let (path, key, rest) ← readKey? rest
      let rest ← Text.after? (text "]]") rest
      let draft ← draft.openNext? path key
      some (draft, rest)
  | '[' :: rest => do
      let (path, key, rest) ← readKey? rest
      let rest ← Text.after? [']'] rest
      let draft ← draft.openTable? path key
      some (draft, rest)
  | _ => do
      let (path, key, rest) ← readKey? t
      let rest ← Text.after? ['='] rest
      let (value, rest) ← Value.read? (skipBlanks rest)
      let draft ← draft.add? path key value
      some (draft, rest)

/-- Reads the lines up to the end.  The first argument bounds their number. -/
def readLines? : Nat → Draft → Text → Option Draft
  | 0, _, _ => none
  | n + 1, draft, t =>
      match skipGap t with
      | [] => some draft
      | t => do
          let (draft, t) ← draft.readLine? t
          let t ← finishLine? t
          readLines? n draft t

end Draft

/-- The root table of a document.  A byte order mark at the start does not count. -/
def read? (t : Text) : Option Entries :=
  let t := (Text.after? [Char.ofNat 0xFEFF] t).getD t
  (Draft.readLines? (t.length + 1) ⟨[], []⟩ t).map (·.root)

end Toml

end DocAudit
