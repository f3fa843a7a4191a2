import DocAudit.Text

/-!
# TOML strings

The four forms of a string: between double quotes with escapes, between
apostrophes without them, and both over several lines between three of their
delimiters.  `quote` chooses the form in which a text is easy to read, and
`read?` takes a string in any form off the start of a text.
-/

namespace DocAudit

namespace Toml

namespace Quoted

/-- A blank or a tab. -/
def isBlank (c : Char) : Bool := c == ' ' || c == '\t'

/-- Whether a character can stand for itself: a tab, or no control character. -/
def isPlain (c : Char) : Bool := c == '\t' || (0x20 ≤ c.toNat && c.toNat ≠ 0x7F)

/-! ## Reading -/

/-- The character that a letter after a backslash stands for. -/
def simpleEscape? (c : Char) : Option Char :=
  if c = 'b' then some (Char.ofNat 8)
  else if c = 't' then some '\t'
  else if c = 'n' then some '\n'
  else if c = 'f' then some (Char.ofNat 12)
  else if c = 'r' then some '\r'
  else if c = 'e' then some (Char.ofNat 27)
  else if c = '"' then some '"'
  else if c = '\\' then some '\\'
  else none

/-- The character whose number the digits give. -/
def ofHex? (digits : Text) : Option Char :=
  (Text.hexNumber? digits).bind fun n => if n.isValidChar then some (Char.ofNat n) else none

/-- Reads a string between double quotes, behind the opening quote. -/
def readBasic? : Text → Option (Text × Text)
  | [] => none
  | c :: t =>
      if c = '"' then some ([], t)
      else if c = '\\' then
        match t with
        | [] => none
        | e :: t =>
            match simpleEscape? e with
            | some x => (readBasic? t).map fun (s, rest) => (x :: s, rest)
            | none =>
                if e = 'x' then
                  match t with
                  | a :: b :: t => do
                      let x ← ofHex? [a, b]
                      (readBasic? t).map fun (s, rest) => (x :: s, rest)
                  | _ => none
                else if e = 'u' then
                  match t with
                  | a :: b :: c :: d :: t => do
                      let x ← ofHex? [a, b, c, d]
                      (readBasic? t).map fun (s, rest) => (x :: s, rest)
                  | _ => none
                else if e = 'U' then
                  match t with
                  | a :: b :: c :: d :: f :: g :: h :: i :: t => do
                      let x ← ofHex? [a, b, c, d, f, g, h, i]
                      (readBasic? t).map fun (s, rest) => (x :: s, rest)
                  | _ => none
                else none
      else if isPlain c then (readBasic? t).map fun (s, rest) => (c :: s, rest)
      else none

/-- Reads a string between apostrophes, behind the opening apostrophe. -/
def readLiteral? : Text → Option (Text × Text)
  | [] => none
  | c :: t =>
      if c = '\'' then some ([], t)
      else if isPlain c then (readLiteral? t).map fun (s, rest) => (c :: s, rest)
      else none

/-- Passes the rest of a closing delimiter, of which three quotes are read: up to two more quotes
belong to the string. -/
def finish (quote : Char) (t : Text) : Text × Text :=
  match t with
  | a :: b :: rest =>
      if a = quote then
        if b = quote then ([quote, quote], rest) else ([quote], b :: rest)
      else ([], a :: b :: rest)
  | [a] => if a = quote then ([quote], []) else ([], [a])
  | [] => ([], [])

/-- Whether a text starts with three quotes. -/
def closes (quote : Char) (t : Text) : Bool := Text.startsWith [quote, quote, quote] t

/-- Reads a string of several lines between apostrophes, behind the opening. -/
def readLines? : Text → Option (Text × Text)
  | [] => none
  | c :: t =>
      if closes '\'' (c :: t) then some (finish '\'' (t.drop 2))
      else if c = '\n' ∨ isPlain c ∨ (c = '\r' ∧ t.head? = some '\n') then
        (readLines? t).map fun (s, rest) => (c :: s, rest)
      else none

/-- What a backslash at the end of a line has done so far. -/
inductive Trimming where
  /-- There is none. -/
  | off
  /-- Its line has to end. -/
  | sought
  /-- White space is left out. -/
  | on
deriving DecidableEq

/-- Reads a string of several lines between double quotes, behind the opening. -/
def readFolded? (trimming : Trimming) : Text → Option (Text × Text)
  | [] => none
  | c :: t =>
      if trimming ≠ .off ∧ isBlank c then readFolded? trimming t
      else if trimming ≠ .off ∧ c = '\n' then readFolded? .on t
      else if trimming ≠ .off ∧ c = '\r' ∧ t.head? = some '\n' then readFolded? trimming t
      else if trimming = .sought then none
      else if closes '"' (c :: t) then some (finish '"' (t.drop 2))
      else if c = '\\' then
        match t with
        | [] => none
        | e :: t' =>
            if isBlank e ∨ e = '\n' ∨ e = '\r' then readFolded? .sought (e :: t')
            else
              match simpleEscape? e with
              | some x => (readFolded? .off t').map fun (s, rest) => (x :: s, rest)
              | none =>
                  if e = 'x' then
                    match t' with
                    | a :: b :: t => do
                        let x ← ofHex? [a, b]
                        (readFolded? .off t).map fun (s, rest) => (x :: s, rest)
                    | _ => none
                  else if e = 'u' then
                    match t' with
                    | a :: b :: c :: d :: t => do
                        let x ← ofHex? [a, b, c, d]
                        (readFolded? .off t).map fun (s, rest) => (x :: s, rest)
                    | _ => none
                  else if e = 'U' then
                    match t' with
                    | a :: b :: c :: d :: f :: g :: h :: i :: t => do
                        let x ← ofHex? [a, b, c, d, f, g, h, i]
                        (readFolded? .off t).map fun (s, rest) => (x :: s, rest)
                    | _ => none
                  else none
      else if c = '\n' ∨ isPlain c ∨ (c = '\r' ∧ t.head? = some '\n') then
        (readFolded? .off t).map fun (s, rest) => (c :: s, rest)
      else none

/-- The text without the line break that it starts with. -/
def afterBreak (t : Text) : Text :=
  match t with
  | '\n' :: rest => rest
  | '\r' :: '\n' :: rest => rest
  | _ => t

/-- Reads a string that takes one line. -/
def readLine? (t : Text) : Option (Text × Text) :=
  match t with
  | '"' :: t => readBasic? t
  | '\'' :: t => readLiteral? t
  | _ => none

/-- Reads a string of any form. -/
def read? (t : Text) : Option (Text × Text) :=
  if closes '"' t then readFolded? .off (afterBreak (t.drop 3))
  else if closes '\'' t then readLines? (afterBreak (t.drop 3))
  else readLine? t

/-! ## Writing -/

/-- The length of the longest run of a character, after a run of `current` of them. -/
def longestRun (x : Char) (current : Nat) : Text → Nat
  | [] => current
  | c :: t => if c = x then longestRun x (current + 1) t else max current (longestRun x 0 t)

/-- Whether a character can only be written by an escape. -/
def needsEscape (c : Char) : Bool := c != '\n' && !isPlain c

/-- The hexadecimal digits. -/
def hexDigit (n : Nat) : Char := "0123456789ABCDEF".toList.getD n '0'

/-- The escape of a character that needs one.  A tab gets one, too. -/
def escape (c : Char) : Text :=
  if c.toNat = 8 then text "\\b"
  else if c = '\t' then text "\\t"
  else if c = '\n' then text "\\n"
  else if c.toNat = 12 then text "\\f"
  else if c = '\r' then text "\\r"
  else if c = '"' then text "\\\""
  else if c = '\\' then text "\\\\"
  else if isPlain c then [c]
  else text "\\u00" ++ [hexDigit (c.toNat / 16), hexDigit (c.toNat % 16)]

/-- The text between double quotes. -/
def writeBasic (t : Text) : Text := '"' :: (t.flatMap escape ++ ['"'])

/-- The text with its line feeds kept, and of its double quotes two in a row, of which `run` stand
before. -/
def escapeLines (run : Nat) : Text → Text
  | [] => []
  | c :: t =>
      if c = '\n' then c :: escapeLines 0 t
      else if c = '"' ∧ run < 2 then c :: escapeLines (run + 1) t
      else escape c ++ escapeLines 0 t

/-- The text between the delimiters of several lines.  Its own first line starts on a new one. -/
def writeLines (quote : Char) (t content : Text) : Text :=
  [quote, quote, quote] ++ (if t.contains '\n' then ['\n'] else []) ++ content
    ++ [quote, quote, quote]

/-- The text as a string.  Of the forms that need no escape the first one is chosen in which the
text can stand: double quotes, apostrophes, three double quotes, three apostrophes.  Otherwise the
text is escaped. -/
def write (t : Text) : Text :=
  let escapes := t.any needsEscape
  let backslash := t.contains '\\'
  let singles := longestRun '\'' 0 t
  let doubles := longestRun '"' 0 t
  let broken := t.contains '\n'
  if !escapes && !backslash && doubles == 0 && !broken then writeBasic t
  else if !escapes && singles == 0 && !broken then '\'' :: (t ++ ['\''])
  else if !escapes && !backslash && decide (doubles ≤ 2) then writeLines '"' t (escapeLines 0 t)
  else if !escapes && decide (singles ≤ 2) then writeLines '\'' t t
  else if broken then writeLines '"' t (escapeLines 0 t)
  else writeBasic t

end Quoted

end Toml

end DocAudit
