import DocAudit.Text

/-!
# Places in a YAML stream

A cursor is the rest of a stream together with the place where the rest
starts: how many characters, how many lines, and how many characters of the
line stand before it.  The character classes of YAML are here too.

A line break is a carriage return, a line feed, both in this order, or one of
the three Unicode line separators.  The first four stand for a line feed in
the text of a scalar, the last two for themselves.
-/

namespace DocAudit

namespace Yaml

/-- Whether a character can stand in a stream at all. -/
def isPrintable (c : Char) : Bool :=
  let n := c.toNat
  n == 0x09 || n == 0x0A || n == 0x0D || (0x20 ≤ n && n ≤ 0x7E) || n == 0x85
    || (0xA0 ≤ n && n ≤ 0xD7FF) || (0xE000 ≤ n && n ≤ 0xFFFD) || 0x10000 ≤ n

/-- The byte order mark. -/
def byteOrderMark : Char := Char.ofNat 0xFEFF

/-- A blank or a tab. -/
def isBlank (c : Char) : Bool := c == ' ' || c == '\t'

/-- A line break that stands for a line feed. -/
def isPlainBreak (c : Char) : Bool := c == '\n' || c == '\r' || c.toNat == 0x85

/-- A line break of any kind. -/
def isBreak (c : Char) : Bool := isPlainBreak c || c.toNat == 0x2028 || c.toNat == 0x2029

/-- The characters of names. -/
def isWord (c : Char) : Bool := c.isAlphanum || c == '_' || c == '-'

/-- Whether a word ends here: at a blank, at a line break, or at the end of the stream. -/
def endsWord : Option Char → Bool
  | none => true
  | some c => isBlank c || isBreak c

/-- A place in a stream. -/
structure Cursor where
  /-- The stream from here on. -/
  rest : Text
  /-- The number of characters before. -/
  index : Nat
  /-- The number of lines before. -/
  line : Nat
  /-- The number of characters of this line before. -/
  column : Nat

namespace Cursor

/-- The start of a stream. -/
def start (stream : Text) : Cursor := ⟨stream, 0, 0, 0⟩

/-- The character that stands `n` places on. -/
def peek (c : Cursor) (n : Nat) : Option Char := c.rest[n]?

/-- Whether the next character is `x`. -/
def at? (c : Cursor) (x : Char) : Bool := c.peek 0 == some x

/-- Whether the next character is of a class. -/
def looksAt (p : Char → Bool) (c : Cursor) : Bool := (c.peek 0).any p

/-- The place `n` characters on, on the same line. -/
def skip (n : Nat) (c : Cursor) : Cursor :=
  ⟨c.rest.drop n, c.index + n, c.line, c.column + n⟩

/-- The longest run of characters of a class, and the place behind it. -/
def run (p : Char → Bool) (c : Cursor) : Text × Cursor :=
  let taken := c.rest.takeWhile p
  (taken, c.skip taken.length)

/-- The place behind the longest run of characters of a class. -/
def skipWhile (p : Char → Bool) (c : Cursor) : Cursor := (c.run p).2

/-- The text that the line break here stands for, and the place behind it.  Where there is no line
break, nothing. -/
def lineBreak (c : Cursor) : Text × Cursor :=
  match c.rest with
  | [] => ([], c)
  | x :: rest =>
      match x, rest with
      | '\r', '\n' :: rest' => (['\n'], ⟨rest', c.index + 2, c.line + 1, 0⟩)
      | _, _ =>
          if isPlainBreak x then (['\n'], ⟨rest, c.index + 1, c.line + 1, 0⟩)
          else if isBreak x then ([x], ⟨rest, c.index + 1, c.line + 1, 0⟩)
          else ([], c)

/-- The place behind a line break. -/
def skipBreak (c : Cursor) : Cursor := c.lineBreak.2

/-- The place behind a comment, if one starts here: the end of the line. -/
def skipComment (c : Cursor) : Cursor :=
  if c.at? '#' then c.skipWhile fun x => !isBreak x else c

/-- Whether a line starts here with a document marker: three equal signs of the kind, then the end
of a word. -/
def startsLineWith (marker : Text) (c : Cursor) : Bool :=
  c.column == 0 && Text.startsWith marker c.rest && endsWord (c.peek marker.length)

/-- Whether a line starts here with the marker of a document's start or end. -/
def atDocumentMarker (c : Cursor) : Bool :=
  c.startsLineWith (text "---") || c.startsLineWith (text "...")

end Cursor

end Yaml

end DocAudit
