import DocAudit.Yaml.Token.Name

/-!
# Scalars

The three ways to write a scalar: plain, between quotes, and as an indented
block.  In the first two a line break between words is folded: one break is a
blank, more breaks are one less.  In a block the breaks are kept, or folded
where neither line around them is indented further.
-/

namespace DocAudit

namespace Yaml

namespace Token

/-- The white space between two words of a scalar. -/
structure Gap where
  /-- The blanks before any line break. -/
  blanks : Text
  /-- The first line break. -/
  first : Text
  /-- The line breaks after the first. -/
  more : Text
  /-- Whether there is a line break, seen or escaped. -/
  broken : Bool

namespace Gap

/-- No white space. -/
def none : Gap := ⟨[], [], [], false⟩

/-- The gap after an escaped line break. -/
def escaped : Gap := ⟨[], [], [], true⟩

/-- The text of a gap, its line breaks folded. -/
def content (gap : Gap) : Text :=
  if gap.broken then
    if gap.first = ['\n'] then (if gap.more = [] then [' '] else gap.more)
    else gap.first ++ gap.more
  else gap.blanks

end Gap

/-- Reads white space onto a gap.  A tab that stands before column `floor` of a further line is an
error; quoted scalars have no such floor.  The third argument bounds the number of characters. -/
def readGap? (floor : Nat) (gap : Gap) : Nat → Cursor → Option (Gap × Cursor)
  | 0, c => some (gap, c)
  | n + 1, c =>
      match c.peek 0 with
      | .none => some (gap, c)
      | some x =>
          if isBlank x then
            if gap.broken then
              if x = '\t' ∧ c.column < floor then .none
              else readGap? floor gap n (c.skip 1)
            else readGap? floor { gap with blanks := gap.blanks ++ [x] } n (c.skip 1)
          else if isBreak x then
            let (brk, c) := c.lineBreak
            if gap.broken then readGap? floor { gap with more := gap.more ++ brk } n c
            else readGap? floor ⟨[], brk, [], true⟩ n c
          else some (gap, c)

/-- Whether a plain scalar ends at a character that `next` follows: at a colon that ends a word,
and in a flow collection at its indicators. -/
def endsPlain (flow : Bool) (x : Char) (next : Option Char) : Bool :=
  (x == ':' && endsWord next) || (flow && (text ",[]\x7b\x7d").contains x)

/-- Whether a colon may not stand before `next` in a flow collection. -/
def isStrayColon (flow : Bool) (x : Char) (next : Option Char) : Bool :=
  flow && x == ':' && next.any fun y => (text ",?[]\x7b\x7d").contains y

/-- Reads a word of a plain scalar.  The second argument bounds its length. -/
def readPlainWord? (flow : Bool) : Nat → Cursor → Option (Text × Cursor)
  | 0, c => some ([], c)
  | n + 1, c =>
      match c.peek 0 with
      | none => some ([], c)
      | some x =>
          if endsWord (some x) then some ([], c)
          else if isStrayColon flow x (c.peek 1) then none
          else if endsPlain flow x (c.peek 1) then some ([], c)
          else do
            let (word, c) ← readPlainWord? flow n (c.skip 1)
            some (x :: word, c)

/-- Reads the words of a plain scalar after a gap.  Gives the text, whether the scalar ended after
a line break, and the place behind.  The fourth argument bounds the number of words. -/
def readPlainWords? (flow : Bool) (floor : Nat) (gap : Gap) :
    Nat → Cursor → Option (Text × Bool × Cursor)
  | 0, c => some ([], gap.broken, c)
  | n + 1, c =>
      if c.atDocumentMarker || c.at? '#' then some ([], gap.broken, c)
      else do
        let (word, c) ← readPlainWord? flow (c.rest.length + 1) c
        let lead := if word = [] then [] else gap.content
        let gap := if word = [] then gap else Gap.none
        if !c.looksAt (fun x => isBlank x || isBreak x) then some (lead ++ word, gap.broken, c)
        else
          let (gap, c) ← readGap? floor gap (c.rest.length + 1) c
          if !flow && c.column < floor then some (lead ++ word, gap.broken, c)
          else
            let (more, broken, c) ← readPlainWords? flow floor gap n c
            some (lead ++ word ++ more, broken, c)

/-- Reads a plain scalar in a block whose content stands at column `floor` or behind it. -/
def readPlain? (flow : Bool) (floor : Nat) (c : Cursor) : Option (Text × Bool × Cursor) :=
  readPlainWords? flow floor Gap.none (c.rest.length + 1) c

/-- The character that a letter after a backslash stands for. -/
def simpleEscape? (c : Char) : Option Char :=
  match c with
  | '0' => some (Char.ofNat 0)
  | 'a' => some (Char.ofNat 7)
  | 'b' => some (Char.ofNat 8)
  | 't' => some '\t'
  | '\t' => some '\t'
  | 'n' => some '\n'
  | 'v' => some (Char.ofNat 11)
  | 'f' => some (Char.ofNat 12)
  | 'r' => some '\r'
  | 'e' => some (Char.ofNat 27)
  | ' ' => some ' '
  | '"' => some '"'
  | '/' => some '/'
  | '\\' => some '\\'
  | 'N' => some (Char.ofNat 0x85)
  | '_' => some (Char.ofNat 0xA0)
  | 'L' => some (Char.ofNat 0x2028)
  | 'P' => some (Char.ofNat 0x2029)
  | _ => none

/-- The number of digits after the letter of a numeric escape. -/
def escapeWidth? (c : Char) : Option Nat :=
  match c with
  | 'x' => some 2
  | 'u' => some 4
  | 'U' => some 8
  | _ => none

/-- Reads an escape in a scalar between double quotes. -/
def readEscape? (c : Cursor) : Option (Char × Cursor) := do
  let letter ← c.peek 1
  match escapeWidth? letter with
  | none => (simpleEscape? letter).map fun x => (x, c.skip 2)
  | some width =>
      let digits := (c.rest.drop 2).take width
      if digits.length < width then none
      let n ← Text.hexNumber? digits
      if n.isValidChar then some (Char.ofNat n, c.skip (2 + width)) else none

/-- Reads a word of a quoted scalar.  Gives the word, whether an escaped line break ended it, and
the place behind.  The second argument bounds its length. -/
def readQuotedWord? (single : Bool) : Nat → Cursor → Option (Text × Bool × Cursor)
  | 0, c => some ([], false, c)
  | n + 1, c =>
      match c.peek 0 with
      | none => some ([], false, c)
      | some x =>
          let quote := if single then '\'' else '"'
          if endsWord (some x) then some ([], false, c)
          else if single ∧ x = '\'' ∧ c.peek 1 = some '\'' then do
            let (word, escaped, c) ← readQuotedWord? single n (c.skip 2)
            some ('\'' :: word, escaped, c)
          else if x = quote then some ([], false, c)
          else if !single && x == '\\' then
            if (c.peek 1).any isBreak then some ([], true, (c.skip 1).skipBreak)
            else do
              let (y, c) ← readEscape? c
              let (word, escaped, c) ← readQuotedWord? single n c
              some (y :: word, escaped, c)
          else do
            let (word, escaped, c) ← readQuotedWord? single n (c.skip 1)
            some (x :: word, escaped, c)

/-- Reads the words of a quoted scalar, its closing quote included.  The second argument bounds
their number. -/
def readQuotedWords? (single : Bool) : Nat → Cursor → Option (Text × Cursor)
  | 0, _ => none
  | n + 1, c => do
      if c.atDocumentMarker ∨ c.rest = [] then none
      let (word, escaped, c) ← readQuotedWord? single (c.rest.length + 1) c
      if c.at? (if single then '\'' else '"') then some (word, c.skip 1)
      else
        let gap := if escaped then Gap.escaped else Gap.none
        let (gap, c) ← readGap? 0 gap (c.rest.length + 1) c
        let (more, c) ← readQuotedWords? single n c
        some (word ++ gap.content ++ more, c)

/-- Reads a quoted scalar. -/
def readQuoted? (single : Bool) (c : Cursor) : Option (Text × Cursor) :=
  readQuotedWords? single (c.rest.length + 1) (c.skip 1)

/-- What becomes of the line breaks at the end of a block. -/
inductive Chomping where
  | strip
  | clip
  | keep
deriving DecidableEq

/-- Reads a chomping indicator. -/
def readChomping (c : Cursor) : Option Chomping × Cursor :=
  if c.at? '+' then (some .keep, c.skip 1)
  else if c.at? '-' then (some .strip, c.skip 1)
  else (none, c)

/-- Reads an indentation indicator, which is not zero. -/
def readIndentation? (c : Cursor) : Option (Option Nat × Cursor) :=
  match c.peek 0 with
  | some x =>
      if x.isDigit then
        if x = '0' then none else some (some (x.toNat - '0'.toNat), c.skip 1)
      else some (none, c)
  | none => some (none, c)

/-- Reads the indicators of a block, in either order. -/
def readBlockHead? (c : Cursor) : Option (Chomping × Option Nat × Cursor) := do
  match readChomping c with
  | (some chomping, c) =>
      let (indentation, c) ← readIndentation? c
      some (chomping, indentation, c)
  | (none, c) =>
      let (indentation, c) ← readIndentation? c
      match indentation with
      | none => some (.clip, none, c)
      | some _ =>
          let (chomping, c) := readChomping c
          some (chomping.getD .clip, indentation, c)

/-- Reads empty lines and the indentation of the line after them.  Gives the line breaks, the
largest indentation seen, and the place behind.  Before the indentation is known, `indent` is
`none`.  The last but one argument bounds the number of lines. -/
def readBlockBreaks? (indent : Option Nat) (widest : Nat) :
    Nat → Cursor → Option (Text × Nat × Cursor)
  | 0, c => some ([], widest, c)
  | n + 1, c =>
      let blanks := (c.rest.takeWhile (· == ' ')).length
      let c := c.skip (match indent with
        | none => blanks
        | some k => min blanks (k - c.column))
      let widest := max widest c.column
      if c.at? '\t' && indent.all (c.column < ·) then none
      else if c.looksAt isBreak then do
        let (brk, c) := c.lineBreak
        let (more, widest, c) ← readBlockBreaks? indent widest n c
        some (brk ++ more, widest, c)
      else some ([], widest, c)

/-- Reads the lines of a block.  `brk` is the line break before the next line, `empty` the breaks
of the empty lines after it, and `indented` says whether the line before starts with a blank.
Gives the text without the last line break and the breaks at the end.  The last but one argument
bounds the number of lines. -/
def readBlockLines? (literal : Bool) (indent : Nat) (brk empty : Text) (indented : Bool) :
    Nat → Cursor → Option (Text × Text × Text × Cursor)
  | 0, c => some ([], brk, empty, c)
  | n + 1, c =>
      if c.column ≠ indent ∨ c.rest = [] then some ([], brk, empty, c)
      else do
        let startsBlank := c.looksAt isBlank
        let folded := !literal && brk == ['\n'] && !indented && !startsBlank
        let lead := if folded then (if empty = [] then [' '] else []) else brk
        let (line, c) := c.run fun x => !isBreak x
        let (brk, c) := c.lineBreak
        let (breaks, _, c) ← readBlockBreaks? (some indent) 0 (c.rest.length + 1) c
        let (more, brk, breaks, c) ← readBlockLines? literal indent brk breaks startsBlank n c
        some (lead ++ empty ++ line ++ more, brk, breaks, c)

/-- Reads a block scalar in a block whose content stands at column `floor` or behind it. -/
def readBlock? (literal : Bool) (floor : Nat) (c : Cursor) : Option (Text × Cursor) := do
  let (chomping, indentation, c) ← readBlockHead? (c.skip 1)
  let c ← finishLine? c
  let known := indentation.map (floor - 1 + ·)
  let (empty, widest, c) ← readBlockBreaks? known 0 (c.rest.length + 1) c
  let indent := known.getD (max (max widest floor) 1)
  let (body, brk, breaks, c) ←
    readBlockLines? literal indent [] empty false (c.rest.length + 1) c
  some (body ++ (if chomping = .strip then [] else brk)
    ++ (if chomping = .keep then breaks else []), c)

end Token

end Yaml

end DocAudit
