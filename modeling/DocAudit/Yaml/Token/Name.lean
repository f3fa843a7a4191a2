import DocAudit.Yaml.Cursor
import DocAudit.Yaml.Token

/-!
# Anchors, tags and directives

The tokens of a YAML stream that carry a name: anchors and aliases, tags, and
the two directives.  A tag is made of the characters of a URI, and a percent
sign in it starts escaped octets.
-/

namespace DocAudit

namespace Yaml

namespace Token

/-- Whether a name can end before this: at the end of a word or at an indicator. -/
def endsName : Option Char → Bool
  | none => true
  | some c => endsWord (some c) || (text "?:,]\x7d%@" ++ ['\x60']).contains c

/-- Reads the name of an anchor or of an alias, behind its indicator. -/
def readName? (c : Cursor) : Option (Text × Cursor) :=
  let name := (c.skip 1).run isWord
  if name.1 = [] ∨ !endsName (name.2.peek 0) then none else some name

/-- The characters that stand for themselves in a tag. -/
def isTagChar (verbatim : Bool) (c : Char) : Bool :=
  isWord c || (text ";/?:@&=+$.!~*'()").contains c || (verbatim && (text ",[]").contains c)

/-- The number of octets of a character, by its lead octet. -/
def octetCount? (lead : Nat) : Option Nat :=
  if lead < 0x80 then some 1
  else if lead < 0xC0 then none
  else if lead < 0xE0 then some 2
  else if lead < 0xF0 then some 3
  else if lead < 0xF8 then some 4
  else none

/-- Reads an escaped octet. -/
def readEscapedOctet? (c : Cursor) : Option (Nat × Cursor) := do
  if !c.at? '%' then none
  let high ← (c.peek 1).bind Text.hexValue?
  let low ← (c.peek 2).bind Text.hexValue?
  some (high * 16 + low, c.skip 3)

/-- Reads a number of escaped octets that continue a character. -/
def readEscapedTail? : Nat → Cursor → Option (Octets × Cursor)
  | 0, c => some ([], c)
  | n + 1, c => do
      let (octet, c) ← readEscapedOctet? c
      if octet < 0x80 ∨ 0xC0 ≤ octet then none
      let (octets, c) ← readEscapedTail? n c
      some (UInt8.ofNat octet :: octets, c)

/-- Reads the escaped octets of one character. -/
def readEscaped? (c : Cursor) : Option (Octets × Cursor) := do
  let (lead, c) ← readEscapedOctet? c
  let count ← octetCount? lead
  let (octets, c) ← readEscapedTail? (count - 1) c
  some (UInt8.ofNat lead :: octets, c)

/-- Reads the characters of a tag.  The first argument bounds their number. -/
def readTagChars? (verbatim : Bool) : Nat → Cursor → Option (Octets × Cursor)
  | 0, c => some ([], c)
  | n + 1, c =>
      if c.at? '%' then do
        let (octets, c) ← readEscaped? c
        let (more, c) ← readTagChars? verbatim n c
        some (octets ++ more, c)
      else
        match c.peek 0 with
        | none => some ([], c)
        | some x =>
            if isTagChar verbatim x then do
              let (more, c) ← readTagChars? verbatim n (c.skip 1)
              some (UInt8.ofNat x.toNat :: more, c)
            else some ([], c)

/-- Reads the rest of a tag behind `head`, of which the exclamation mark is left out.  A tag whose
head is empty has at least one character.  A tag ends before a zero octet. -/
def readTagRest? (verbatim : Bool) (head : Text) (c : Cursor) : Option (Octets × Cursor) := do
  let (octets, c') ← readTagChars? verbatim (c.rest.length + 1) c
  if head = [] ∧ c'.index = c.index then none
  some ((octetsOf (head.drop 1) ++ octets).takeWhile (· != 0), c')

/-- Reads a tag handle: an exclamation mark, a name, and perhaps another exclamation mark. -/
def readHandle? (c : Cursor) : Option (Text × Cursor) :=
  if c.at? '!' then
    let name := (c.skip 1).run isWord
    if name.2.at? '!' then some ('!' :: name.1 ++ ['!'], name.2.skip 1)
    else some ('!' :: name.1, name.2)
  else none

/-- Whether a handle has its second exclamation mark. -/
def isClosedHandle (handle : Text) : Bool := 2 ≤ handle.length && handle.getLast? == some '!'

/-- Reads the handle and the suffix of a tag. -/
def readTagParts? (c : Cursor) : Option ((Text × Octets) × Cursor) :=
  if c.peek 1 == some '<' then do
    let (suffix, c) ← readTagRest? true [] (c.skip 2)
    if c.at? '>' then some (([], suffix), c.skip 1) else none
  else do
    let (handle, c) ← readHandle? c
    if isClosedHandle handle then
      let (suffix, c) ← readTagRest? false [] c
      some ((handle, suffix), c)
    else
      let (suffix, c) ← readTagRest? false handle c
      if suffix = [] then some (([], octetsOf ['!']), c) else some ((['!'], suffix), c)

/-- Reads a tag.  In a flow collection a comma can follow it at once. -/
def readTag? (flow : Bool) (c : Cursor) : Option (Token × Cursor) := do
  let ((handle, suffix), c) ← readTagParts? c
  if (flow && c.at? ',') || endsWord (c.peek 0) then some (.tag handle suffix, c) else none

/-- Reads a number of a version. -/
def readVersionNumber? (c : Cursor) : Option (Nat × Cursor) :=
  let digits := c.run Char.isDigit
  if digits.1 = [] ∨ 9 < digits.1.length then none
  else some (Text.decimalNumber digits.1, digits.2)

/-- Reads the value of a version directive. -/
def readVersion? (c : Cursor) : Option (Token × Cursor) := do
  let (major, c) ← readVersionNumber? (c.skipWhile isBlank)
  if !c.at? '.' then none
  let (minor, c) ← readVersionNumber? (c.skip 1)
  some (.version major minor, c)

/-- Reads the value of a tag directive. -/
def readTagHandle? (c : Cursor) : Option (Token × Cursor) := do
  let (handle, c) ← readHandle? (c.skipWhile isBlank)
  if !isClosedHandle handle ∧ handle ≠ ['!'] then none
  if !c.looksAt isBlank then none
  let (lead, c) ← readTagRest? true [] (c.skipWhile isBlank)
  if endsWord (c.peek 0) then some (.tagHandle handle lead, c) else none

/-- Passes the blanks and the comment at the end of a line, and the line break. -/
def finishLine? (c : Cursor) : Option Cursor :=
  let c := (c.skipWhile isBlank).skipComment
  match c.peek 0 with
  | none => some c
  | some x => if isBreak x then some c.skipBreak else none

/-- Reads a directive, with its line break. -/
def readDirective? (c : Cursor) : Option (Token × Cursor) := do
  let (name, c) := (c.skip 1).run isWord
  if name = [] ∨ !endsWord (c.peek 0) then none
  let (token, c) ←
    if name = text "YAML" then readVersion? c
    else if name = text "TAG" then readTagHandle? c
    else none
  let c ← finishLine? c
  some (token, c)

end Token

end Yaml

end DocAudit
