import DocAudit.Text

/-!
# JSON

The JSON values that a report is made of, and their pretty form: two blanks of
indentation for each level, one member on each line, and an empty array or
object as a pair of brackets.  A string is written with short escapes where
JSON has one, other control characters by their code, and all else as it is.
-/

namespace DocAudit

/-- The JSON values of a report.  Members of an object keep their order. -/
inductive Json where
  | nat (n : Nat)
  | str (s : Text)
  | arr (items : List Json)
  | obj (members : List (Text × Json))

namespace Json

/-- The hexadecimal digits. -/
def hexDigit (n : Nat) : Char := "0123456789abcdef".toList.getD n '0'

/-- The written form of a character within a string. -/
def escape (c : Char) : Text :=
  if c = '"' then text "\\\""
  else if c = '\\' then text "\\\\"
  else if c = '\n' then text "\\n"
  else if c = '\r' then text "\\r"
  else if c = '\t' then text "\\t"
  else if c.toNat = 8 then text "\\b"
  else if c.toNat = 12 then text "\\f"
  else if c.toNat < 32 then text "\\u00" ++ [hexDigit (c.toNat / 16), hexDigit (c.toNat % 16)]
  else [c]

/-- The written form of a string. -/
def quote (s : Text) : Text := ['"'] ++ s.flatMap escape ++ ['"']

/-- A line break followed by the indentation of a level. -/
def newLine (level : Nat) : Text := '\n' :: List.replicate (2 * level) ' '

mutual

/-- The pretty form of a value that stands at a level. -/
def pretty (level : Nat) : Json → Text
  | nat n => Text.ofNat n
  | str s => quote s
  | arr [] => text "[]"
  | arr (item :: items) =>
      ['['] ++ newLine (level + 1) ++ pretty (level + 1) item ++ prettyItems (level + 1) items
        ++ newLine level ++ [']']
  | obj [] => ['{', '}']
  | obj ((key, value) :: members) =>
      ['{'] ++ newLine (level + 1) ++ quote key ++ text ": " ++ pretty (level + 1) value
        ++ prettyMembers (level + 1) members ++ newLine level ++ ['}']

/-- The items of an array after the first. -/
def prettyItems (level : Nat) : List Json → Text
  | [] => []
  | item :: items => [','] ++ newLine level ++ pretty level item ++ prettyItems level items

/-- The members of an object after the first. -/
def prettyMembers (level : Nat) : List (Text × Json) → Text
  | [] => []
  | (key, value) :: members =>
      [','] ++ newLine level ++ quote key ++ text ": " ++ pretty level value
        ++ prettyMembers level members

end

end Json

end DocAudit
