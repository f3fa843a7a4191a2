import DocAudit.Lowercase.Table

/-!
# Lower-casing

The full lower-case form of a text.  Every character is replaced by its
lower-case form, which is one character except for the capital I with a dot
above.  The capital sigma is replaced by a final sigma at the end of a word,
that is, when a cased character stands before it and none behind it, and by a
small sigma elsewhere.
-/

namespace DocAudit

namespace Lowercase

/-- The capital sigma. -/
def sigma : Char := 'Σ'

/-- Whether a character lies in one of the ranges. -/
def inRanges (ranges : List (Nat × Nat)) (c : Char) : Bool :=
  ranges.any fun (first, last) => first ≤ c.toNat && c.toNat ≤ last

/-- Whether a character is cased. -/
def isCased (c : Char) : Bool := inRanges casedRanges c

/-- Whether the rule for the final sigma looks past a character. -/
def isIgnorable (c : Char) : Bool := inRanges ignorableRanges c

/-- Whether a character belongs to a row of capitals. -/
def Capitals.has (row : Capitals) (c : Char) : Bool :=
  row.first ≤ c.toNat && c.toNat ≤ row.last && (c.toNat - row.first) % row.stride == 0

/-- The lower-case form of a character by itself. -/
def ofChar (c : Char) : Text :=
  if c = 'İ' then ['i', Char.ofNat 0x307]
  else
    match capitals.find? (·.has c) with
    | some row => [Char.ofNat (c.toNat + row.shift).toNat]
    | none => [c]

/-- Whether the first character that is looked at is cased. -/
def meetsCased (t : Text) : Bool := (t.dropWhile isIgnorable).head?.any isCased

/-- The lower-case form of the rest of a text, the characters before it in reverse order. -/
def after (before : Text) : Text → Text
  | [] => []
  | c :: t =>
      (if c = sigma then [if meetsCased before && !meetsCased t then 'ς' else 'σ'] else ofChar c)
        ++ after (c :: before) t

/-- The lower-case form of a text. -/
def ofText (t : Text) : Text := after [] t

end Lowercase

end DocAudit
