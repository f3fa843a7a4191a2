import DocAudit.Yaml.Value

/-!
# Front matter

A document can open with a block of attributes: a line of three dashes, YAML,
and a line of three dashes or three dots.  White space at the end of either
line does not count, and neither does a byte order mark at the very start.
What follows the block is the body; a document without a block is all body.

The attributes are the entries of a mapping whose keys are strings, in the
order of their keys.  A block that is blank or null has none of them, and a
block with any other content has no attributes at all.
-/

namespace DocAudit

/-- The attributes of a block, in the order of their keys. -/
abbrev Attributes := List (Text × Yaml.Value)

namespace Attributes

/-- The entry of a mapping, if its key is a string. -/
def ofEntry? : Yaml.Value × Yaml.Value → Option (Text × Yaml.Value)
  | (.str key, value) => some (key, value)
  | _ => none

/-- The attributes among the entries of a mapping. -/
def ofEntries (entries : List (Yaml.Value × Yaml.Value)) : Attributes :=
  (entries.filterMap ofEntry?).mergeSort fun a b => Text.le a.1 b.1

/-- The attributes that a block holds. -/
def ofBlock? (raw : Text) : Option Attributes :=
  if raw.all Text.isSpace then some []
  else
    match Yaml.Value.ofStream? raw with
    | some (.map entries) => some (ofEntries entries)
    | some .null => some []
    | _ => none

/-- Whether there is an attribute of a name. -/
def has (name : Text) (attributes : Attributes) : Bool := attributes.any fun a => a.1 == name

end Attributes

namespace FrontMatter

/-- Whether a line opens a block. -/
def opens (line : Text) : Bool := Text.trimEnd line == text "---"

/-- Whether a line closes a block. -/
def closes (line : Text) : Bool :=
  Text.trimEnd line == text "---" || Text.trimEnd line == text "..."

/-- The content of a block and what follows the line that closes it. -/
def untilClosed? : List Text → Option (Text × Text)
  | [] => none
  | line :: rest =>
      if closes line then some ([], rest.flatten)
      else (untilClosed? rest).map fun (raw, body) => (line ++ raw, body)

/-- The content of the block that a document opens with, and the body. -/
def delimit? (content : Text) : Option (Text × Text) :=
  match Text.lines content with
  | [] => none
  | line :: rest => if opens line then untilClosed? rest else none

/-- A document without the byte order mark at its start. -/
def withoutMark (content : Text) : Text :=
  (Text.after? [Yaml.byteOrderMark] content).getD content

end FrontMatter

/-- A document cut into its attributes, if it has a well-formed block, and its body. -/
structure FrontMatter where
  attributes : Option Attributes
  body : Text

namespace FrontMatter

/-- Cuts a document. -/
def split (content : Text) : FrontMatter :=
  let content := withoutMark content
  match delimit? content with
  | none => ⟨none, content⟩
  | some (raw, body) => ⟨Attributes.ofBlock? raw, body⟩

end FrontMatter

end DocAudit
