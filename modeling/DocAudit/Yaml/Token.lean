import DocAudit.Utf8

/-!
# YAML tokens

The tokens that a YAML stream is cut into.  Indentation is made explicit: a
block collection has a start token and an end token of its own, and the key of
a mapping has a token before it even where the stream only shows the colon
behind it.
-/

namespace DocAudit

namespace Yaml

/-- The octets of a text whose characters are all ASCII. -/
def octetsOf (t : Text) : Octets := t.map fun c => UInt8.ofNat c.toNat

/-- A token of a stream. -/
inductive Token where
  /-- The version that a document asks for. -/
  | version (major minor : Nat)
  /-- A tag handle and what it stands for. -/
  | tagHandle (handle : Text) (lead : Octets)
  | documentStart
  | documentEnd
  | blockSequenceStart
  | blockMappingStart
  | blockEnd
  | flowSequenceStart
  | flowSequenceEnd
  | flowMappingStart
  | flowMappingEnd
  | blockEntry
  | flowEntry
  | key
  | value
  | reference (name : Text)
  | anchor (name : Text)
  /-- A tag as a handle and what follows it.  The handle of a verbatim tag is empty. -/
  | tag (handle : Text) (suffix : Octets)
  /-- A scalar, which is plain when it stands without quotes and block indicators. -/
  | scalar (plain : Bool) (content : Text)

end Yaml

end DocAudit
