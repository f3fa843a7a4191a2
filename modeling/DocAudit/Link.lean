import DocAudit.Extension

/-!
# Links

A link is a target as the author wrote it, together with the way it is to be
resolved.  A target with a URI scheme, or one that starts with two slashes,
is external.  One that starts with the root marker is rooted.  Every other
target is relative to the document that holds it.
-/

namespace DocAudit

namespace Link

/-- How a target is resolved. -/
inductive Kind where
  /-- Against the documentation root, with the root marker taken off. -/
  | rooted
  /-- Against the directory of the document. -/
  | relative
  /-- Not at all: the target lies outside the documentation. -/
  | external
deriving DecidableEq, Repr

/-- The characters that a URI scheme has after its first letter. -/
def isSchemeChar (c : Char) : Bool :=
  c.isAlphanum || c == '+' || c == '.' || c == '-'

/-- Whether the rest of a scheme comes to its colon. -/
def endsScheme : Text → Bool
  | [] => false
  | c :: t => c == ':' || (isSchemeChar c && endsScheme t)

/-- Whether a target starts with a URI scheme: an ASCII letter, then scheme characters, then a
colon. -/
def hasScheme : Text → Bool
  | [] => false
  | c :: t => c.isAlpha && endsScheme t

/-- The kind of a target, for a root marker.  An empty marker makes no target rooted. -/
def kindOf (marker target : Text) : Kind :=
  if hasScheme target || Text.startsWith (text "//") target then .external
  else if marker ≠ [] ∧ Text.startsWith marker target then .rooted
  else .relative

end Link

/-- A link target found in a document. -/
structure Link where
  /-- The target exactly as written. -/
  target : Text
  /-- How the target is resolved. -/
  kind : Link.Kind
deriving DecidableEq, Repr

namespace Link

/-- The link that a target makes. -/
def ofTarget (marker target : Text) : Link := ⟨target, kindOf marker target⟩

/-- Whether a character starts a fragment or a query. -/
def endsPath (c : Char) : Bool := c == '#' || c == '?'

/-- The target without its fragment and its query. -/
def path (link : Link) : Text := link.target.takeWhile fun c => !endsPath c

/-- The extension of the path, its dot included. -/
def extension? (link : Link) : Option Text := DocAudit.extension? link.path

/-- The target without one leading slash. -/
def unslashed (link : Link) : Text :=
  (Text.after? ['/'] link.target).getD link.target

/-- Whether the target starts with `lead`, one leading slash aside. -/
def liesUnder (lead : Text) (link : Link) : Bool := Text.startsWith lead link.unslashed

end Link

end DocAudit
