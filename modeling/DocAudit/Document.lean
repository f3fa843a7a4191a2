import DocAudit.Extension
import DocAudit.FrontMatter
import DocAudit.Path

/-!
# Documents

A document is a file beneath the documentation root: its path, its path
relative to the root, and its content, which is front matter and a body.  The
body is found again in the content by the offset of its first octet.
-/

namespace DocAudit

/-- A file beneath the documentation root. -/
structure Document where
  /-- The path as it was found. -/
  path : Path
  /-- The names below the root, with slashes between them. -/
  relativePath : Text
  /-- The whole content, front matter included. -/
  content : Text
deriving DecidableEq, Repr

namespace Document

/-- The document at a path. -/
def ofFile (root path : Path) (content : Text) : Document :=
  ⟨path, root.relativeTo path, content⟩

/-- The extension of the relative path, its dot included. -/
def extension? (document : Document) : Option Text := DocAudit.extension? document.relativePath

/-- The directory that holds the document. -/
def directory (document : Document) : Path := document.path.parent?.getD document.path

/-- The attributes, if there is a well-formed block of them. -/
def attributes (document : Document) : Option Attributes :=
  (FrontMatter.split document.content).attributes

/-- Where the body starts: the octets that the content has more than what is cut off as its
body. -/
def bodyStart (document : Document) : Nat :=
  Text.octetCount document.content
    - Text.octetCount (FrontMatter.split document.content).body

/-- The content from where the body starts. -/
def body (document : Document) : Text :=
  (Text.sliceFrom? document.content document.bodyStart).getD []

end Document

end DocAudit
