import DocAudit.Document
import DocAudit.FileTree

/-!
# Loading documents

The content of a document is the text of its file.  Octets that are not
well-formed UTF-8 do not stop it: each malformed piece becomes one replacement
character.
-/

namespace DocAudit

/-- The failure to read the file of a document. -/
structure LoadError where
  path : Path
deriving DecidableEq, Repr

namespace LoadError

/-- The description of a failure. -/
def message (e : LoadError) : Text := text "failed to read " ++ e.path.text

end LoadError

namespace Document

/-- The document in the file at a path. -/
def load (tree : FileTree) (root path : Path) : Except LoadError Document :=
  match tree.read path with
  | .error _ => .error ⟨path⟩
  | .ok octets => .ok (.ofFile root path (Utf8.decodeLossy octets))

end Document

end DocAudit
