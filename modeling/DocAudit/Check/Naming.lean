import DocAudit.Document
import DocAudit.Lowercase
import DocAudit.Violation

/-!
# Rules on names

The two rules that look at the relative path of a document alone: the path
equals its lower-case form, and the file has an extension of markdown.
-/

namespace DocAudit

namespace Check

/-- The extensions of markdown files. -/
def markdownExtensions : List Text := [text ".md", text ".mdx"]

/-- Paths are lower-case. -/
def case (document : Document) : List Violation :=
  if document.relativePath = Lowercase.ofText document.relativePath then []
  else [.upperCasePath]

/-- Files are markdown. -/
def extension (document : Document) : List Violation :=
  if document.extension?.any markdownExtensions.contains then [] else [.invalidExtension]

end Check

end DocAudit
