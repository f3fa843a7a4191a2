import DocAudit.Document
import DocAudit.Markdown.Heading
import DocAudit.Violation

/-!
# Rules on content

The rule on headings looks at the body of a document, and the rule on front
matter at its attributes: the title stands there, and so no top level heading
stands in the body.
-/

namespace DocAudit

namespace Check

/-- Bodies hold no top level heading. -/
def heading (document : Document) : List Violation :=
  (Markdown.headings document.body).map .topLevelHeading

/-- The front matter has a title, whatever its value. -/
def frontMatter (document : Document) : List Violation :=
  if document.attributes.any (Attributes.has (text "title")) then [] else [.missingTitle]

end Check

end DocAudit
