import DocAudit.Check.Content
import DocAudit.Check.Links

/-!
# The auditor

An auditor knows a configuration, the documentation root and the files that
exist.  It applies the rules to a document in their order and collects the
violations.  Images are exempt from every rule.
-/

namespace DocAudit

/-- What the rules are applied with. -/
structure Auditor where
  config : Config
  /-- The documentation root, written like the paths of the catalog. -/
  root : Path
  catalog : Catalog

namespace Auditor

/-- Whether a relative path is one of an image. -/
def exempts (auditor : Auditor) (relativePath : Text) : Bool :=
  (extension? relativePath).any auditor.config.isImageExtension

/-- The violations of one rule in a document. -/
def check (auditor : Auditor) (rule : Rule) (document : Document) : List Violation :=
  match rule with
  | .case => Check.case document
  | .extension => Check.extension document
  | .links => Check.links auditor.config auditor.root auditor.catalog document
  | .heading => Check.heading document
  | .frontMatter => Check.frontMatter document

/-- The violations of all rules in a document. -/
def violations (auditor : Auditor) (document : Document) : List Violation :=
  Rule.all.flatMap fun rule => auditor.check rule document

/-- The report on a document. -/
def audit (auditor : Auditor) (document : Document) : FileReport :=
  ⟨document.relativePath,
    if auditor.exempts document.relativePath then [] else auditor.violations document⟩

end Auditor

end DocAudit
