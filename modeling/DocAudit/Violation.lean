import DocAudit.Rule

/-!
# Violations

A violation is a single failure of a rule.  It knows the rule that it breaks
and the message that tells the author about it.  The message is made of plain
words and of two kinds of marked parts: the offending text and the suggested
fix.
-/

namespace DocAudit

/-- A single failure of a rule. -/
inductive Violation where
  /-- The path has an upper-case character. -/
  | upperCasePath
  /-- The file is not markdown. -/
  | invalidExtension
  /-- The link names a file, by its extension, and not a document. -/
  | linkExtension (link extension : Text)
  /-- The link starts with a deprecated segment. -/
  | deprecatedLead (link lead : Text)
  /-- The link leads to no document; the marker would make it rooted. -/
  | linkNotFound (link marker : Text)
  /-- The body has this top level heading. -/
  | topLevelHeading (heading : Text)
  /-- The front matter has no title. -/
  | missingTitle
deriving DecidableEq, Repr

namespace Violation

/-- The rule that a violation breaks. -/
def rule : Violation → Rule
  | upperCasePath => .case
  | invalidExtension => .extension
  | linkExtension _ _ => .links
  | deprecatedLead _ _ => .links
  | linkNotFound _ _ => .links
  | topLevelHeading _ => .heading
  | missingTitle => .frontMatter

/-- The message of a violation, its offending text and its suggested fix in the given styles. -/
def render (error hint : Text → Text) : Violation → Text
  | upperCasePath =>
      text "Files and folders must be lower-case and words must be separated with a dash (-)."
  | invalidExtension => text "File extension must be .md or .mdx."
  | linkExtension link extension =>
      text "Remove \"" ++ error link ++ text "\" link \"" ++ extension ++ text "\" extension."
  | deprecatedLead link lead =>
      text "Remove \"" ++ error link ++ text "\" link \"" ++ lead ++ text "\" prefix."
  | linkNotFound link marker =>
      text "Linked doc ID \"" ++ error link
        ++ text "\" doesn't exist. Fix relative path or alternatively prepend with "
        ++ hint marker ++ text " to make the link absolute."
  | topLevelHeading heading =>
      text "No top level markdown title allowed: \"" ++ error heading
        ++ text "\", use front-matter \"title\" instead."
  | missingTitle => text "Front matter should have \"title\" property defined."

/-- The message without styles. -/
def message (violation : Violation) : Text := violation.render id id

end Violation

/-- The violations found in one file, in the order of the rules. -/
structure FileReport where
  /-- The path relative to the documentation root. -/
  path : Text
  /-- The violations. -/
  violations : List Violation
deriving DecidableEq, Repr

namespace FileReport

/-- Whether the file passed every rule. -/
def isClean (file : FileReport) : Bool := file.violations.isEmpty

end FileReport

end DocAudit
