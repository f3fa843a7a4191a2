import DocAudit.Proofs.Auditor.Separation
import DocAudit.Proofs.Markdown.LineBreak

/-!
# Documents with other line breaks

A document can be saved with line feeds or with carriage returns before them.
The rule on links finds the same either way.  The rule on headings does so too,
except that it takes a lone number sign for a heading when a carriage return
ends its line: the heading is then the number sign, where the line without the
carriage return is no heading.

**Results.**
* `check_crlf`: the violations of both documents.
* `check_heading_ne_of_lone_sign`: a document that shows the difference.
-/

namespace DocAudit

namespace Auditor

/-- **Line breaks and verdicts.**  Take two documents of one directory, the first one without
carriage returns in its body, the second one with a carriage return before every line feed of that
body.  They have the same violations of the rule on links.  The headings of the first one are those
of the second one that are not a lone number sign, and they are the same exactly if no line that a
line feed ends is a lone number sign. -/
theorem check_crlf (auditor : Auditor) {first second : Document}
    (hdirectory : first.directory.same second.directory = true)
    (hreturn : '\r' ∉ first.body) (hbody : second.body = Text.crlf first.body) :
    auditor.check .links second = auditor.check .links first
      ∧ auditor.check .heading first
        = (auditor.check .heading second).filter (· ≠ .topLevelHeading (text "#"))
      ∧ (auditor.check .heading second = auditor.check .heading first
        ↔ text "#" ∉ (Text.splitOn '\n' (Markdown.stripFenced first.body)).dropLast) := by
  have hinjective : Function.Injective Violation.topLevelHeading := by
    intro a b h
    exact Violation.topLevelHeading.inj h
  refine ⟨?_, ?_, ?_⟩
  · apply Check.links_congr (beq_iff_eq.1 hdirectory).symm
    rw [hbody, Markdown.links_crlf]
  · change Check.heading first = (Check.heading second).filter _
    rw [Check.heading, Check.heading, hbody, List.filter_map,
      Markdown.headings_eq_filter_crlf hreturn]
    congr 2
    funext heading
    exact decide_eq_decide.2 hinjective.ne_iff.symm
  · change Check.heading second = Check.heading first ↔ _
    rw [Check.heading, Check.heading, hbody, hinjective.list_map.eq_iff]
    exact Markdown.headings_crlf_eq_iff hreturn

/-- An auditor that knows of no file. -/
def emptyAuditor : Auditor := ⟨.standard, .ofString "/site", .ordered []⟩

/-- A document whose links and whose fenced code go over lines.  A lone number sign stands in the
code and on the last line. -/
def brokenDocument : Document :=
  .ofFile (.ofString "/site") (.ofString "/site/a.md")
    (text "---\ntitle: A\n---\n# Use \n[b](\n<gone> \"b\"\n)\n"
      ++ text "\x60\x60\x60\n#\n\x60\x60\x60\n[c]: lost\n#")

/-- The same document with carriage returns. -/
def returnedDocument : Document :=
  { brokenDocument with content := Text.crlf brokenDocument.content }

theorem check_crlf_brokenDocument :
    emptyAuditor.check .links returnedDocument = emptyAuditor.check .links brokenDocument
      ∧ emptyAuditor.check .heading brokenDocument = [.topLevelHeading (text "# Use ")]
      ∧ emptyAuditor.check .heading returnedDocument
        = emptyAuditor.check .heading brokenDocument := by
  have hdirectory : brokenDocument.directory.same returnedDocument.directory = true := by
    decide +kernel
  obtain ⟨hlinks, _, hheading⟩ := check_crlf emptyAuditor hdirectory (by decide +kernel)
    (by decide +kernel)
  exact ⟨hlinks, by decide +kernel, hheading.2 (by decide +kernel)⟩

/-- A document of one line, which is a number sign. -/
def loneSignDocument : Document :=
  .ofFile (.ofString "/site") (.ofString "/site/a.md") (text "#\n")

/-- The same document with a carriage return. -/
def returnedSignDocument : Document :=
  .ofFile (.ofString "/site") (.ofString "/site/a.md") (text "#\r\n")

theorem check_heading_ne_of_lone_sign :
    '\r' ∉ loneSignDocument.body
      ∧ returnedSignDocument.body = Text.crlf loneSignDocument.body
      ∧ emptyAuditor.check .heading loneSignDocument = []
      ∧ emptyAuditor.check .heading returnedSignDocument = [.topLevelHeading (text "#")] := by
  decide +kernel

end Auditor

end DocAudit
