import DocAudit.Auditor
import DocAudit.Proofs.Markdown.HeadingLines

/-!
# Documents and their heading lines

The rule on headings has one violation for each line of the body that is a top
level heading, in the order of the lines.  Its message tells the line up to the
second number sign; the message is the whole line exactly if there is no second
one.

**Results.**
* `check_heading_lines`: which lines are violations.
* `check_heading_text`: what is told of such a line.
* `heading_ne_line_of_two_signs`: a document that loses a part of its heading.
-/

namespace DocAudit

namespace Auditor

open Markdown (IsHeadingLine fence headingLines headingText searchHeadings stripFenced
  withoutReturns)

/-- **The lines that are flagged.**  Write the body without its fenced code as lines that hold no
line feed.  The violations of the rule on headings are those of the lines that start with a number
sign and another character, one for each of them, in the order of the lines.  They are also what a
search over the whole text finds.  And if a body is another one without fences, a line feed, and a
third one, its violations are those of the two, one behind the other. -/
theorem check_heading_lines (auditor : Auditor) :
    (∀ (document : Document) (lines : List Text), lines ≠ [] → (∀ line ∈ lines, '\n' ∉ line) →
        stripFenced document.body = Text.joinWith ['\n'] lines →
        auditor.check .heading document
          = (lines.filter fun line => IsHeadingLine line).map fun line =>
              .topLevelHeading (headingText line))
      ∧ (∀ document : Document,
        auditor.check .heading document
          = (searchHeadings true (stripFenced document.body)).map .topLevelHeading)
      ∧ ∀ first second whole : Document, ¬ fence <:+: first.body →
        whole.body = first.body ++ '\n' :: second.body →
        auditor.check .heading whole
          = auditor.check .heading first ++ auditor.check .heading second := by
  refine ⟨fun document lines hne hlines hbody => ?_, fun document => ?_,
    fun first second whole hfence hbody => ?_⟩
  · change Check.heading document = _
    rw [Check.heading, Markdown.headings_eq_of_lines hne hlines hbody, List.map_map]
    rfl
  · change Check.heading document = _
    rw [Check.heading, Markdown.headings, Markdown.searchHeadings_eq_filterMap]
  · change Check.heading whole = Check.heading first ++ Check.heading second
    rw [Check.heading, hbody, Markdown.headings_append_newline hfence, List.map_append,
      Check.heading, Check.heading]

/-- A document with number signs in many places.  Fenced code leaves a heading on its line. -/
def signsDocument : Document :=
  .ofFile (.ofString "/site") (.ofString "/site/a.md")
    (text "#\n##a\n# b # c #\n #d\n\n\x60\x60\x60\n# x\n\x60\x60\x60# e\n#\r")

/-- A document that ends with backticks. -/
def ticksDocument : Document :=
  .ofFile (.ofString "/site") (.ofString "/site/b.md") (text "# f\n\x60\x60")

/-- A document that starts with a backtick and has fenced code. -/
def tickDocument : Document :=
  .ofFile (.ofString "/site") (.ofString "/site/c.md")
    (text "\x60\n# g\n\x60\x60\x60\n# x\n\x60\x60\x60")

/-- The two documents, one behind the other. -/
def joinedDocument : Document :=
  .ofFile (.ofString "/site") (.ofString "/site/d.md")
    (text "# f\n\x60\x60\n\x60\n# g\n\x60\x60\x60\n# x\n\x60\x60\x60")

theorem check_heading_lines_signsDocument :
    ∃ auditor : Auditor,
      auditor.check .heading signsDocument
          = [.topLevelHeading (text "# b "), .topLevelHeading (text "# e"),
            .topLevelHeading (text "#")]
        ∧ auditor.check .heading signsDocument
          = (searchHeadings true (stripFenced signsDocument.body)).map .topLevelHeading
        ∧ auditor.check .heading joinedDocument
          = auditor.check .heading ticksDocument ++ auditor.check .heading tickDocument := by
  let auditor : Auditor := ⟨.standard, .ofString "/site", .ordered []⟩
  obtain ⟨hlines, hsearch, hjoined⟩ := check_heading_lines auditor
  refine ⟨auditor, ?_, hsearch signsDocument,
    hjoined ticksDocument tickDocument joinedDocument (by decide +kernel) (by decide +kernel)⟩
  refine (hlines signsDocument
    [text "#", text "##a", text "# b # c #", text " #d", [], text "# e", text "#\r"]
    (by decide) (by decide +kernel) (by decide +kernel)).trans ?_
  decide +kernel

/-- **What is told of a heading.**  The violations of the rule on headings tell the heading lines of
the body, one each.  What is told is the line up to its second number sign, without the carriage
returns at its end.  It is the whole line without the carriage returns at its end exactly if the
line has no second number sign. -/
theorem check_heading_text (auditor : Auditor) (document : Document) :
    auditor.check .heading document
        = (headingLines document.body).map (fun line => .topLevelHeading (headingText line))
      ∧ ∀ line ∈ headingLines document.body,
        (∃ shown rest, line = shown ++ rest ∧ headingText line = withoutReturns shown
          ∧ '#' ∉ shown.tail ∧ (rest = [] ∨ rest.head? = some '#'))
        ∧ (headingText line = withoutReturns line ↔ '#' ∉ line.tail) := by
  constructor
  · change Check.heading document = _
    rw [Check.heading, Markdown.headings_eq_map_headingLines, List.map_map]
    rfl
  · intro line hm
    have hline : IsHeadingLine line := of_decide_eq_true (List.mem_filter.1 hm).2
    obtain ⟨rest, hrest, hsign, hstart⟩ := Markdown.shownPart_append hline
    exact ⟨⟨Markdown.shownPart line, rest, hrest, rfl, hsign, hstart⟩,
      Markdown.headingText_eq_withoutReturns_iff hline⟩

theorem check_heading_text_signsDocument :
    ∃ auditor : Auditor,
      auditor.check .heading signsDocument
          = (headingLines signsDocument.body).map (fun line => .topLevelHeading (headingText line))
        ∧ text "# b # c #" ∈ headingLines signsDocument.body
        ∧ headingText (text "# b # c #") ≠ withoutReturns (text "# b # c #")
        ∧ text "#\r" ∈ headingLines signsDocument.body
        ∧ headingText (text "#\r") = withoutReturns (text "#\r") := by
  let auditor : Auditor := ⟨.standard, .ofString "/site", .ordered []⟩
  obtain ⟨hcheck, htext⟩ := check_heading_text auditor signsDocument
  have hcut : text "# b # c #" ∈ headingLines signsDocument.body := by decide +kernel
  have hwhole : text "#\r" ∈ headingLines signsDocument.body := by decide +kernel
  exact ⟨auditor, hcheck, hcut, mt (htext _ hcut).2.1 (by decide), hwhole,
    (htext _ hwhole).2.2 (by decide)⟩

/-- A document whose heading has a number sign in it. -/
def twoSignsDocument : Document :=
  .ofFile (.ofString "/site") (.ofString "/site/a.md") (text "# a # b")

theorem heading_ne_line_of_two_signs :
    Check.heading twoSignsDocument = [.topLevelHeading (text "# a ")]
      ∧ ∀ line ∈ Text.splitOn '\n' (stripFenced twoSignsDocument.body),
        withoutReturns line ≠ text "# a " := by
  decide +kernel

end Auditor

end DocAudit
