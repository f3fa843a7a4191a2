import DocAudit.Proofs.Auditor.Separation
import DocAudit.Proofs.Markdown.Fences

/-!
# Documents with other fenced code

The rules on links and on headings look at a body without its fenced code.
What stands between the fences is invisible to them, however many fences there
are and whatever the code holds.

**Results.**
* `headings_congr_stripFenced`: headings are those of the text without fenced
  code.
* `check_of_sameTexts`: documents that differ in their fenced code alone.
-/

namespace DocAudit

namespace Markdown

theorem headings_congr_stripFenced {first second : Text}
    (h : stripFenced first = stripFenced second) : headings first = headings second := by
  rw [headings, headings, h]

end Markdown

namespace Auditor

open Markdown (FencedText stripFenced)

/-- **Fenced code is invisible.**  Take a text with fenced code in it, as it is meant.  Without its
fenced code the texts around the code are left of it.  Two documents of one directory whose bodies
have the same texts around their fenced code have the same violations of the rule on links and of
the rule on headings. -/
theorem check_of_sameTexts (auditor : Auditor) {s t : FencedText} (hs : s.IsMeant) (ht : t.IsMeant)
    (htexts : s.texts = t.texts) :
    stripFenced s.write = s.texts.flatten
      ∧ ∀ first second : Document, first.body = s.write → second.body = t.write →
        first.directory.same second.directory = true →
        auditor.check .links first = auditor.check .links second
          ∧ auditor.check .heading first = auditor.check .heading second := by
  have hleft : stripFenced s.write = stripFenced t.write := by
    rw [FencedText.stripFenced_write hs, FencedText.stripFenced_write ht, htexts]
  refine ⟨FencedText.stripFenced_write hs, fun first second hfirst hsecond hdirectory => ⟨?_, ?_⟩⟩
  · apply Check.links_congr (beq_iff_eq.1 hdirectory)
    rw [hfirst, hsecond, Markdown.links_congr_stripFenced _ hleft]
  · apply Check.heading_congr
    rw [hfirst, hsecond, Markdown.headings_congr_stripFenced hleft]

/-- Fenced code with backticks, a link and a heading in it.  The first fence goes on from the text
before it, two pieces of code stand side by side, and a text behind a fence starts with backticks.
-/
def hiddenText : FencedText where
  lead := text "[a](gone)\n# A"
  blocks :=
    [(text "\x60\x60x \x60[b](lost)\n", text "\x60\x60b"), (text "\n# B\n", []),
      (text "c", text "\n# C [c](missing)\n\x60\x60")]

/-- The same texts around other code. -/
def otherText : FencedText where
  lead := text "[a](gone)\n# A"
  blocks :=
    [(text "rust\n](", text "\x60\x60b"), (text "\x60 \x60\x60 d", []),
      (text "\n\n", text "\n# C [c](missing)\n\x60\x60")]

theorem check_of_sameTexts_hiddenText :
    let auditor : Auditor := ⟨.standard, .ofString "/site", .ordered []⟩
    let first : Document := .ofFile (.ofString "/site") (.ofString "/site/a.md") hiddenText.write
    let second : Document := .ofFile (.ofString "/site") (.ofString "/site/a.md") otherText.write
    stripFenced hiddenText.write = text "[a](gone)\n# A\x60\x60b\n# C [c](missing)\n\x60\x60"
      ∧ auditor.check .links first = auditor.check .links second
      ∧ auditor.check .heading first = auditor.check .heading second
      ∧ auditor.check .heading first
        = [.topLevelHeading (text "# A\x60\x60b"), .topLevelHeading (text "# C [c](missing)")] := by
  intro auditor first second
  have h := check_of_sameTexts auditor (s := hiddenText) (t := otherText) (by decide +kernel)
    (by decide +kernel) (by decide)
  obtain ⟨hlinks, hheading⟩ := h.2 first second (by decide +kernel) (by decide +kernel)
    (by decide +kernel)
  exact ⟨h.1.trans (by decide), hlinks, hheading, by decide +kernel⟩

end Auditor

end DocAudit
