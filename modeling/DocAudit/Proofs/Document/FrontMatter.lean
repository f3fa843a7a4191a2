import DocAudit.FrontMatter

/-!
# Documents without front matter

Front matter opens with a line of dashes.  The first line of a document starts
with the first character of the document, so that a document that starts with
any other character is all body.

**Results.**
* `head?_of_opens`: a line that opens front matter starts with a dash.
* `split_of_ne_dash`: a document that does not start with a dash is all body.
-/

namespace DocAudit
namespace FrontMatter

theorem head?_of_opens {line : Text} (h : opens line = true) : line.head? = some '-' := by
  have hdashes : Text.trimEnd line = text "---" := beq_iff_eq.1 h
  have hlead : Text.trimEnd line <+: line := by
    have hsuffix := List.dropWhile_suffix Text.isSpace (l := line.reverse)
    have hreverse := List.reverse_prefix.2 hsuffix
    rw [List.reverse_reverse] at hreverse
    exact hreverse
  obtain ⟨rest, hrest⟩ := hlead
  rw [← hrest, hdashes]
  rfl

theorem exists_lines_cons (c : Char) (t : Text) :
    ∃ line rest, Text.lines (c :: t) = (c :: line) :: rest := by
  rw [Text.lines]
  split
  · rename_i hc
    exact ⟨[], Text.lines t, by rw [hc]⟩
  · split
    · exact ⟨[], [], rfl⟩
    · rename_i line rest _
      exact ⟨line, rest, rfl⟩

/-- A document that does not start with a dash is all body. -/
theorem split_of_ne_dash {c : Char} (hdash : c ≠ '-') (hmark : c ≠ Yaml.byteOrderMark)
    (t : Text) : split (c :: t) = ⟨none, c :: t⟩ := by
  have hwhole : withoutMark (c :: t) = c :: t := by
    rw [withoutMark, Text.after?, if_neg hmark.symm]
    rfl
  obtain ⟨line, rest, hlines⟩ := exists_lines_cons c t
  have hopens : ¬ opens (c :: line) = true := by
    intro hopen
    exact hdash (Option.some.inj (head?_of_opens hopen))
  rw [split]
  simp only [hwhole, delimit?, hlines, if_neg hopens]

end FrontMatter
end DocAudit
