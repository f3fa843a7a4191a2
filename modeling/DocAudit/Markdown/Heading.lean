import DocAudit.Markdown.Code

/-!
# Top level headings of a body

A line is a top level heading when it starts with a number sign and goes on
with another character.  The text of the heading ends before the next number
sign of the line, and carriage returns at its end are left out.  Lines are
those of the body without its fenced code.
-/

namespace DocAudit

namespace Markdown

/-- The top level heading that a line is. -/
def heading? : Text → Option Text
  | '#' :: t =>
      let run := t.takeWhile (· != '#')
      if run = [] then none else some (Text.dropEndWhile (· == '\r') ('#' :: run))
  | _ => none

/-- The top level headings of a body. -/
def headings (body : Text) : List Text :=
  (Text.splitOn '\n' (stripFenced body)).filterMap heading?

end Markdown

end DocAudit
