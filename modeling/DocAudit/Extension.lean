import DocAudit.Text

/-!
# File name extensions

The extension of a slash-separated path is read off its last segment.  Dots
that open the segment do not start an extension, so a hidden file such as
`.gitignore` has none; of the later dots the last one starts it.
-/

namespace DocAudit

namespace Extension

/-- What follows the last slash of a path. -/
def lastSegment (path : Text) : Text :=
  (path.reverse.takeWhile (· != '/')).reverse

/-- The part of a name from its last dot on. -/
def fromLastDot? : Text → Option Text
  | [] => none
  | c :: name =>
      match fromLastDot? name with
      | some extension => some extension
      | none => if c = '.' then some (c :: name) else none

end Extension

/-- The extension of the last segment of a path, its dot included. -/
def extension? (path : Text) : Option Text :=
  let name := Extension.lastSegment path
  if name = text ".." then none
  else Extension.fromLastDot? (name.dropWhile (· == '.'))

end DocAudit
