import DocAudit.Json
import DocAudit.Violation

/-!
# Reports

A report tells how many files were read and keeps the files that have
violations, in the order in which they were found.  It is written in three
ways: as text for people, as a JSON value, and as a one-line summary.

The text form passes the parts that deserve attention through a palette, which
surrounds them with styles.  The plain palette leaves every part as it is.
-/

namespace DocAudit

/-- The styles of the text form. -/
structure Palette where
  /-- The style of a file path. -/
  path : Text → Text
  /-- The style of an offending text. -/
  error : Text → Text
  /-- The style of a suggested fix. -/
  hint : Text → Text
  /-- The style of the line that confirms a clean tree. -/
  success : Text → Text

namespace Palette

/-- No style at all. -/
def plain : Palette := ⟨id, id, id, id⟩

end Palette

/-- The outcome for a whole tree. -/
structure Report where
  /-- The number of files that were looked at, clean ones included. -/
  filesScanned : Nat
  /-- The files that have violations. -/
  files : List FileReport
deriving DecidableEq, Repr

namespace Report

/-- The report on files, of which the clean ones are only counted. -/
def ofFiles (files : List FileReport) : Report :=
  ⟨files.length, files.filter fun file => !file.isClean⟩

/-- The number of violations in all files. -/
def violationCount (report : Report) : Nat :=
  (report.files.flatMap fun file => file.violations).length

/-- Whether no file has a violation. -/
def isClean (report : Report) : Bool := report.files.isEmpty

/-- The confirmation that a tree is clean. -/
def allClear : Text := text "✅ There are no issues! 🎉🎉"

/-- The block of lines about one file: its path, its messages, and an empty line. -/
def renderFile (palette : Palette) (file : FileReport) : Text :=
  text "📄 " ++ palette.path ('/' :: file.path) ++ ['\n']
    ++ file.violations.flatMap (fun violation =>
        text "    💥 " ++ violation.render palette.error palette.hint ++ ['\n'])
    ++ ['\n']

/-- The text form. -/
def renderText (palette : Palette) (report : Report) : Text :=
  if report.isClean then palette.success allClear ++ ['\n']
  else report.files.flatMap (renderFile palette)

/-- The JSON value of a violation. -/
def violationJson (violation : Violation) : Json :=
  .obj [(text "message", .str violation.message), (text "rule", .str violation.rule.name)]

/-- The JSON value of a file. -/
def fileJson (file : FileReport) : Json :=
  .obj
    [(text "path", .str file.path),
      (text "violations", .arr (file.violations.map violationJson))]

/-- The word for the outcome. -/
def status (report : Report) : Text :=
  if report.isClean then text "clean" else text "violations_found"

/-- The JSON value of a report, its members in the order of their names. -/
def toJson (report : Report) : Json :=
  .obj
    [(text "files", .arr (report.files.map fileJson)),
     (text "files_scanned", .nat report.filesScanned),
     (text "status", .str report.status),
     (text "violations", .nat report.violationCount)]

/-- The one-line summary. -/
def renderSummary (report : Report) : Text :=
  text "files_scanned=" ++ Text.ofNat report.filesScanned
    ++ text " files_with_violations=" ++ Text.ofNat report.files.length
    ++ text " violations=" ++ Text.ofNat report.violationCount

end Report

end DocAudit
