import DocAudit.Proofs.Text.Number
import DocAudit.Report
import Mathlib.Algebra.GroupWithZero.Nat

/-!
# The three forms of a report

The text form, the JSON value and the summary all come from one report, but each
goes through its files by itself.  Everything that the other two say can be told
from the JSON value alone: a digest is what a reader takes out of that value, and
both forms are written from the digest again.

The numbers are those of all files that the report was made of, although the
clean ones are not listed.

**Results.**
* `read?_toJson`: the digest of a report.
* `renderText_ofReport`, `renderSummary_ofReport`: the other forms, written from
  the digest.
* `violationCount_ofFiles`: the violations in all files.
* `renderings_agree`: the three forms of the report on files.
-/

namespace DocAudit

namespace Json

/-- The member of a name. -/
def member? (name : Text) : Json → Option Json
  | obj members => members.lookup name
  | _ => none

def nat? : Json → Option Nat
  | nat n => some n
  | _ => none

def str? : Json → Option Text
  | str s => some s
  | _ => none

def items? : Json → Option (List Json)
  | arr items => some items
  | _ => none

end Json

namespace Rule

/-- The rule of a name. -/
def ofName? (name : Text) : Option Rule := all.find? fun rule => rule.name = name

theorem ofName?_name (rule : Rule) : ofName? rule.name = some rule := by
  cases rule <;> rfl

end Rule

namespace Report

/-- What the JSON value of a violation tells. -/
structure ViolationDigest where
  message : Text
  rule : Rule

/-- What the JSON value of a file tells. -/
structure FileDigest where
  path : Text
  violations : List ViolationDigest

/-- What the JSON value of a report tells. -/
structure Digest where
  status : Text
  filesScanned : Nat
  violations : Nat
  files : List FileDigest

/-- What is read back from each element is read back from all of them. -/
theorem mapM_map_eq_some {α β : Type} {write : α → Json} {read? : Json → Option β} {value : α → β}
    (h : ∀ a, read? (write a) = some (value a)) (as : List α) :
    (as.map write).mapM read? = some (as.map value) := by
  induction as with
  | nil => rfl
  | cons a as ih =>
      rw [List.map_cons, List.mapM_cons, h, ih]
      rfl

namespace ViolationDigest

def ofViolation (violation : Violation) : ViolationDigest := ⟨violation.message, violation.rule⟩

def read? (violation : Json) : Option ViolationDigest := do
  let message ← (← violation.member? (text "message")).str?
  let rule ← Rule.ofName? (← (← violation.member? (text "rule")).str?)
  return ⟨message, rule⟩

theorem read?_violationJson (violation : Violation) :
    read? (violationJson violation) = some (ofViolation violation) := by
  change (Rule.ofName? violation.rule.name).bind
      (fun rule => some ⟨violation.message, rule⟩) = some (ofViolation violation)
  rw [Rule.ofName?_name]
  rfl

end ViolationDigest

namespace FileDigest

def ofFile (file : FileReport) : FileDigest :=
  ⟨file.path, file.violations.map ViolationDigest.ofViolation⟩

def read? (file : Json) : Option FileDigest := do
  let path ← (← file.member? (text "path")).str?
  let violations ← (← file.member? (text "violations")).items?
  return ⟨path, ← violations.mapM ViolationDigest.read?⟩

theorem read?_fileJson (file : FileReport) : read? (fileJson file) = some (ofFile file) := by
  change ((file.violations.map violationJson).mapM ViolationDigest.read?).bind
      (fun violations => some ⟨file.path, violations⟩) = some (ofFile file)
  rw [mapM_map_eq_some ViolationDigest.read?_violationJson]
  rfl

/-- A header with a slash and the path, a line for each message, and an empty line. -/
def render (file : FileDigest) : Text :=
  text "📄 " ++ ('/' :: file.path) ++ ['\n']
    ++ file.violations.flatMap (fun violation => text "    💥 " ++ violation.message ++ ['\n'])
    ++ ['\n']

theorem render_ofFile (file : FileReport) : (ofFile file).render = renderFile .plain file := by
  have hmessages : (file.violations.map ViolationDigest.ofViolation).flatMap
        (fun violation => text "    💥 " ++ violation.message ++ ['\n'])
      = file.violations.flatMap fun violation =>
        text "    💥 " ++ violation.render id id ++ ['\n'] := by
    rw [List.flatMap_map]
    rfl
  unfold render renderFile
  rw [ofFile, hmessages]
  rfl

end FileDigest

namespace Digest

def ofReport (report : Report) : Digest :=
  ⟨report.status, report.filesScanned, report.violationCount, report.files.map FileDigest.ofFile⟩

/-- Reads a digest from a JSON value, which is all that it takes. -/
def read? (report : Json) : Option Digest := do
  let status ← (← report.member? (text "status")).str?
  let filesScanned ← (← report.member? (text "files_scanned")).nat?
  let violations ← (← report.member? (text "violations")).nat?
  let files ← (← report.member? (text "files")).items?
  return ⟨status, filesScanned, violations, ← files.mapM FileDigest.read?⟩

theorem read?_toJson (report : Report) : read? report.toJson = some (ofReport report) := by
  change ((report.files.map fileJson).mapM FileDigest.read?).bind
      (fun files => some ⟨report.status, report.filesScanned, report.violationCount, files⟩)
    = some (ofReport report)
  rw [mapM_map_eq_some FileDigest.read?_fileJson]
  rfl

/-- The text form without styles. -/
def renderText (digest : Digest) : Text :=
  if digest.status = text "clean" then allClear ++ ['\n']
  else digest.files.flatMap FileDigest.render

def renderSummary (digest : Digest) : Text :=
  text "files_scanned=" ++ Text.ofNat digest.filesScanned
    ++ text " files_with_violations=" ++ Text.ofNat digest.files.length
    ++ text " violations=" ++ Text.ofNat digest.violations

end Digest

variable (report : Report)

theorem status_eq_clean_iff : report.status = text "clean" ↔ report.isClean = true := by
  rw [status]
  cases report.isClean with
  | true => exact ⟨fun _ => rfl, fun _ => rfl⟩
  | false =>
      constructor
      · intro h
        exact absurd h (by decide)
      · intro h
        cases h

/-- The text form, written from the digest. -/
theorem renderText_ofReport :
    (Digest.ofReport report).renderText = report.renderText .plain := by
  have hfiles : (report.files.map FileDigest.ofFile).flatMap FileDigest.render
      = report.files.flatMap (renderFile .plain) := by
    rw [List.flatMap_map]
    exact congrArg (report.files.flatMap ·) (funext FileDigest.render_ofFile)
  change (if report.status = text "clean" then allClear ++ ['\n'] else _) = _
  by_cases hclean : report.isClean = true
  · have hstatus := (status_eq_clean_iff report).2 hclean
    rw [if_pos hstatus, Report.renderText, if_pos hclean]
    rfl
  · have hstatus : report.status ≠ text "clean" := by rwa [Ne, status_eq_clean_iff]
    rw [if_neg hstatus, Report.renderText, if_neg hclean]
    exact hfiles

/-- The summary, written from the digest. -/
theorem renderSummary_ofReport :
    (Digest.ofReport report).renderSummary = report.renderSummary := by
  have hscanned : (Digest.ofReport report).filesScanned = report.filesScanned := rfl
  have hfiles : (Digest.ofReport report).files.length = report.files.length := List.length_map _
  have hviolations : (Digest.ofReport report).violations = report.violationCount := rfl
  unfold Digest.renderSummary Report.renderSummary
  rw [hscanned, hfiles, hviolations]

theorem violationCount_eq_sum :
    report.violationCount = (report.files.map fun file => file.violations.length).sum :=
  List.length_flatMap

section

variable (files : List FileReport)

/-- Clean files are left out without a change of the number of violations. -/
theorem violationCount_ofFiles :
    (ofFiles files).violationCount = (files.map fun file => file.violations.length).sum := by
  rw [violationCount_eq_sum]
  change ((files.filter fun file => !file.isClean).map fun file => file.violations.length).sum = _
  induction files with
  | nil => rfl
  | cons file files ih =>
      rw [List.filter_cons, List.map_cons, List.sum_cons]
      cases hclean : file.isClean with
      | true =>
          have hnone : file.violations.length = 0 := by
            rw [FileReport.isClean, List.isEmpty_iff] at hclean
            rw [hclean, List.length_nil]
          rw [hnone, Nat.zero_add]
          exact ih
      | false =>
          change (List.map _ (file :: _)).sum = _
          rw [List.map_cons, List.sum_cons, ih]

theorem isClean_ofFiles_iff :
    (ofFiles files).isClean = true ↔ ∀ file ∈ files, file.isClean = true := by
  rw [isClean, List.isEmpty_iff, ofFiles, List.filter_eq_nil_iff]
  simp only [Bool.not_eq_true', Bool.not_eq_false]

end

/-- **The forms of a report.**  From the JSON value alone one reads a digest that writes the text
form without styles and the summary again.  Its number of violations is the sum over the files that
it lists, and over all files that the report was made of.  It lists exactly those that are not
clean, in their order, each with the messages and the rules of its violations. -/
theorem renderings_agree (files : List FileReport) :
    ∃ digest, Digest.read? (ofFiles files).toJson = some digest
      ∧ digest.renderText = (ofFiles files).renderText .plain
      ∧ digest.renderSummary = (ofFiles files).renderSummary
      ∧ digest.violations = (digest.files.map fun file => file.violations.length).sum
      ∧ digest.violations = (files.map fun file => file.violations.length).sum
      ∧ digest.filesScanned = files.length
      ∧ digest.files = (files.filter fun file => !file.isClean).map FileDigest.ofFile
      ∧ (digest.status = text "clean" ↔ ∀ file ∈ files, file.isClean = true) := by
  refine ⟨_, Digest.read?_toJson (ofFiles files), renderText_ofReport _, renderSummary_ofReport _,
    ?_, violationCount_ofFiles files, rfl, rfl, ?_⟩
  · change (ofFiles files).violationCount
      = (((ofFiles files).files.map FileDigest.ofFile).map fun file => file.violations.length).sum
    rw [violationCount_eq_sum, List.map_map]
    congr 2
    funext file
    exact (List.length_map _).symm
  · rw [← isClean_ofFiles_iff]
    exact status_eq_clean_iff _

end Report

end DocAudit
