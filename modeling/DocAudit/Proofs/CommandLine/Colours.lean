import DocAudit.Proofs.CommandLine.Status
import DocAudit.Proofs.Report.Lines
import DocAudit.Proofs.Report.Styles
import DocAudit.Proofs.TreeAudit.Locality

/-!
# Colours

The colours of a terminal are styles whose markers are escape sequences.  A
sequence starts with the escape character, which no printed form of a report has
of its own: words, numbers and JSON have no control character but the line feed.
Unless a path, a link, a heading or the root marker brings one along, a reader
of the coloured output can tell the sequences from the text.

**Results.**
* `notMem_render`: the characters of the printed forms.
* `styled_render`: the coloured form of a report is the plain one with parts surrounded.
* `run_cases`: colours have no part in what a run does before it prints.
* `styling_wraps`: what is left of a styled report, and of a coloured run.
-/

namespace DocAudit

open Markdown

namespace Report

/-- No path, link or heading in a report has a character. -/
def Lacks (c : Char) (report : Report) : Prop :=
  ∀ file ∈ report.files, c ∉ file.path
    ∧ ∀ violation ∈ file.violations, ∀ t ∈ violation.quoted?, c ∉ t

section

variable {c : Char} (hc : c.toNat < 32) (hnewline : c ≠ '\n')
include hc hnewline

theorem notMem_renderFile {file : FileReport} (hpath : c ∉ file.path)
    (hmessages : ∀ violation ∈ file.violations, c ∉ violation.message) :
    c ∉ renderFile .plain file := by
  have hlines : c ∉ file.violations.flatMap violationLine := by
    intro hmem
    obtain ⟨violation, hviolation, hmem⟩ := List.mem_flatMap.1 hmem
    unfold violationLine at hmem
    simp only [List.mem_append, List.mem_singleton, hnewline, hmessages violation hviolation,
      or_false] at hmem
    exact absurd hmem (Text.notMem_text hc rfl)
  have hline : c ∉ '/' :: file.path := by
    rw [List.mem_cons, not_or]
    exact ⟨fun he => Text.notMem_of_lacksControls hc (t := ['/']) rfl (List.mem_singleton.2 he),
      hpath⟩
  change c ∉ text "📄 " ++ '/' :: file.path ++ ['\n'] ++ file.violations.flatMap violationLine
    ++ ['\n']
  simp only [List.mem_append, List.mem_singleton, hline, hlines, hnewline, or_false]
  exact Text.notMem_text hc rfl

/-- The text form has a control character only in a path or in a message. -/
theorem notMem_renderText {report : Report} (h : ∀ file ∈ report.files,
    c ∉ file.path ∧ ∀ violation ∈ file.violations, c ∉ violation.message) :
    c ∉ report.renderText .plain := by
  rw [renderText]
  split
  · rw [List.mem_append, List.mem_singleton, not_or]
    exact ⟨Text.notMem_text hc rfl, hnewline⟩
  · intro hmem
    obtain ⟨file, hfile, hmem⟩ := List.mem_flatMap.1 hmem
    exact notMem_renderFile hc hnewline (h file hfile).1 (h file hfile).2 hmem

omit hnewline in
theorem notMem_renderSummary (report : Report) : c ∉ report.renderSummary := by
  have hnumber := fun n => Text.notMem_of_lacksControls hc (Text.lacksControls_ofNat n)
  unfold renderSummary
  simp only [List.mem_append, hnumber, or_false, not_or]
  exact ⟨⟨Text.notMem_text hc rfl, Text.notMem_text hc rfl⟩, Text.notMem_text hc rfl⟩

end

end Report

/-- The style of a colour. -/
def Style.colour (code : Text) : Style := ⟨text "\x1b[" ++ code ++ ['m'], text "\x1b[39m"⟩

theorem Style.surround_colour (code : Text) : (colour code).surround = coloured code := by
  funext t
  unfold surround colour coloured
  dsimp only
  rw [List.append_assoc _ ['m'], List.singleton_append]

namespace StyleSheet

/-- The styles of a terminal. -/
def terminal : StyleSheet :=
  ⟨.colour (text "33"), .colour (text "31"), .colour (text "32"),
    .colour (text "38;2;000;128;000")⟩

theorem palette_terminal : terminal.palette = .terminal := by
  simp only [palette, terminal, Style.surround_colour]
  rfl

theorem standOut_terminal {plain : Text} (h : '\x1b' ∉ plain) :
    StandOut terminal.markers plain :=
  .of_head? (by decide) (by decide) (by decide) h

end StyleSheet

namespace CommandLine

open StyleSheet

/-- No printed form of a report has a control character of its own. -/
theorem notMem_render {c : Char} (hc : c.toNat < 32) (hnewline : c ≠ '\n') {config : Config}
    {tree : FileTree} {report : Report} (hreport : auditTree config tree = .ok report)
    (hmarker : c ∉ config.rootMarker) (hlacks : report.Lacks c) (options : Options) :
    c ∉ render options false report := by
  unfold render
  cases options.format.getD .text with
  | text =>
      refine Report.notMem_renderText hc hnewline fun file hfile => ⟨(hlacks file hfile).1, ?_⟩
      intro violation hviolation
      obtain ⟨auditor, document, rfl, haudit⟩ :=
        exists_mem_audit_of_auditTree hreport hfile hviolation
      exact Auditor.notMem_message_of_mem_audit hc hmarker haudit
        ((hlacks file hfile).2 violation hviolation)
  | json =>
      rw [List.mem_append, List.mem_singleton, not_or]
      exact ⟨Json.notMem_pretty hc hnewline 0 report.toJson, hnewline⟩
  | summary =>
      rw [List.mem_append, List.mem_singleton, not_or]
      exact ⟨Report.notMem_renderSummary hc report, hnewline⟩

/-- Only the text form has colours, and there they surround parts of the plain one. -/
theorem styled_render (options : Options) (report : Report) :
    Styled terminal (render options true report) (render options false report) := by
  unfold render
  cases options.format.getD .text with
  | text =>
      cases options.colourless with
      | false =>
          have hstyled := styled_renderText terminal report
          rwa [palette_terminal] at hstyled
      | true => exact Styled.refl terminal _
  | json => exact Styled.refl terminal _
  | summary => exact Styled.refl terminal _

/-- A run prints nothing, or the report on the tree; colours have a part in its form alone. -/
theorem run_cases (tree : FileTree) (arguments : List Text) :
    (∃ outcome, outcome.output = [] ∧ ∀ colours, run tree colours arguments = outcome)
      ∨ ∃ options config report, Options.ofArguments arguments = .ok options
        ∧ options.effectiveConfig tree = .ok config ∧ auditTree config tree = .ok report
        ∧ ∀ colours, run tree colours arguments
          = ⟨if report.isClean then 0 else 1, render options colours report, none⟩ := by
  cases harguments : Options.ofArguments arguments with
  | error stop =>
      refine Or.inl ⟨.ofStop stop, by cases stop <;> rfl, fun colours => ?_⟩
      rw [run, harguments]
  | ok options =>
      simp only [run_of_arguments harguments, runOptions]
      cases hconfig : options.effectiveConfig tree with
      | error p =>
          exact Or.inl ⟨.failure (text "failed to load config from " ++ p.text), rfl, fun _ => rfl⟩
      | ok config =>
          cases hreport : auditTree config tree with
          | error cause =>
              refine Or.inl ⟨.failure (text "failed to lint " ++ config.root.display), rfl,
                fun _ => ?_⟩
              simp only [hreport]
          | ok report =>
              refine Or.inr ⟨options, config, report, rfl, hconfig, hreport, fun _ => ?_⟩
              simp only [hreport]

/-- **Styling only wraps.**  Take styles that surround a text with markers which can be told from
the plain text form of a report and from each other.  Without its markers the styled text form is
the plain one, and each marker that opens is closed before another one opens.  And take a run of the
command.  If there is no escape character in the paths, links and headings of the report that it
prints, nor in the root marker, then its coloured output and its plain one differ by the sequences
of the colours alone, and nothing else about the run depends on colours. -/
theorem styling_wraps :
    (∀ (sheet : StyleSheet) (report : Report),
        StandOut sheet.markers (report.renderText .plain) →
        sheet.Wraps (report.renderText sheet.palette) (report.renderText .plain))
      ∧ ∀ (tree : FileTree) (arguments : List Text),
        (∀ options config report, Options.ofArguments arguments = .ok options →
          options.effectiveConfig tree = .ok config → auditTree config tree = .ok report →
          '\x1b' ∉ config.rootMarker ∧ report.Lacks '\x1b') →
        (run tree true arguments).status = (run tree false arguments).status
          ∧ (run tree true arguments).error = (run tree false arguments).error
          ∧ terminal.Wraps (run tree true arguments).output
              (run tree false arguments).output := by
  refine ⟨wraps_renderText, fun tree arguments h => ?_⟩
  rcases run_cases tree arguments with ⟨outcome, hnothing, hrun⟩ | ⟨options, config, report,
    harguments, hconfig, hreport, hrun⟩
  · rw [hrun true, hrun false, hnothing]
    exact ⟨rfl, rfl, Styled.nil.wraps (standOut_terminal List.not_mem_nil)⟩
  · obtain ⟨hmarker, hlacks⟩ := h options config report harguments hconfig hreport
    have hplain := notMem_render (by decide) (by decide) hreport hmarker hlacks options
    rw [hrun true, hrun false]
    exact ⟨rfl, rfl, (styled_render options report).wraps (standOut_terminal hplain)⟩

/-- Styles that surround a text with tags. -/
def tagSheet : StyleSheet :=
  ⟨⟨text "<b>", text "</b>"⟩, ⟨text "<em>", text "</em>"⟩, ⟨text "<code>", text "</code>"⟩,
    ⟨text "<strong>", text "</strong>"⟩⟩

/-- A report with a violation of each kind. -/
def staleReport : Report :=
  ⟨3, [⟨text "guides/Use.txt",
    [.upperCasePath, .invalidExtension, .linkExtension (text "old.txt") (text "txt"),
      .deprecatedLead (text "pages/old") (text "pages/"),
      .linkNotFound (text "gone") (text "/site/"), .topLevelHeading (text "Use"),
      .missingTitle]⟩]⟩

/-- The report on a document whose link leads nowhere. -/
def loneReport : Report :=
  ⟨1, [⟨text "a.md", [.linkNotFound (text "/docs/b/c") (text "/docs/")]⟩]⟩

/-- Arguments that name the root of `loneTree`. -/
def loneArguments : List Text := [text "-r", text "/docs"]

/-- The one file of `loneTree`. -/
def loneDiscovery : Discovery := ⟨[text "docs"], [[text "docs", text "a.md"]]⟩

theorem auditTree_loneTree : auditTree sampleConfig loneTree = .ok loneReport := by
  have hdiscover : discover loneTree sampleConfig.root = .ok loneDiscovery := rfl
  have hload : loneDiscovery.paths.mapM (Document.load loneTree loneDiscovery.root.toPath)
      = .ok [sampleFirst] := by
    rw [mapM_eq_ok_iff]
    exact congrArg (fun loaded => [loaded]) (Document.load_of_read_encode rfl _)
  have hlinks : Check.links sampleConfig loneDiscovery.root.toPath (.ordered loneDiscovery.paths)
      sampleFirst = [.linkNotFound (text "/docs/b/c") (text "/docs/")] := by
    refine Eq.trans (Check.links_of_loneLink body_sampleFirst (by decide) (by decide)
      (by decide) (by decide) _ _) ?_
    rfl
  have hviolations : (Auditor.ofDiscovery sampleConfig loneDiscovery).violations sampleFirst
      = [.linkNotFound (text "/docs/b/c") (text "/docs/")] := by
    change Check.case sampleFirst ++ (Check.extension sampleFirst ++ (Check.links sampleConfig
      loneDiscovery.root.toPath (.ordered loneDiscovery.paths) sampleFirst
        ++ (Check.heading sampleFirst ++ (Check.frontMatter sampleFirst ++ [])))) = _
    rw [hlinks]
    decide +kernel
  have haudit : (Auditor.ofDiscovery sampleConfig loneDiscovery).audit sampleFirst
      = ⟨text "a.md", [.linkNotFound (text "/docs/b/c") (text "/docs/")]⟩ := by
    rw [Auditor.audit, if_neg (by decide), hviolations]
    rfl
  rw [auditTree_of_mapM_load hdiscover hload, List.map_singleton, haudit]
  rfl

theorem styling_wraps_loneTree :
    StandOut tagSheet.markers (staleReport.renderText .plain)
      ∧ tagSheet.Wraps (staleReport.renderText tagSheet.palette) (staleReport.renderText .plain)
      ∧ loneReport.Lacks '\x1b'
      ∧ (run loneTree true loneArguments).output = loneReport.renderText .terminal
      ∧ terminal.Wraps (loneReport.renderText .terminal) (loneReport.renderText .plain) := by
  have hout : StandOut tagSheet.markers (staleReport.renderText .plain) :=
    .of_head? (c := '<') (by decide) (by decide) (by decide) (by decide +kernel)
  have harguments : Options.ofArguments loneArguments
      = .ok ⟨0, some (.ofString "/docs"), none, [], none, false⟩ := rfl
  have hconfig : Options.effectiveConfig
      ⟨0, some (.ofString "/docs"), none, [], none, false⟩ loneTree = .ok sampleConfig := rfl
  have hrun : ∀ colours, (run loneTree colours loneArguments).output
      = loneReport.renderText (if colours then .terminal else .plain) := by
    intro colours
    rw [run_of_arguments harguments, runOptions, hconfig]
    simp only [auditTree_loneTree]
    cases colours <;> rfl
  have hlacks : loneReport.Lacks '\x1b' := by
    rintro file (_ | ⟨_, ⟨⟩⟩)
    refine ⟨by decide, ?_⟩
    rintro violation (_ | ⟨_, ⟨⟩⟩) t ht
    cases ht
    decide
  obtain ⟨htags, hcolours⟩ := styling_wraps
  have hnone : ∀ options config report, Options.ofArguments loneArguments = .ok options →
      options.effectiveConfig loneTree = .ok config → auditTree config loneTree = .ok report →
      '\x1b' ∉ config.rootMarker ∧ report.Lacks '\x1b' := by
    intro options config report hoptions hload hreport
    obtain rfl := Except.ok.inj (harguments.symm.trans hoptions)
    obtain rfl := Except.ok.inj (hconfig.symm.trans hload)
    obtain rfl := Except.ok.inj (auditTree_loneTree.symm.trans hreport)
    exact ⟨by decide, hlacks⟩
  obtain ⟨_, _, hwraps⟩ := hcolours loneTree loneArguments hnone
  rw [hrun true, hrun false] at hwraps
  exact ⟨hout, htags tagSheet staleReport hout, hlacks, hrun true, hwraps⟩

end CommandLine

end DocAudit
