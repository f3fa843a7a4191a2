import DocAudit.Auditor
import DocAudit.Proofs.Auditor.RuleOrder
import DocAudit.Proofs.Document.Layout
import DocAudit.Proofs.Markdown.Extraction
import DocAudit.Proofs.Markdown.SingleLine
import DocAudit.Proofs.Path.Extension
import DocAudit.Proofs.Text.Control
import DocAudit.Report

/-!
# The lines of the text form

A message shows texts of three origins.  Targets and headings are parts of a
line of the body.  Extensions and deprecated openings are parts of a target:
an opening is only shown where a target starts with it, so that an opening of
the configuration that has a line feed is never shown.  The root marker is
shown as it was configured.  Whoever keeps a control character out of these
texts therefore keeps it out of the messages.

Without line feeds in relative paths and in the root marker, the text form has
one line for the path of a file, one for each of its violations, and an empty
one.

**Results.**
* `notMem_message_of_mem_audit`: where a control character in a message comes from.
* `newline_notMem_of_mem_audit`: each message is a single line.
* `lines_renderFile`: the lines of the block about a file.
* `lines_renderText`: the lines of the text form are those of its blocks.
* `renderText_lineOriented`: how many lines the block about a file has.
-/

namespace DocAudit

namespace Link

theorem unslashed_suffix (link : Link) : link.unslashed <:+ link.target := by
  unfold unslashed
  cases h : Text.after? ['/'] link.target with
  | none => exact List.suffix_refl _
  | some rest => exact Text.suffix_of_after? h

/-- An opening that a target has is a part of the target. -/
theorem subset_of_liesUnder {link : Link} {lead : Text} (h : link.liesUnder lead = true) :
    lead ⊆ link.target := by
  obtain ⟨rest, hrest⟩ := Option.isSome_iff_exists.1 h
  rw [Text.after?_eq_some_iff] at hrest
  have hlead : lead ⊆ link.unslashed := hrest ▸ List.subset_append_left lead rest
  exact fun c hc => (unslashed_suffix link).subset (hlead hc)

/-- The extension of a link is a part of its target. -/
theorem subset_of_extension? {link : Link} {extension : Text}
    (h : link.extension? = some extension) : extension ⊆ link.target :=
  fun _ hc => List.takeWhile_subset _ ((suffix_of_extension? h).subset hc)

end Link

namespace Violation

/-- The link or the heading that a violation is about. -/
def quoted? : Violation → Option Text
  | topLevelHeading heading => some heading
  | violation => violation.link?

/-- The texts that the message of a violation shows. -/
def shown : Violation → List Text
  | upperCasePath => []
  | invalidExtension => []
  | linkExtension link extension => [link, extension]
  | deprecatedLead link lead => [link, lead]
  | linkNotFound link marker => [link, marker]
  | topLevelHeading heading => [heading]
  | missingTitle => []

/-- The words of a message have no control character, and so a message has one only if it shows
one. -/
theorem notMem_message {c : Char} (hc : c.toNat < 32) {violation : Violation}
    (h : ∀ part ∈ violation.shown, c ∉ part) : c ∉ violation.message := by
  -- The words must stay literals here: `notMem_text` finds their characters without decoding them.
  unfold message render
  cases violation with
  | upperCasePath | invalidExtension | missingTitle => exact Text.notMem_text hc rfl
  | linkExtension link part | deprecatedLead link part | linkNotFound link part =>
      have hlink := h link List.mem_cons_self
      have hpart := h part (List.mem_cons_of_mem _ List.mem_cons_self)
      simp only [id, List.mem_append, hlink, hpart, or_false, not_or]
      exact ⟨⟨Text.notMem_text hc rfl, Text.notMem_text hc rfl⟩, Text.notMem_text hc rfl⟩
  | topLevelHeading heading =>
      have hheading := h heading List.mem_cons_self
      simp only [id, List.mem_append, hheading, or_false, not_or]
      exact ⟨Text.notMem_text hc rfl, Text.notMem_text hc rfl⟩

end Violation

namespace Check

/-- Whatever a violation of a link shows is a part of its target or the root marker. -/
theorem subset_of_mem_shown {config : Config} {root : Path} {catalog : Catalog}
    {document : Document} {l : Link} {violation : Violation}
    (h : violation ∈ link config root catalog document l) {part : Text}
    (hpart : part ∈ violation.shown) : part ⊆ l.target ∨ part = config.rootMarker := by
  rcases (mem_link_iff.1 h).2 with ⟨extension, hextension, rfl⟩ | ⟨lead, _, hlead, rfl⟩ | ⟨_, rfl⟩
  · rcases List.mem_cons.1 hpart with rfl | hpart
    · exact Or.inl (List.Subset.refl _)
    · rw [List.mem_singleton.1 hpart]
      exact Or.inl (Link.subset_of_extension? hextension)
  · rcases List.mem_cons.1 hpart with rfl | hpart
    · exact Or.inl (List.Subset.refl _)
    · rw [List.mem_singleton.1 hpart]
      exact Or.inl (Link.subset_of_liesUnder hlead)
  · rcases List.mem_cons.1 hpart with rfl | hpart
    · exact Or.inl (List.Subset.refl _)
    · exact Or.inr (List.mem_singleton.1 hpart)

/-- A violation of a link shows its target. -/
theorem quoted?_of_mem_link {config : Config} {root : Path} {catalog : Catalog}
    {document : Document} {l : Link} {violation : Violation}
    (h : violation ∈ link config root catalog document l) :
    violation.quoted? = some l.target := by
  obtain ⟨_, ⟨_, _, rfl⟩ | ⟨_, _, _, rfl⟩ | ⟨_, rfl⟩⟩ := mem_link_iff.1 h <;> rfl

end Check

namespace Auditor

variable {auditor : Auditor} {document : Document}

/-- What is found in a document shows nothing of it, or it is about a link or a heading. -/
theorem mem_check_cases {rule : Rule} {violation : Violation}
    (h : violation ∈ auditor.check rule document) :
    (violation.quoted? = none ∧ violation.shown = [])
      ∨ (∃ target ∈ Markdown.targets document.body,
        violation ∈ Check.link auditor.config auditor.root auditor.catalog document
          (.ofTarget auditor.config.rootMarker target))
      ∨ ∃ heading ∈ Markdown.headings document.body, violation = .topLevelHeading heading := by
  cases rule with
  | case => exact Or.inl (Check.eq_of_mem_ite h ▸ ⟨rfl, rfl⟩)
  | extension => exact Or.inl (Check.eq_of_mem_ite h ▸ ⟨rfl, rfl⟩)
  | links =>
      obtain ⟨link, hlink, hviolation⟩ := List.mem_flatMap.1 h
      obtain ⟨target, htarget, rfl⟩ := List.mem_map.1 (List.mem_filter.1 hlink).1
      exact Or.inr (Or.inl ⟨target, htarget, hviolation⟩)
  | heading =>
      obtain ⟨heading, hheading, rfl⟩ := List.mem_map.1 h
      exact Or.inr (Or.inr ⟨heading, hheading, rfl⟩)
  | frontMatter => exact Or.inl (Check.eq_of_mem_ite h ▸ ⟨rfl, rfl⟩)

/-- Of what a violation shows, all but the root marker is part of the link or the heading that it is
about. -/
theorem notMem_of_mem_shown {c : Char} (hmarker : c ∉ auditor.config.rootMarker) {rule : Rule}
    {violation : Violation} (h : violation ∈ auditor.check rule document)
    (hquoted : ∀ t ∈ violation.quoted?, c ∉ t) : ∀ part ∈ violation.shown, c ∉ part := by
  intro part hpart
  rcases mem_check_cases h with ⟨_, hnone⟩ | ⟨target, _, hviolation⟩ | ⟨heading, _, rfl⟩
  · rw [hnone] at hpart
    cases hpart
  · rcases Check.subset_of_mem_shown hviolation hpart with hsubset | rfl
    · exact fun hm => hquoted _ (Check.quoted?_of_mem_link hviolation) (hsubset hm)
    · exact hmarker
  · rw [List.mem_singleton.1 hpart]
    exact hquoted heading rfl

/-- Links and headings stand on a line of the body. -/
theorem newline_notMem_of_mem_quoted? {rule : Rule} {violation : Violation}
    (h : violation ∈ auditor.check rule document) : ∀ t ∈ violation.quoted?, '\n' ∉ t := by
  intro t ht
  rcases mem_check_cases h with
    ⟨hnone, _⟩ | ⟨target, htarget, hviolation⟩ | ⟨heading, hheading, rfl⟩
  · rw [hnone] at ht
    cases ht
  · rw [Check.quoted?_of_mem_link hviolation] at ht
    cases ht
    exact Markdown.newline_notMem_of_mem_targets htarget
  · cases ht
    exact Markdown.newline_notMem_of_mem_headings hheading

theorem exists_mem_check_of_mem_audit {violation : Violation}
    (h : violation ∈ (auditor.audit document).violations) :
    ∃ rule, violation ∈ auditor.check rule document := by
  simp only [audit] at h
  split at h
  · cases h
  · obtain ⟨rule, _, hviolation⟩ := List.mem_flatMap.1 h
    exact ⟨rule, hviolation⟩

/-- A message about a document has a control character only if the root marker has it, or the link
or heading that the message is about. -/
theorem notMem_message_of_mem_audit {c : Char} (hc : c.toNat < 32)
    (hmarker : c ∉ auditor.config.rootMarker) {violation : Violation}
    (h : violation ∈ (auditor.audit document).violations)
    (hquoted : ∀ t ∈ violation.quoted?, c ∉ t) : c ∉ violation.message := by
  obtain ⟨rule, hviolation⟩ := exists_mem_check_of_mem_audit h
  exact Violation.notMem_message hc (notMem_of_mem_shown hmarker hviolation hquoted)

/-- Each message about a document is a single line, if the root marker has no line feed. -/
theorem newline_notMem_of_mem_audit (hmarker : '\n' ∉ auditor.config.rootMarker)
    {violation : Violation} (h : violation ∈ (auditor.audit document).violations) :
    '\n' ∉ violation.message := by
  obtain ⟨rule, hviolation⟩ := exists_mem_check_of_mem_audit h
  exact notMem_message_of_mem_audit (by decide) hmarker h
    (newline_notMem_of_mem_quoted? hviolation)

end Auditor

namespace Report

/-- The line about a violation. -/
def violationLine (violation : Violation) : Text := text "    💥 " ++ violation.message ++ ['\n']

/-- The lines of messages without line feeds, in front of a last text. -/
theorem lines_violations {violations : List Violation}
    (h : ∀ violation ∈ violations, '\n' ∉ violation.message) (t : Text) :
    Text.lines (violations.flatMap violationLine ++ t)
      = violations.map violationLine ++ Text.lines t := by
  induction violations with
  | nil => rfl
  | cons violation violations ih =>
      obtain ⟨hviolation, hviolations⟩ := List.forall_mem_cons.1 h
      have hline : '\n' ∉ text "    💥 " ++ violation.message := by
        rw [List.mem_append, not_or]
        exact ⟨Text.notMem_text (by decide) rfl, hviolation⟩
      have hfirst : violationLine violation ++ (violations.flatMap violationLine ++ t)
          = (text "    💥 " ++ violation.message)
            ++ '\n' :: (violations.flatMap violationLine ++ t) :=
        List.append_assoc _ _ _
      rw [List.flatMap_cons, List.append_assoc, hfirst, Text.lines_line hline, ih hviolations,
        List.map_cons, List.cons_append]
      rfl

/-- The lines of the block about a file: its path, its messages, and an empty line. -/
theorem lines_renderFile {file : FileReport} (hpath : '\n' ∉ file.path)
    (h : ∀ violation ∈ file.violations, '\n' ∉ violation.message) :
    Text.lines (renderFile .plain file)
      = (text "📄 " ++ '/' :: file.path ++ ['\n'])
        :: (file.violations.map violationLine ++ [['\n']]) := by
  have hline : '\n' ∉ text "📄 " ++ '/' :: file.path := by
    rw [List.mem_append, List.mem_cons, not_or, not_or]
    exact ⟨Text.notMem_text (by decide) rfl, by decide, hpath⟩
  have hblock : renderFile .plain file
      = (text "📄 " ++ '/' :: file.path)
        ++ '\n' :: (file.violations.flatMap violationLine ++ ['\n']) := by
    unfold renderFile
    rw [List.append_assoc, List.append_assoc, List.singleton_append]
    rfl
  rw [hblock, Text.lines_line hline, lines_violations h]
  rfl

/-- The block about a file ends its last line. -/
theorem getLast?_renderFile (palette : Palette) (file : FileReport) :
    (renderFile palette file).getLast? = some '\n' :=
  List.getLast?_concat

theorem lines_flatMap_renderFile (palette : Palette) (files : List FileReport) :
    Text.lines (files.flatMap (renderFile palette))
      = files.flatMap fun file => Text.lines (renderFile palette file) := by
  induction files with
  | nil => rfl
  | cons file files ih =>
      have hends : ∀ c ∈ (renderFile palette file).getLast?, c = '\n' := by
        intro c hc
        rw [getLast?_renderFile] at hc
        exact (Option.some.inj hc).symm
      rw [List.flatMap_cons, List.flatMap_cons, Text.lines_append hends, ih]

/-- The lines of the text form are those of its blocks. -/
theorem lines_renderText {report : Report} (h : report.isClean = false) (palette : Palette) :
    Text.lines (report.renderText palette)
      = report.files.flatMap fun file => Text.lines (renderFile palette file) := by
  rw [renderText, if_neg (Bool.eq_false_iff.1 h), lines_flatMap_renderFile]

/-- **The text form is line-oriented.**  Take documents whose relative paths have no line feed, each
with an auditor whose root marker has none.  Each message about them is a single line.  In the
report on them the text form is a row of blocks, one for each file with violations, and each block
has two lines more than the file has violations. -/
theorem renderText_lineOriented (audits : List (Auditor × Document))
    (haudits : ∀ audit ∈ audits,
      '\n' ∉ audit.2.relativePath ∧ '\n' ∉ audit.1.config.rootMarker) :
    (∀ audit ∈ audits, ∀ violation ∈ (audit.1.audit audit.2).violations,
        '\n' ∉ violation.message)
      ∧ (∀ file ∈ (ofFiles (audits.map fun audit => audit.1.audit audit.2)).files,
          0 < file.violations.length
            ∧ (Text.lines (renderFile .plain file)).length = file.violations.length + 2)
      ∧ ((ofFiles (audits.map fun audit => audit.1.audit audit.2)).isClean = false →
          Text.lines ((ofFiles (audits.map fun audit => audit.1.audit audit.2)).renderText .plain)
            = (ofFiles (audits.map fun audit => audit.1.audit audit.2)).files.flatMap
                fun file => Text.lines (renderFile .plain file)) := by
  have hmessages : ∀ audit ∈ audits, ∀ violation ∈ (audit.1.audit audit.2).violations,
      '\n' ∉ violation.message :=
    fun audit haudit _ hviolation =>
      Auditor.newline_notMem_of_mem_audit (haudits audit haudit).2 hviolation
  refine ⟨hmessages, ?_, fun hunclean => lines_renderText hunclean .plain⟩
  intro file hfile
  obtain ⟨hmem, hunclean⟩ := List.mem_filter.1 hfile
  obtain ⟨audit, haudit, rfl⟩ := List.mem_map.1 hmem
  constructor
  · rw [List.length_pos_iff]
    intro hnone
    rw [FileReport.isClean, hnone] at hunclean
    cases hunclean
  · rw [lines_renderFile (haudits audit haudit).1 (hmessages audit haudit), List.length_cons,
      List.length_append, List.length_map, List.length_singleton]

/-- An auditor that knows a deprecated opening with a line feed in it. -/
def brokenLeadAuditor : Auditor :=
  ⟨{ Config.standard with deprecatedLeads := [text "pages/", text "pages/\n"] }, .ofString "/site",
    .ordered []⟩

/-- A document with a violation of each kind whose message shows a part of the document. -/
def staleDocument : Document :=
  .ofFile (.ofString "/site") (.ofString "/site/guides/a.md")
    (text "# Use\n\n[x](<gone page>)\n\n[z]: pages/old.txt\n")

/-- The body of the document. -/
def staleBody : List Markdown.Piece :=
  [.plain (text "# Use\n\n"), .link (text "x") (.angled (text "gone page")) none,
    .plain (text "\n\n"), .definition (text "z") (text "pages/old.txt"), .plain ['\n']]

theorem renderText_lineOriented_staleDocument :
    ('\n' ∉ staleDocument.relativePath ∧ '\n' ∉ brokenLeadAuditor.config.rootMarker)
      ∧ (∀ violation ∈ (brokenLeadAuditor.audit staleDocument).violations,
          '\n' ∉ violation.message)
      ∧ (brokenLeadAuditor.audit staleDocument).violations.length = 6
      ∧ (Text.lines (renderFile .plain (brokenLeadAuditor.audit staleDocument))).length = 8
      ∧ Text.lines ((ofFiles [brokenLeadAuditor.audit staleDocument]).renderText .plain)
          = Text.lines (renderFile .plain (brokenLeadAuditor.audit staleDocument)) := by
  have haudits : ∀ audit ∈ [(brokenLeadAuditor, staleDocument)],
      '\n' ∉ audit.2.relativePath ∧ '\n' ∉ audit.1.config.rootMarker := by
    intro audit haudit
    rw [List.mem_singleton.1 haudit]
    decide +kernel
  obtain ⟨hmessages, hblocks, htext⟩ :=
    renderText_lineOriented [(brokenLeadAuditor, staleDocument)] haudits
  have hviolations : (brokenLeadAuditor.audit staleDocument).violations.length = 6 := by
    have hbody : staleDocument.body = Markdown.Piece.writeAll staleBody := by decide +kernel
    have hfound : Markdown.links brokenLeadAuditor.config.rootMarker staleDocument.body
        = [.ofTarget (text "/docs/") (text "gone page"),
            .ofTarget (text "/docs/") (text "pages/old.txt")] := by
      rw [hbody, Markdown.links, Markdown.Piece.targets_writeAll (by decide +kernel)]
      rfl
    have hlinks : (Check.links brokenLeadAuditor.config brokenLeadAuditor.root
        brokenLeadAuditor.catalog staleDocument).length = 4 := by
      rw [Check.links, hfound]
      decide +kernel
    change (Check.case staleDocument ++ (Check.extension staleDocument
      ++ (Check.links brokenLeadAuditor.config brokenLeadAuditor.root brokenLeadAuditor.catalog
          staleDocument
        ++ (Check.heading staleDocument ++ (Check.frontMatter staleDocument ++ []))))).length = 6
    simp only [List.length_append, hlinks]
    decide +kernel
  have hfiles : (ofFiles [brokenLeadAuditor.audit staleDocument]).files
      = [brokenLeadAuditor.audit staleDocument] := by
    simp only [ofFiles, List.filter_eq_self]
    intro file hfile
    rw [List.mem_singleton.1 hfile, FileReport.isClean, Bool.not_eq_true',
      List.isEmpty_eq_false_iff, ← List.length_pos_iff, hviolations]
    exact Nat.succ_pos 5
  have hfile : brokenLeadAuditor.audit staleDocument
      ∈ (ofFiles [brokenLeadAuditor.audit staleDocument]).files := by
    rw [hfiles]
    exact List.mem_cons_self
  refine ⟨haudits _ List.mem_cons_self, hmessages _ List.mem_cons_self, hviolations, ?_, ?_⟩
  · have hlines := (hblocks _ hfile).2
    rw [hviolations] at hlines
    exact hlines
  · have hunclean : (ofFiles [brokenLeadAuditor.audit staleDocument]).isClean = false := by
      rw [isClean, hfiles]
      rfl
    have hrow := htext hunclean
    rw [List.map_singleton] at hrow
    rw [hrow, hfiles, List.flatMap_singleton]

end Report

end DocAudit
