import DocAudit.Proofs.Auditor.RuleOrder
import DocAudit.Proofs.TreeAudit.Loading
import Mathlib.Data.List.Basic

/-!
# Edits are local

What an audit says about a file depends on the content of the file and on which
other files there are, and on nothing else.  The content of another file is not
looked at.  Another file can only make a link lead to a document, so that with
further files the violations are the same ones but for the links that lead to
one of them.

**Results.**
* `links_of_union`: the rule on links in a larger catalog.
* `violations_of_union`: all rules in a larger catalog.
* `exists_auditFile_of_mem_files`: the entry of a file in the report on a tree.
* `auditTree_local`: two trees that differ in the contents of files or in files
  that only one of them has.
-/

namespace DocAudit

namespace Catalog

/-- A catalog has the files of two others and no more. -/
def IsUnion (whole catalog added : Catalog) : Prop :=
  ∀ p, whole.contains p = (catalog.contains p || added.contains p)

end Catalog

namespace Check

/-- Whether a violation reports a link whose document a catalog has. -/
def isAnswered (config : Config) (root : Path) (added : Catalog) (document : Document) :
    Violation → Bool
  | .linkNotFound target _ =>
      hasDocument added (resolve config root document (.ofTarget config.rootMarker target))
  | _ => false

section

variable {config : Config} {root : Path} {document : Document} {whole catalog added : Catalog}

theorem isAnswered_of_rule_ne {v : Violation} (h : v.rule ≠ .links) :
    isAnswered config root added document v = false := by
  cases v with
  | linkNotFound target marker => exact absurd rfl h
  | _ => rfl

theorem hasDocument_of_union (h : whole.IsUnion catalog added) (stem : Path) :
    hasDocument whole stem = (hasDocument catalog stem || hasDocument added stem) := by
  simp only [hasDocument, markdownExtensions, List.any_cons, List.any_nil, Bool.or_false,
    h ⟨stem.text ++ text ".md"⟩, h ⟨stem.text ++ text ".mdx"⟩]
  ac_rfl

/-- In a larger catalog a link has the same violations, but it is not dead if the further files have
its document. -/
theorem link_of_union (h : whole.IsUnion catalog added) {l : Link}
    (hl : l = .ofTarget config.rootMarker l.target) :
    link config root whole document l
      = (link config root catalog document l).filter
        fun v => !isAnswered config root added document v := by
  unfold link
  split
  · have hextension : (l.extension?.toList.map (Violation.linkExtension l.target)).filter
        (fun v => !isAnswered config root added document v)
          = l.extension?.toList.map (Violation.linkExtension l.target) := by
      rw [List.filter_eq_self]
      intro v hv
      obtain ⟨extension, _, rfl⟩ := List.mem_map.1 hv
      rfl
    have hdeprecated : ((config.deprecatedLeads.filter fun lead => l.liesUnder lead).map
        (Violation.deprecatedLead l.target)).filter
          (fun v => !isAnswered config root added document v)
            = (config.deprecatedLeads.filter fun lead => l.liesUnder lead).map
              (Violation.deprecatedLead l.target) := by
      rw [List.filter_eq_self]
      intro v hv
      obtain ⟨lead, _, rfl⟩ := List.mem_map.1 hv
      rfl
    have hanswered :
        isAnswered config root added document (.linkNotFound l.target config.rootMarker)
          = hasDocument added (resolve config root document l) := by
      rw [isAnswered, ← hl]
    rw [List.filter_append, List.filter_append, hextension, hdeprecated, hasDocument_of_union h]
    cases hasDocument catalog (resolve config root document l) with
    | true => rfl
    | false =>
        simp only [Bool.false_or, Bool.false_eq_true, if_false, List.filter_cons, List.filter_nil,
          hanswered]
        cases hasDocument added (resolve config root document l) <;> rfl
  · rfl

/-- In a larger catalog the rule on links finds the same violations but those of links whose
document the further files have. -/
theorem links_of_union (h : whole.IsUnion catalog added) :
    links config root whole document
      = (links config root catalog document).filter
        fun v => !isAnswered config root added document v := by
  rw [links, links, List.filter_flatMap]
  refine List.flatMap_congr fun l hl => link_of_union h ?_
  exact Link.eq_ofTarget_of_mem_links (List.mem_filter.1 hl).1

end

end Check

namespace Auditor

section

variable {config : Config} {root : Path} {document : Document} {whole catalog added : Catalog}

/-- In a larger catalog a rule finds the same violations but those that the further files answer. -/
theorem check_of_union (h : whole.IsUnion catalog added) (rule : Rule) :
    (⟨config, root, whole⟩ : Auditor).check rule document
      = ((⟨config, root, catalog⟩ : Auditor).check rule document).filter
        fun v => !Check.isAnswered config root added document v := by
  by_cases hrule : rule = .links
  · subst hrule
    exact Check.links_of_union h
  · have hsame : (⟨config, root, whole⟩ : Auditor).check rule document
        = (⟨config, root, catalog⟩ : Auditor).check rule document := by
      cases rule with
      | links => exact absurd rfl hrule
      | _ => rfl
    rw [hsame, eq_comm, List.filter_eq_self]
    intro v hv
    have hv' : v.rule ≠ .links := by
      rw [rule_of_mem_check _ document hv]
      exact hrule
    rw [Check.isAnswered_of_rule_ne hv', Bool.not_false]

/-- In a larger catalog a document has the same violations in the same order, but those that the
further files answer. -/
theorem violations_of_union (h : whole.IsUnion catalog added) :
    ((⟨config, root, whole⟩ : Auditor).audit document).violations
      = ((⟨config, root, catalog⟩ : Auditor).audit document).violations.filter
        fun v => !Check.isAnswered config root added document v := by
  have hexempts : (⟨config, root, whole⟩ : Auditor).exempts document.relativePath
      = (⟨config, root, catalog⟩ : Auditor).exempts document.relativePath := rfl
  rw [audit, audit, hexempts]
  split
  · rfl
  · rw [violations, violations, List.filter_flatMap]
    exact List.flatMap_congr fun rule _ => check_of_union h rule

end

/-- Whether a link leads to a file can be tested. -/
instance (auditor : Auditor) (document : Document) (link : Link) (file : Place) :
    Decidable (auditor.LeadsTo document link file) :=
  inferInstanceAs (Decidable (∃ _ ∈ Check.markdownExtensions, _ = true))

/-- A violation reports a link as dead that leads to one of some files. -/
def ReportsLinkTo (auditor : Auditor) (document : Document) (files : List Place) : Violation → Prop
  | .linkNotFound target _ =>
      ∃ file ∈ files, auditor.LeadsTo document (.ofTarget auditor.config.rootMarker target) file
  | _ => False

instance (auditor : Auditor) (document : Document) (files : List Place) :
    DecidablePred (auditor.ReportsLinkTo document files)
  | .linkNotFound _ _ => inferInstanceAs (Decidable (∃ _ ∈ files, _))
  | .upperCasePath => inferInstanceAs (Decidable False)
  | .invalidExtension => inferInstanceAs (Decidable False)
  | .linkExtension _ _ => inferInstanceAs (Decidable False)
  | .deprecatedLead _ _ => inferInstanceAs (Decidable False)
  | .topLevelHeading _ => inferInstanceAs (Decidable False)
  | .missingTitle => inferInstanceAs (Decidable False)

/-- The catalog of some files has the document of a link exactly when the link leads to one of
them. -/
theorem hasDocument_ordered_iff (auditor : Auditor) (document : Document) (link : Link)
    (files : List Place) :
    Check.hasDocument (.ordered (files.map Place.toPath))
        (Check.resolve auditor.config auditor.root document link) = true
      ↔ ∃ file ∈ files, auditor.LeadsTo document link file := by
  simp only [Check.hasDocument, List.any_eq_true, Catalog.contains_ordered, List.mem_map,
    exists_exists_and_eq_and, LeadsTo, Path.same, beq_iff_eq]
  constructor
  · rintro ⟨extension, hextension, file, hfile, he⟩
    exact ⟨file, hfile, extension, hextension, he⟩
  · rintro ⟨file, hfile, extension, hextension, he⟩
    exact ⟨extension, hextension, file, hfile, he⟩

theorem isAnswered_ordered_iff (auditor : Auditor) (document : Document) (files : List Place)
    (v : Violation) :
    Check.isAnswered auditor.config auditor.root (.ordered (files.map Place.toPath)) document v
        = true
      ↔ auditor.ReportsLinkTo document files v := by
  cases v with
  | linkNotFound target marker => exact hasDocument_ordered_iff auditor document _ files
  | _ => simp [Check.isAnswered, ReportsLinkTo]

end Auditor

/-- The catalog of files is that of the files that were there before and of the further ones. -/
theorem Catalog.isUnion_ordered {before after : List Place} (h : ∀ file ∈ before, file ∈ after) :
    IsUnion (ordered (after.map Place.toPath)) (ordered (before.map Place.toPath))
      (ordered ((after.filter fun file => file ∉ before).map Place.toPath)) := by
  intro p
  rw [Bool.eq_iff_iff, Bool.or_eq_true, contains_ordered, contains_ordered, contains_ordered]
  simp only [List.mem_map, exists_exists_and_eq_and, List.mem_filter, decide_eq_true_eq]
  constructor
  · rintro ⟨file, hfile, he⟩
    by_cases hbefore : file ∈ before
    · exact Or.inl ⟨file, hbefore, he⟩
    · exact Or.inr ⟨file, ⟨hfile, hbefore⟩, he⟩
  · rintro (⟨file, hfile, he⟩ | ⟨file, ⟨hfile, _⟩, he⟩)
    · exact ⟨file, h file hfile, he⟩
    · exact ⟨file, hfile, he⟩

namespace Report

/-- The entry of a file in a report, if it has one. -/
def fileReport? (report : Report) (relativePath : Text) : Option FileReport :=
  report.files.find? fun file => file.path = relativePath

/-- The violations of a file in a report.  A file without an entry has none. -/
def violationsOf (report : Report) (relativePath : Text) : List Violation :=
  ((report.fileReport? relativePath).map FileReport.violations).getD []

/-- A file has an entry at its path unless it is clean, if no other file with violations has this
path. -/
theorem fileReport?_ofFiles {files : List FileReport} {file : FileReport} {path : Text}
    (hmem : file ∈ files) (hpath : file.isClean = false → file.path = path)
    (hunique : ∀ other ∈ files, other.isClean = false → other.path = path → other = file) :
    (ofFiles files).fileReport? path = if file.isClean then none else some file := by
  rw [fileReport?, ofFiles, List.find?_filter]
  split
  · rename_i hclean
    rw [List.find?_eq_none]
    intro other hother hkept
    obtain ⟨hother', hsame⟩ := of_decide_eq_true hkept
    rw [Bool.not_eq_true'] at hother'
    rw [hunique other hother hother' (of_decide_eq_true hsame), hclean] at hother'
    cases hother'
  · rename_i hclean
    rw [Bool.not_eq_true] at hclean
    have hsome : (files.find? fun other =>
        decide ((!other.isClean) = true ∧ decide (other.path = path) = true)).isSome := by
      rw [List.find?_isSome]
      exact ⟨file, hmem, by simpa [hpath hclean] using hclean⟩
    obtain ⟨found, hfound⟩ := Option.isSome_iff_exists.1 hsome
    have hkept := List.find?_some hfound
    obtain ⟨hother, hsame⟩ := of_decide_eq_true hkept
    rw [Bool.not_eq_true'] at hother
    rw [hfound, hunique found (List.mem_of_find?_eq_some hfound) hother (of_decide_eq_true hsame)]

end Report

section

variable {config : Config} {tree : FileTree} {discovery : Discovery}

/-- A file with violations is audited at its relative path. -/
theorem path_of_auditFile {auditor : Auditor} {path : Path} {file : FileReport}
    (h : auditor.auditFile tree path = .ok file) (hclean : file.isClean = false) :
    file.path = auditor.root.relativeTo path := by
  rcases Auditor.auditFile_eq_ok h with ⟨-, rfl⟩ | ⟨-, document, hload, rfl⟩
  · cases hclean
  · exact Document.relativePath_of_load hload

/-- The entry of a file in the report on a tree is that of its audit. -/
theorem exists_auditFile_of_mem_files (h : discover tree config.root = .ok discovery)
    {report : Report} (hreport : auditTree config tree = .ok report) {file : Place}
    (hfile : file ∈ discovery.files) :
    ∃ entry, (Auditor.ofDiscovery config discovery).auditFile tree file.toPath = .ok entry
      ∧ report.fileReport? (discovery.root.toPath.relativeTo file.toPath)
        = if entry.isClean then none else some entry := by
  obtain ⟨discovery', files, hdiscover, hfiles, rfl⟩ := auditTree_eq_ok hreport
  cases h.symm.trans hdiscover
  obtain ⟨entry, hentry, haudit⟩ := exists_ok_of_mem hfiles (List.mem_map_of_mem hfile)
  refine ⟨entry, haudit, Report.fileReport?_ofFiles hentry (path_of_auditFile haudit) ?_⟩
  intro other hother hclean hpath
  obtain ⟨path, hotherPath, hotherAudit⟩ := exists_of_mem_ok hfiles hother
  obtain ⟨otherFile, hotherFile, rfl⟩ := List.mem_map.1 hotherPath
  -- The same relative path is that of the same file, and it is audited once.
  rw [path_of_auditFile hotherAudit hclean] at hpath
  rw [Discovery.eq_of_relativeTo_eq h hotherFile hfile hpath] at hotherAudit
  cases hotherAudit.symm.trans haudit
  rfl

theorem violationsOf_of_auditFile (h : discover tree config.root = .ok discovery)
    {report : Report} (hreport : auditTree config tree = .ok report) {file : Place}
    (hfile : file ∈ discovery.files) {entry : FileReport}
    (haudit : (Auditor.ofDiscovery config discovery).auditFile tree file.toPath = .ok entry) :
    report.violationsOf (discovery.root.toPath.relativeTo file.toPath) = entry.violations := by
  obtain ⟨entry', haudit', hreported⟩ := exists_auditFile_of_mem_files h hreport hfile
  cases haudit'.symm.trans haudit
  rw [Report.violationsOf, hreported]
  split
  · rename_i hclean
    exact (List.isEmpty_iff.1 hclean).symm
  · rfl

/-- Which files are left unread depends on the root alone. -/
theorem skips_ofDiscovery {later : Discovery} (hroot : discovery.root = later.root) (path : Path) :
    (Auditor.ofDiscovery config later).skips path
      = (Auditor.ofDiscovery config discovery).skips path := by
  rw [Auditor.skips, Auditor.skips, Auditor.ofDiscovery, Auditor.ofDiscovery, hroot]
  rfl

theorem load_congr {other : FileTree} {root path : Path} (h : tree.read path = other.read path) :
    Document.load tree root path = Document.load other root path := by
  rw [Document.load, Document.load, h]

end

/-- **Edits are local.**  Take two trees in which discovery succeeds with one configuration and
comes to the same root.  There is a report on a tree exactly if each of its files is left unread or
can be loaded.  Let there be one on both of them.

If the same files were found, a file with the same content in both trees has the same entry in both
reports, or none in both, whatever the other files hold.

If every file of the first tree was found in the second one and has the same content there, the
violations of such a file in the second report are those in the first one, in the same order,
without the links reported as dead that lead to a file which only the second tree has.  A file that
is left unread has no violations in either report. -/
theorem auditTree_local {config : Config} {tree other : FileTree} {discovery later : Discovery}
    (h : discover tree config.root = .ok discovery)
    (hlater : discover other config.root = .ok later) (hroot : discovery.root = later.root) :
    ((∃ report, auditTree config tree = .ok report) ↔
        ∀ file ∈ discovery.files,
          (Auditor.ofDiscovery config discovery).skips file.toPath = true
            ∨ ∃ document, Document.load tree discovery.root.toPath file.toPath = .ok document)
      ∧ ∀ report laterReport, auditTree config tree = .ok report →
        auditTree config other = .ok laterReport →
        (discovery.files = later.files →
          ∀ file ∈ discovery.files, tree.read file.toPath = other.read file.toPath →
            report.fileReport? (discovery.root.toPath.relativeTo file.toPath)
              = laterReport.fileReport? (discovery.root.toPath.relativeTo file.toPath))
        ∧ ((∀ file ∈ discovery.files,
              file ∈ later.files ∧ tree.read file.toPath = other.read file.toPath) →
            ∀ file ∈ discovery.files,
              (∃ document,
                Document.load tree discovery.root.toPath file.toPath = .ok document
                  ∧ laterReport.violationsOf (discovery.root.toPath.relativeTo file.toPath)
                    = (report.violationsOf (discovery.root.toPath.relativeTo file.toPath)).filter
                      fun v => ¬ (Auditor.ofDiscovery config discovery).ReportsLinkTo document
                        (later.files.filter fun file => file ∉ discovery.files) v)
              ∨ (Auditor.ofDiscovery config discovery).skips file.toPath = true
                ∧ report.violationsOf (discovery.root.toPath.relativeTo file.toPath) = []
                ∧ laterReport.violationsOf (discovery.root.toPath.relativeTo file.toPath)
                  = []) := by
  refine ⟨exists_report_iff h, fun report laterReport hreport hlaterReport => ⟨?_, ?_⟩⟩
  · intro hfiles file hfile hread
    obtain ⟨entry, haudit, hentry⟩ := exists_auditFile_of_mem_files h hreport hfile
    have hsame : discovery = later := by
      cases discovery
      cases later
      simp_all
    rw [hsame] at hfile haudit hentry ⊢
    obtain ⟨laterEntry, hlaterAudit, hlaterEntry⟩ :=
      exists_auditFile_of_mem_files hlater hlaterReport hfile
    rw [Auditor.auditFile, ← load_congr hread, ← Auditor.auditFile, haudit] at hlaterAudit
    cases hlaterAudit
    rw [hentry, hlaterEntry]
  · intro hkept file hfile
    obtain ⟨hlaterFile, hread⟩ := hkept file hfile
    obtain ⟨entry, haudit, -⟩ := exists_auditFile_of_mem_files h hreport hfile
    rw [violationsOf_of_auditFile h hreport hfile haudit]
    rcases Auditor.auditFile_eq_ok haudit with ⟨hskips, rfl⟩ | ⟨hskips, document, hload, rfl⟩
    · have hlaterAudit : (Auditor.ofDiscovery config later).auditFile other file.toPath
          = .ok ⟨Auditor.forwardSlashes (later.root.toPath.relativeTo file.toPath), []⟩ := by
        rw [← skips_ofDiscovery hroot] at hskips
        exact if_pos hskips
      refine Or.inr ⟨hskips, rfl, ?_⟩
      rw [hroot, violationsOf_of_auditFile hlater hlaterReport hlaterFile hlaterAudit]
    · have hlaterAudit : (Auditor.ofDiscovery config later).auditFile other file.toPath
          = .ok ((Auditor.ofDiscovery config later).audit document) := by
        have hlaterLoad : Document.load other later.root.toPath file.toPath = .ok document := by
          rw [← hroot, ← load_congr hread]
          exact hload
        rw [← skips_ofDiscovery hroot] at hskips
        rw [Auditor.auditFile, hskips, if_neg Bool.false_ne_true]
        exact congrArg (Except.map _) hlaterLoad
      refine Or.inl ⟨document, hload, ?_⟩
      rw [hroot, violationsOf_of_auditFile hlater hlaterReport hlaterFile hlaterAudit]
      have hunion := Catalog.isUnion_ordered fun file hfile => (hkept file hfile).1
      rw [Auditor.ofDiscovery, Auditor.ofDiscovery, ← hroot, Discovery.paths, Discovery.paths,
        Auditor.violations_of_union hunion]
      refine List.filter_congr fun v _ => ?_
      rw [Bool.eq_iff_iff, Bool.not_eq_true', decide_eq_true_eq, ← Auditor.isAnswered_ordered_iff,
        Bool.not_eq_true]

/-- The first one of two documents that link to each other, alone. -/
def loneTree : FileTree where
  entries :=
    [([text "docs"], .directory),
      ([text "docs", text "a.md"], .file (some (Utf8.encode (sampleContent (text "/docs/b/c")))))]
  workingDirectory := []

/-- The two documents, of which the second one is empty. -/
def editedTree : FileTree :=
  { sampleTree with
    entries := ([text "docs", text "b", text "c.mdx"], .file (some [])) :: sampleTree.entries }

theorem auditTree_local_sampleTree :
    ∃ loneReport report editedReport, auditTree sampleConfig loneTree = .ok loneReport
      ∧ auditTree sampleConfig sampleTree = .ok report
      ∧ auditTree sampleConfig editedTree = .ok editedReport
      ∧ report.fileReport? (text "a.md") = editedReport.fileReport? (text "a.md")
      ∧ report.violationsOf (text "a.md")
        = (loneReport.violationsOf (text "a.md")).filter
          fun v => ¬ (Auditor.ofDiscovery sampleConfig
            ⟨[text "docs"], [[text "docs", text "a.md"]]⟩).ReportsLinkTo sampleFirst
              [[text "docs", text "b", text "c.mdx"]] v := by
  have hlone : discover loneTree sampleConfig.root
      = .ok ⟨[text "docs"], [[text "docs", text "a.md"]]⟩ := by
    decide +kernel
  have hedited : discover editedTree sampleConfig.root = .ok sampleDiscovery := by decide +kernel
  have hrelative : Path.relativeTo (Place.toPath [text "docs"])
      (Place.toPath [text "docs", text "a.md"]) = text "a.md" := rfl
  have hfirst : Document.load loneTree (Place.toPath [text "docs"])
      (Place.toPath [text "docs", text "a.md"]) = .ok sampleFirst :=
    Document.load_of_read_encode rfl _
  obtain ⟨hloneReadable, hgrown⟩ := auditTree_local hlone discover_sampleTree rfl
  obtain ⟨heditedReadable, hsame⟩ := auditTree_local hedited discover_sampleTree rfl
  obtain ⟨loneReport, hloneReport⟩ := hloneReadable.2 fun file hfile => by
    rw [List.mem_singleton.1 hfile]
    exact Or.inr ⟨sampleFirst, hfirst⟩
  obtain ⟨editedReport, heditedReport⟩ := heditedReadable.2 fun file hfile => by
    simp only [sampleDiscovery, List.mem_cons, List.not_mem_nil, or_false] at hfile
    rcases hfile with rfl | rfl
    · exact Or.inr ⟨sampleFirst, Document.load_of_read_encode rfl _⟩
    · exact Or.inr ⟨_, Document.load_of_read_encode (t := []) rfl _⟩
  have hentry := (hsame _ _ heditedReport auditTree_sampleTree).1 rfl [text "docs", text "a.md"]
    List.mem_cons_self rfl
  have hkept : ∀ file : Place, file ∈ [[text "docs", text "a.md"]] →
      file ∈ sampleDiscovery.files ∧ loneTree.read file.toPath = sampleTree.read file.toPath := by
    intro file hfile
    rw [List.mem_singleton.1 hfile]
    exact ⟨List.mem_cons_self, rfl⟩
  rw [show sampleDiscovery.root = [text "docs"] from rfl, hrelative] at hentry
  refine ⟨loneReport, _, editedReport, hloneReport, auditTree_sampleTree, heditedReport,
    hentry.symm, ?_⟩
  rcases (hgrown _ _ hloneReport auditTree_sampleTree).2 hkept [text "docs", text "a.md"]
    List.mem_cons_self with ⟨document, hload, hviolations⟩ | ⟨hskips, -, -⟩
  · cases hload.symm.trans hfirst
    rw [hrelative] at hviolations
    exact hviolations
  · cases hskips

end DocAudit
