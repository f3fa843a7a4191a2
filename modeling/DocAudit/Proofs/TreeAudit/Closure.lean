import DocAudit.TreeAudit
import DocAudit.Proofs.Discovery.Listing
import DocAudit.Proofs.Document.Partition
import DocAudit.Proofs.Links.Existence
import DocAudit.Proofs.Path.Extension
import DocAudit.Proofs.Text.Decoding

/-!
# A clean tree is closed under its links

In a tree with a clean report every link that is looked up leads to a file that
was found.  Such a file is not hidden, so that the markdown extension that the
link was given is the extension of the file.  The file is no image therefore,
it was audited itself, and it passes every rule.

**Results.**
* `load_of_read_encode`: a file that holds a text is read as that text.
* `exempts_of_forwardSlashes`: a file that is left out unread is exempt.
* `extension?_of_leadsTo`: the extension of a file that a link leads to.
* `closed_of_isClean`: a clean tree is closed under its links.
-/

namespace DocAudit

theorem Document.relativePath_of_load {tree : FileTree} {root path : Path} {document : Document}
    (h : load tree root path = .ok document) : document.relativePath = root.relativeTo path := by
  unfold load at h
  split at h
  · cases h
  · cases h
    rfl

/-- A file that holds a text is read as that text. -/
theorem Document.load_of_read_encode {tree : FileTree} {path : Path} {t : Text}
    (h : tree.read path = .ok (Utf8.encode t)) (root : Path) :
    load tree root path = .ok (.ofFile root path t) := by
  rw [load, h]
  exact congrArg (fun content => Except.ok (ofFile root path content)) (Utf8.decodeLossy_encode t)

namespace Auditor

theorem takeWhile_map_forward (t : Text) :
    (t.map fun c => if c = '\\' then '/' else c).takeWhile (· != '/') = t.takeWhile (· != '/')
      ∨ ∃ s, t.takeWhile (· != '/')
          = (t.map fun c => if c = '\\' then '/' else c).takeWhile (· != '/') ++ '\\' :: s := by
  induction t with
  | nil => exact Or.inl rfl
  | cons c t ih =>
      by_cases hback : c = '\\'
      · right
        refine ⟨t.takeWhile (· != '/'), ?_⟩
        simp [hback]
      · by_cases hslash : c = '/'
        · left
          simp [hslash]
        · simp only [List.map_cons, if_neg hback]
          rw [List.takeWhile_cons_of_pos (by simpa using hslash),
            List.takeWhile_cons_of_pos (by simpa using hslash)]
          rcases ih with ih | ⟨s, ih⟩
          · exact Or.inl (by rw [ih])
          · exact Or.inr ⟨s, by rw [ih, List.cons_append]⟩

/-- The last segment between slashes ends with the last segment between slashes and
backslashes. -/
theorem lastSegment_forwardSlashes (path : Text) :
    Extension.lastSegment (forwardSlashes path) = Extension.lastSegment path
      ∨ ∃ s, Extension.lastSegment path
          = s ++ '\\' :: Extension.lastSegment (forwardSlashes path) := by
  unfold Extension.lastSegment forwardSlashes
  rw [← List.map_reverse]
  rcases takeWhile_map_forward path.reverse with h | ⟨s, h⟩
  · exact Or.inl (by rw [h])
  · exact Or.inr ⟨s.reverse, by rw [h]; simp⟩

/-- Taking backslashes for slashes can only hide an extension. -/
theorem extension?_of_forwardSlashes {path extension : Text}
    (h : extension? (forwardSlashes path) = some extension) :
    extension? path = some extension := by
  rw [extension?_eq_some_iff, exists_splitsInto_iff] at h ⊢
  obtain ⟨segment, rest, hsegment, hextension, hrest, c, hc, hdot⟩ := h
  rcases lastSegment_forwardSlashes path with he | ⟨s, he⟩
  · exact ⟨segment, rest, he ▸ hsegment, hextension, hrest, c, hc, hdot⟩
  · refine ⟨s ++ '\\' :: segment, rest, ?_, hextension, hrest, c,
      List.mem_append_right s (List.mem_cons_of_mem _ hc), hdot⟩
    rw [he, hsegment, List.append_assoc, List.cons_append]

/-- A file that is not even read is exempt. -/
theorem exempts_of_forwardSlashes {auditor : Auditor} {path : Text}
    (h : auditor.exempts (forwardSlashes path) = true) : auditor.exempts path = true := by
  rw [exempts, Option.any_eq_true] at h ⊢
  obtain ⟨extension, he, himage⟩ := h
  exact ⟨extension, extension?_of_forwardSlashes he, himage⟩

/-- A document that passes every rule. -/
structure Passes (auditor : Auditor) (document : Document) : Prop where
  isLowerCase : document.relativePath = Lowercase.ofText document.relativePath
  isMarkdown : ∃ extension ∈ Check.markdownExtensions, document.extension? = some extension
  links_eq_nil : Check.links auditor.config auditor.root auditor.catalog document = []
  headings_eq_nil : Markdown.headings document.body = []
  hasTitle : ∃ attributes, document.attributes = some attributes
    ∧ Attributes.has (text "title") attributes = true

theorem ite_eq_nil_iff {p : Prop} [Decidable p] (violation : Violation) :
    (if p then [] else [violation]) = [] ↔ p := by
  by_cases h : p
  · rw [if_pos h]
    exact ⟨fun _ => h, fun _ => rfl⟩
  · rw [if_neg h]
    exact ⟨fun e => absurd e (List.cons_ne_nil _ _), fun hp => absurd hp h⟩

theorem violations_eq_nil_iff_forall {auditor : Auditor} {document : Document} :
    auditor.violations document = [] ↔ ∀ rule, auditor.check rule document = [] := by
  rw [violations, List.flatMap_eq_nil_iff]
  exact ⟨fun h rule => h rule (Rule.mem_all rule), fun h rule _ => h rule⟩

/-- A document has no violations exactly when it passes every rule. -/
theorem violations_eq_nil_iff {auditor : Auditor} {document : Document} :
    auditor.violations document = [] ↔ auditor.Passes document := by
  have hcase : Check.case document = []
      ↔ document.relativePath = Lowercase.ofText document.relativePath := ite_eq_nil_iff _
  have hextension : Check.extension document = []
      ↔ ∃ extension ∈ Check.markdownExtensions, document.extension? = some extension := by
    rw [Check.extension, ite_eq_nil_iff, Option.any_eq_true]
    simp only [List.contains_iff_mem, and_comm]
  have htitle : Check.frontMatter document = []
      ↔ ∃ attributes, document.attributes = some attributes
        ∧ Attributes.has (text "title") attributes = true := by
    rw [Check.frontMatter, ite_eq_nil_iff, Option.any_eq_true]
  rw [violations_eq_nil_iff_forall]
  constructor
  · intro h
    exact ⟨hcase.1 (h .case), hextension.1 (h .extension), h .links,
      List.map_eq_nil_iff.1 (h .heading), htitle.1 (h .frontMatter)⟩
  · intro h rule
    cases rule with
    | case => exact hcase.2 h.isLowerCase
    | extension => exact hextension.2 h.isMarkdown
    | links => exact h.links_eq_nil
    | heading => exact List.map_eq_nil_iff.2 h.headings_eq_nil
    | frontMatter => exact htitle.2 h.hasTitle

/-- A file that has a report is left unread, or its document is loaded and audited. -/
theorem auditFile_eq_ok {auditor : Auditor} {tree : FileTree} {path : Path} {file : FileReport}
    (h : auditor.auditFile tree path = .ok file) :
    (auditor.skips path = true ∧ file = ⟨forwardSlashes (auditor.root.relativeTo path), []⟩)
      ∨ auditor.skips path = false ∧ ∃ document,
        Document.load tree auditor.root path = .ok document ∧ file = auditor.audit document := by
  rw [auditFile] at h
  split at h
  · rename_i hskips
    cases h
    exact Or.inl ⟨hskips, rfl⟩
  · rename_i hskips
    refine Or.inr ⟨eq_false_of_ne_true hskips, ?_⟩
    cases hload : Document.load tree auditor.root path with
    | error cause =>
        rw [hload] at h
        cases h
    | ok document =>
        rw [hload] at h
        cases h
        exact ⟨document, rfl, rfl⟩

/-- A file that has no report is read, and its document cannot be loaded. -/
theorem auditFile_eq_error {auditor : Auditor} {tree : FileTree} {path : Path} {cause : LoadError}
    (h : auditor.auditFile tree path = .error cause) :
    auditor.skips path = false ∧ Document.load tree auditor.root path = .error cause := by
  rw [auditFile] at h
  split at h
  · cases h
  · rename_i hskips
    refine ⟨eq_false_of_ne_true hskips, ?_⟩
    cases hload : Document.load tree auditor.root path with
    | error first =>
        rw [hload] at h
        cases h
        rfl
    | ok document =>
        rw [hload] at h
        cases h

/-- A clean file that is not exempt is read, and its document passes every rule. -/
theorem exists_passes_of_auditFile {auditor : Auditor} {tree : FileTree} {path : Path}
    {file : FileReport} (hexempt : auditor.exempts (auditor.root.relativeTo path) = false)
    (h : auditor.auditFile tree path = .ok file) (hclean : file.violations = []) :
    ∃ document, Document.load tree auditor.root path = .ok document
      ∧ auditor.Passes document := by
  rcases auditFile_eq_ok h with ⟨hskips, -⟩ | ⟨-, document, hload, rfl⟩
  · rw [exempts_of_forwardSlashes hskips] at hexempt
    cases hexempt
  · refine ⟨document, hload, violations_eq_nil_iff.1 ?_⟩
    rw [audit, Document.relativePath_of_load hload, hexempt] at hclean
    exact hclean

/-- The report on a document that passes every rule has no violations. -/
theorem auditFile_of_passes {auditor : Auditor} {tree : FileTree} {path : Path}
    {document : Document}
    (hfast : auditor.skips path = false)
    (hload : Document.load tree auditor.root path = .ok document)
    (hpasses : auditor.Passes document) :
    auditor.auditFile tree path = .ok ⟨document.relativePath, []⟩ := by
  rw [auditFile, hfast, hload, if_neg Bool.false_ne_true, Except.map, audit,
    violations_eq_nil_iff.2 hpasses, ite_self]

/-- A link of a document leads to a file: the path of the file is the path that the link resolves to
with an extension of markdown behind it. -/
def LeadsTo (auditor : Auditor) (document : Document) (link : Link) (file : Place) : Prop :=
  ∃ extension ∈ Check.markdownExtensions,
    Path.same ⟨(Check.resolve auditor.config auditor.root document link).text ++ extension⟩
      file.toPath = true

/-- A link that the rule on links passes leads to a file of the catalog. -/
theorem exists_leadsTo_of_links_eq_nil {config : Config} {discovery : Discovery}
    {document : Document}
    (h : Check.links config discovery.root.toPath (.ordered discovery.paths) document = [])
    {link : Link} (hmem : link ∈ Markdown.links config.rootMarker document.body)
    (hlink : link.IsLookedUp config) :
    ∃ file ∈ discovery.files, (ofDiscovery config discovery).LeadsTo document link file := by
  have hkept : link ∈ (Markdown.links config.rootMarker document.body).filter
      fun link => link.kind ≠ .external :=
    List.mem_filter.2 ⟨hmem, decide_eq_true hlink.not_external⟩
  have hnone := List.flatMap_eq_nil_iff.1 h link hkept
  rw [Check.link, if_pos hlink.isChecked, List.append_eq_nil_iff] at hnone
  have hfound := hnone.2
  split at hfound
  · rename_i hdocument
    obtain ⟨extension, hextension, hcontains⟩ := List.any_eq_true.1 hdocument
    obtain ⟨path, hpath, hcomponents⟩ := (Catalog.contains_ordered _ _).1 hcontains
    obtain ⟨file, hfile, rfl⟩ := List.mem_map.1 hpath
    exact ⟨file, hfile, extension, hextension, beq_iff_eq.2 hcomponents⟩
  · cases hfound

theorem markdownExtensions_forall :
    ∀ extension ∈ Check.markdownExtensions, '/' ∉ extension ∧ 2 < extension.length
      ∧ Extension.fromLastDot? extension = some extension ∧ extension.head? = some '.' := by
  decide

/-- A file that was found and that a link leads to has the extension that the link was given. -/
theorem extension?_of_leadsTo {auditor : Auditor} {document : Document} {link : Link}
    {root file : Place} (hbelow : Discovery.IsBelow root file)
    (h : auditor.LeadsTo document link file) :
    ∃ extension ∈ Check.markdownExtensions,
      extension? (root.toPath.relativeTo file.toPath) = some extension := by
  obtain ⟨extension, hextension, hsame⟩ := h
  obtain ⟨names, hne, hnames, rfl⟩ := hbelow
  have hsegment : ∀ name ∈ names, Path.IsSegment name :=
    fun name hname => Place.isSegment_of_isName (hnames name hname).1
  obtain ⟨hslash, hlength, hdot, hhead⟩ := markdownExtensions_forall extension hextension
  obtain ⟨front, stem, hstem, hcomponents⟩ := Path.exists_components_append hslash hlength
    (Check.resolve auditor.config auditor.root document link).text
  obtain ⟨directories, last, rfl⟩ : ∃ directories last, names = directories ++ [last] :=
    ⟨_, _, (List.dropLast_concat_getLast hne).symm⟩
  -- The path of the file ends with its last name, and the path of the link with the extension.
  rw [Path.same, beq_iff_eq, hcomponents, Place.components_toPath_append root hsegment,
    List.map_append, ← List.append_assoc] at hsame
  have hlast : last = stem ++ extension := by
    have := (List.append_inj' hsame rfl).2
    simpa using this.symm
  have hhidden : Discovery.isHidden last = false :=
    (hnames last (List.mem_append_right _ (List.mem_singleton_self _))).2
  have hstemne : stem ≠ [] := by
    rintro rfl
    rw [hlast, List.nil_append, Discovery.isHidden_text, hhead] at hhidden
    cases hhidden
  have hstemhead : stem.head? ≠ some '.' := by
    intro he
    rw [hlast, Discovery.isHidden_text, List.head?_append, he] at hhidden
    cases hhidden
  have hlastslash : '/' ∉ last := by
    rw [hlast, List.mem_append, not_or]
    exact ⟨hstem, hslash⟩
  refine ⟨extension, hextension, ?_⟩
  rw [Place.relativeTo_toPath_append root hsegment, extension?_joinWith_concat hlastslash, hlast]
  rw [hlast] at hlastslash
  exact extension?_append hstemne hstemhead hlastslash hdot

end Auditor

theorem auditTree_eq_ok {config : Config} {tree : FileTree} {report : Report}
    (h : auditTree config tree = .ok report) :
    ∃ discovery files, discover tree config.root = .ok discovery
      ∧ discovery.paths.mapM ((Auditor.ofDiscovery config discovery).auditFile tree) = .ok files
      ∧ report = .ofFiles files := by
  unfold auditTree at h
  split at h
  · cases h
  · rename_i discovery hdiscover
    split at h
    · cases h
    · rename_i files hfiles
      cases h
      exact ⟨discovery, files, hdiscover, hfiles, rfl⟩

theorem violations_eq_nil_of_isClean {files : List FileReport}
    (h : (Report.ofFiles files).isClean = true) : ∀ file ∈ files, file.violations = [] := by
  intro file hfile
  rw [Report.isClean, List.isEmpty_iff, Report.ofFiles, List.filter_eq_nil_iff] at h
  have hclean := h file hfile
  simpa [FileReport.isClean] using hclean

/-- **A clean tree is closed under its links.**  If no extension of markdown is one of an image and
the report on a tree is clean, then every link of a file that is looked up leads to a file that was
found and that passes every rule. -/
theorem closed_of_isClean {config : Config} {tree : FileTree} {report : Report}
    (hmarkdown : ∀ extension ∈ Check.markdownExtensions, extension ∉ config.imageExtensions)
    (h : auditTree config tree = .ok report) (hclean : report.isClean = true) :
    ∃ discovery auditor, discover tree config.root = .ok discovery
      ∧ auditor = Auditor.ofDiscovery config discovery
      ∧ ∀ file ∈ discovery.files,
        auditor.exempts (auditor.root.relativeTo file.toPath) = false →
        ∃ document, Document.load tree auditor.root file.toPath = .ok document
          ∧ ∀ link ∈ Markdown.links config.rootMarker document.body, link.IsLookedUp config →
            ∃ goal ∈ discovery.files, auditor.LeadsTo document link goal
              ∧ ∃ goalDocument, Document.load tree auditor.root goal.toPath = .ok goalDocument
                ∧ auditor.Passes goalDocument := by
  obtain ⟨discovery, files, hdiscover, hfiles, rfl⟩ := auditTree_eq_ok h
  refine ⟨discovery, _, hdiscover, rfl, ?_⟩
  have passes : ∀ file ∈ discovery.files,
      (Auditor.ofDiscovery config discovery).exempts
        (discovery.root.toPath.relativeTo file.toPath) = false →
      ∃ document, Document.load tree discovery.root.toPath file.toPath = .ok document
        ∧ (Auditor.ofDiscovery config discovery).Passes document := by
    intro file hfile hexempt
    obtain ⟨result, hresult, haudit⟩ := exists_ok_of_mem hfiles (List.mem_map_of_mem hfile)
    exact Auditor.exists_passes_of_auditFile hexempt haudit
      (violations_eq_nil_of_isClean hclean result hresult)
  intro file hfile hexempt
  obtain ⟨document, hload, hpasses⟩ := passes file hfile hexempt
  refine ⟨document, hload, ?_⟩
  intro link hmem hlink
  obtain ⟨goal, hgoal, hleads⟩ :=
    Auditor.exists_leadsTo_of_links_eq_nil hpasses.links_eq_nil hmem hlink
  refine ⟨goal, hgoal, hleads, passes goal hgoal ?_⟩
  obtain ⟨extension, hextension, he⟩ :=
    Auditor.extension?_of_leadsTo (Discovery.isBelow_of_mem_files hdiscover goal hgoal) hleads
  have himage : config.isImageExtension extension = false := by
    simpa [Config.isImageExtension] using hmarkdown extension hextension
  rw [Auditor.exempts, he]
  exact himage

/-- A body that is one link has no heading. -/
theorem Markdown.headings_loneLink {label target : Text} (htick : tick ∉ loneLink label target)
    (hnewline : '\n' ∉ loneLink label target) : headings (loneLink label target) = [] := by
  rw [headings, stripFenced, Construct.erase_of_notMem fenced_opensWith htick,
    Text.splitOn_of_notMem hnewline]
  rfl

/-- A configuration with an absolute root. -/
def sampleConfig : Config := { Config.standard with root := .path (.ofString "/docs") }

/-- A document with a title and a link. -/
def sampleContent (target : Text) : Text :=
  text "---\ntitle: A\n---\n" ++ Markdown.loneLink (text "x") target

/-- Two documents that link to each other. -/
def sampleTree : FileTree where
  entries :=
    [([text "docs"], .directory), ([text "docs", text "b"], .directory),
      ([text "docs", text "a.md"], .file (some (Utf8.encode (sampleContent (text "/docs/b/c"))))),
      ([text "docs", text "b", text "c.mdx"],
        .file (some (Utf8.encode (sampleContent (text "../a#top")))))]
  workingDirectory := []

/-- The files of the tree. -/
def sampleDiscovery : Discovery :=
  ⟨[text "docs"], [[text "docs", text "a.md"], [text "docs", text "b", text "c.mdx"]]⟩

/-- The first document. -/
def sampleFirst : Document :=
  ⟨.ofString "/docs/a.md", text "a.md", sampleContent (text "/docs/b/c")⟩

/-- The second document. -/
def sampleSecond : Document :=
  ⟨.ofString "/docs/b/c.mdx", text "b/c.mdx", sampleContent (text "../a#top")⟩

/-- The link of the first document. -/
def sampleLink : Link := .ofTarget sampleConfig.rootMarker (text "/docs/b/c")

theorem split_sampleContent (target : Text) :
    FrontMatter.split (sampleContent target)
      = ⟨Attributes.ofBlock? (text "title: A\n"), Markdown.loneLink (text "x") target⟩ := by
  have hblock : text "---\ntitle: A\n---\n"
      = text "---\n" ++ text "title: A\n" ++ text "---\n" := by decide
  have hcontent : sampleContent target = text "---\n" ++ text "title: A\n" ++ text "---\n"
      ++ Markdown.loneLink (text "x") target :=
    congrArg (· ++ Markdown.loneLink (text "x") target) hblock
  have hwhole : ∀ c ∈ (text "title: A\n").getLast?, c = '\n' :=
    fun _ hc => (Option.some.inj hc).symm
  exact (congrArg FrontMatter.split hcontent).trans
    (FrontMatter.split_dashed hwhole (by decide) _)

theorem body_of_sampleContent {document : Document} {target : Text}
    (h : document.content = sampleContent target) :
    document.body = Markdown.loneLink (text "x") target := by
  rw [Document.body_eq, h, split_sampleContent]

/-- With its title and its link such a document passes every rule if its path and its link do. -/
theorem passes_of_sampleContent {auditor : Auditor} {document : Document} (target : Text)
    (hcontent : document.content = sampleContent target)
    (htarget : Markdown.tick ∉ target ∧ '\n' ∉ target)
    (hcase : document.relativePath = Lowercase.ofText document.relativePath)
    (hextension : ∃ extension ∈ Check.markdownExtensions, document.extension? = some extension)
    (hlinks : Check.links auditor.config auditor.root auditor.catalog document = []) :
    auditor.Passes document := by
  have htitle : (Attributes.ofBlock? (text "title: A\n")).any (Attributes.has (text "title"))
      = true := by
    decide +kernel
  refine ⟨hcase, hextension, hlinks, ?_, ?_⟩
  · rw [body_of_sampleContent hcontent]
    exact Markdown.headings_loneLink
      (Markdown.notMem_loneLink (by decide) (by decide) (by decide) htarget.1 (by decide))
      (Markdown.notMem_loneLink (by decide) (by decide) (by decide) htarget.2 (by decide))
  · rw [← Option.any_eq_true, Document.attributes, hcontent, split_sampleContent]
    exact htitle

theorem body_sampleFirst :
    sampleFirst.body = Markdown.loneLink (text "x") (text "/docs/b/c") := body_of_sampleContent rfl

theorem passes_sampleFirst :
    (Auditor.ofDiscovery sampleConfig sampleDiscovery).Passes sampleFirst := by
  refine passes_of_sampleContent (text "/docs/b/c") rfl (by decide) rfl
    ⟨text ".md", by decide, rfl⟩ ?_
  refine (Check.links_of_loneLink body_sampleFirst (by decide) (by decide) (by decide) (by decide)
    _ _).trans ?_
  rfl

theorem passes_sampleSecond :
    (Auditor.ofDiscovery sampleConfig sampleDiscovery).Passes sampleSecond := by
  refine passes_of_sampleContent (text "../a#top") rfl (by decide) rfl
    ⟨text ".mdx", by decide, rfl⟩ ?_
  refine (Check.links_of_loneLink (body_of_sampleContent rfl) (by decide) (by decide) (by decide)
    (by decide) _ _).trans ?_
  rfl

theorem discover_sampleTree : discover sampleTree sampleConfig.root = .ok sampleDiscovery := rfl

theorem load_sampleFirst :
    Document.load sampleTree sampleDiscovery.root.toPath (.ofString "/docs/a.md")
      = .ok sampleFirst :=
  Document.load_of_read_encode rfl _

theorem auditTree_sampleTree : auditTree sampleConfig sampleTree = .ok ⟨2, []⟩ := by
  have hfirst : (Auditor.ofDiscovery sampleConfig sampleDiscovery).auditFile sampleTree
      (.ofString "/docs/a.md") = .ok ⟨text "a.md", []⟩ :=
    Auditor.auditFile_of_passes rfl load_sampleFirst passes_sampleFirst
  have hsecond : (Auditor.ofDiscovery sampleConfig sampleDiscovery).auditFile sampleTree
      (.ofString "/docs/b/c.mdx") = .ok ⟨text "b/c.mdx", []⟩ :=
    Auditor.auditFile_of_passes rfl (Document.load_of_read_encode rfl _) passes_sampleSecond
  have hpaths : sampleDiscovery.paths = [.ofString "/docs/a.md", .ofString "/docs/b/c.mdx"] := rfl
  have hfiles : sampleDiscovery.paths.mapM
      ((Auditor.ofDiscovery sampleConfig sampleDiscovery).auditFile sampleTree)
        = .ok [⟨text "a.md", []⟩, ⟨text "b/c.mdx", []⟩] := by
    rw [mapM_eq_ok_iff, hpaths, List.map_cons, List.map_cons, hfirst, hsecond]
    rfl
  rw [auditTree, discover_sampleTree]
  simp only [hfiles]
  rfl

theorem closed_of_isClean_sampleTree :
    ∃ goal ∈ sampleDiscovery.files,
      (Auditor.ofDiscovery sampleConfig sampleDiscovery).LeadsTo sampleFirst sampleLink goal
        ∧ ∃ goalDocument,
          Document.load sampleTree sampleDiscovery.root.toPath goal.toPath = .ok goalDocument
            ∧ (Auditor.ofDiscovery sampleConfig sampleDiscovery).Passes goalDocument := by
  obtain ⟨discovery, auditor, hdiscover, rfl, hclosed⟩ :=
    closed_of_isClean (by decide) auditTree_sampleTree rfl
  rw [discover_sampleTree] at hdiscover
  cases hdiscover
  obtain ⟨document, hload, hlinks⟩ :=
    hclosed [text "docs", text "a.md"] List.mem_cons_self rfl
  have hsame : Except.ok document = (Except.ok sampleFirst : Except LoadError Document) :=
    hload.symm.trans load_sampleFirst
  cases hsame
  have hmem : sampleLink ∈ Markdown.links sampleConfig.rootMarker sampleFirst.body := by
    rw [body_sampleFirst, Markdown.links_loneLink (by decide) (by decide) (by decide)]
    exact List.mem_cons_self
  have hlink : sampleLink.IsLookedUp sampleConfig := by
    have hnone : sampleLink.extension? = none := rfl
    refine ⟨by decide, by decide, ?_, by decide⟩
    intro extension hextension
    rw [hnone] at hextension
    cases hextension
  exact hlinks sampleLink hmem hlink

end DocAudit
