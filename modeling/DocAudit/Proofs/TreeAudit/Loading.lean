import DocAudit.Proofs.TreeAudit.Closure

/-!
# Files that are not read

The audit of a tree leaves the files unread that are exempt by their relative
paths, and for that it takes the backslashes in their names for slashes.  Any
other file is read, and there is a report only if it can be loaded.

The report does not show which files were read.  What is left unread is exempt,
an exempt file is clean, and the paths of clean files do not come into the
report.  So it is the report that the audit of all documents makes, as long as
there are all of them.  A file that is left unread can be one that cannot be
loaded, and then there is a report all the same.

**Results.**
* `eq_of_relativeTo_eq`: files that were found differ in their relative paths.
* `exists_load_iff_of_mem_files`: which of them can be loaded.
* `auditFile_of_load`: the report on a file, once its document is loaded.
* `auditTree_of_mapM_load`: the report on a tree, once its documents are loaded.
* `auditTree_eq_ok_iff`: when there is a report, and what it says.
* `exists_report_iff`: when there is a report, file by file.
* `auditTree_eq_load_error`: what there is else.
* `exists_mem_audit_of_auditTree`: where a violation in a report comes from.
* `auditTree_eq_ofFiles_audit`: the report on a tree against that on all its
  documents.
-/

namespace DocAudit

namespace Discovery

variable {tree : FileTree} {rootName : RootName} {discovery : Discovery}

/-- Files that were found differ in their relative paths. -/
theorem eq_of_relativeTo_eq (h : discover tree rootName = .ok discovery) {file other : Place}
    (hfile : file ∈ discovery.files) (hother : other ∈ discovery.files)
    (he : discovery.root.toPath.relativeTo file.toPath
      = discovery.root.toPath.relativeTo other.toPath) : file = other := by
  obtain ⟨names, hne, hnames, rfl⟩ := isBelow_of_mem_files h file hfile
  obtain ⟨otherNames, hotherNe, hotherNames, rfl⟩ := isBelow_of_mem_files h other hother
  have hsegment : ∀ name ∈ names, Path.IsSegment name :=
    fun name hname => Place.isSegment_of_isName (hnames name hname).1
  have hotherSegment : ∀ name ∈ otherNames, Path.IsSegment name :=
    fun name hname => Place.isSegment_of_isName (hotherNames name hname).1
  rw [Place.relativeTo_toPath_append _ hsegment,
    Place.relativeTo_toPath_append _ hotherSegment] at he
  have hsplit := congrArg (Text.splitOn '/') he
  rw [Text.splitOn_joinWith hne fun name hname => (hsegment name hname).slash_notMem,
    Text.splitOn_joinWith hotherNe fun name hname => (hotherSegment name hname).slash_notMem]
    at hsplit
  rw [hsplit]

/-- A file that was found can be loaded exactly if the system gives its content for its path. -/
theorem exists_load_iff_of_mem_files (h : discover tree rootName = .ok discovery) {file : Place}
    (hfile : file ∈ discovery.files) (root : Path) :
    (∃ document, Document.load tree root file.toPath = .ok document) ↔
      ∃ content, tree.opened? file = some (.file (some content)) := by
  obtain ⟨-, hdirectory, hwalk⟩ := walk_of_discover h
  obtain ⟨names, hbehind, hfound⟩ := (mem_walk_iff hdirectory hwalk file).1 hfile
  change file = discovery.root ++ names at hbehind
  have hnames : ∀ name ∈ file, FileName.isName name = true := by
    rw [hbehind]
    intro name hname
    rcases List.mem_append.1 hname with hname | hname
    · exact FileTree.isName_of_mem_of_isSome (FileTree.isSome_of_isDirectory hdirectory) name hname
    · exact (hfound.forall_isName hdirectory name hname).1
  obtain ⟨content, htarget⟩ : ∃ content, tree.target? file = some (.file content) := by
    obtain ⟨-, -, -, -, -, hfile⟩ := (isListed_append_iff hdirectory).2 hfound
    rw [hbehind]
    exact hfile
  have hread := FileTree.read_toPath hnames htarget
  have hload : (∃ document, Document.load tree root file.toPath = .ok document)
      ↔ (tree.read file.toPath).toOption.isSome := by
    rw [Document.load]
    cases tree.read file.toPath <;> simp [Except.toOption]
  rw [hload, hread, FileTree.opened?, htarget]
  split
  · simp
  · cases content <;> simp

end Discovery

namespace Auditor

variable {auditor : Auditor} {tree : FileTree} {path : Path} {document : Document}

/-- The report on a document whose content is looked at only if its relative path, with slashes for
its backslashes, does not tell that it is exempt. -/
def skim (auditor : Auditor) (document : Document) : FileReport :=
  let relativePath := forwardSlashes document.relativePath
  if auditor.exempts relativePath then ⟨relativePath, []⟩ else auditor.audit document

/-- The report on a file, once its document is loaded. -/
theorem auditFile_of_load (h : Document.load tree auditor.root path = .ok document) :
    auditor.auditFile tree path = .ok (auditor.skim document) := by
  rw [auditFile, skim, skips, Document.relativePath_of_load h, h]
  split <;> rfl

/-- A document that is only skimmed would be found clean. -/
theorem skim_eq_or_isClean (auditor : Auditor) (document : Document) :
    auditor.skim document = auditor.audit document
      ∨ (auditor.skim document).isClean = true ∧ (auditor.audit document).isClean = true := by
  rw [skim]
  split
  · rename_i hexempt
    refine Or.inr ⟨rfl, ?_⟩
    rw [audit, if_pos (exempts_of_forwardSlashes hexempt)]
    rfl
  · exact Or.inl rfl

theorem isClean_skim (auditor : Auditor) (document : Document) :
    (auditor.skim document).isClean = (auditor.audit document).isClean := by
  rcases skim_eq_or_isClean auditor document with he | ⟨hskim, haudit⟩
  · rw [he]
  · rw [hskim, haudit]

/-- The paths of the files that are read. -/
def readPaths (auditor : Auditor) (paths : List Path) : List Path :=
  paths.filter fun path => !auditor.skips path

theorem mem_readPaths_iff {paths : List Path} :
    path ∈ auditor.readPaths paths ↔ path ∈ paths ∧ auditor.skips path = false := by
  rw [readPaths, List.mem_filter, Bool.not_eq_true']

theorem readPaths_cons_of_skips (h : auditor.skips path = true) (paths : List Path) :
    auditor.readPaths (path :: paths) = auditor.readPaths paths :=
  List.filter_cons_of_neg (by simp [h])

theorem readPaths_cons_of_not_skips (h : auditor.skips path = false) (paths : List Path) :
    auditor.readPaths (path :: paths) = path :: auditor.readPaths paths :=
  List.filter_cons_of_pos (by simp [h])

/-- Where each file has a report, the files that are read can be loaded, and the violations are
those of their documents. -/
theorem exists_documents_of_mapM_auditFile {paths : List Path} {files : List FileReport}
    (h : paths.mapM (auditor.auditFile tree) = .ok files) :
    ∃ documents, (auditor.readPaths paths).mapM (Document.load tree auditor.root) = .ok documents
      ∧ Report.ofFiles files
        = ⟨paths.length, (documents.map auditor.audit).filter fun file => !file.isClean⟩ := by
  induction paths generalizing files with
  | nil =>
      cases h
      exact ⟨[], rfl, rfl⟩
  | cons path paths ih =>
      rw [mapM_eq_ok_iff] at h
      cases files with
      | nil => cases h
      | cons file files =>
          obtain ⟨hfile, hfiles⟩ := List.cons.inj h
          obtain ⟨documents, hdocuments, hreport⟩ := ih (mapM_eq_ok_iff.2 hfiles)
          obtain ⟨hlength, hrest⟩ := Report.mk.inj hreport
          rcases auditFile_eq_ok hfile with ⟨hskips, rfl⟩ | ⟨hskips, document, hload, rfl⟩
          · refine ⟨documents, by rw [readPaths_cons_of_skips hskips, hdocuments], ?_⟩
            rw [Report.ofFiles, List.length_cons, hlength, ← hrest]
            rfl
          · refine ⟨document :: documents, ?_, ?_⟩
            · rw [readPaths_cons_of_not_skips hskips, mapM_eq_ok_iff, List.map_cons, List.map_cons,
                hload, mapM_eq_ok_iff.1 hdocuments]
            · rw [Report.ofFiles, List.length_cons, hlength, List.filter_cons, hrest, List.map_cons,
                List.filter_cons, List.length_cons]

end Auditor

/-- Skimming the documents makes the report that their audit makes. -/
theorem Report.ofFiles_skim (auditor : Auditor) (documents : List Document) :
    ofFiles (documents.map auditor.skim) = ofFiles (documents.map auditor.audit) := by
  have hfiles : (documents.map auditor.skim).filter (fun file => !file.isClean)
      = (documents.map auditor.audit).filter fun file => !file.isClean := by
    induction documents with
    | nil => rfl
    | cons document documents ih =>
        rw [List.map_cons, List.map_cons, List.filter_cons, List.filter_cons, ih,
          Auditor.isClean_skim]
        rcases Auditor.skim_eq_or_isClean auditor document with he | ⟨_, hclean⟩
        · rw [he]
        · rw [hclean]
          rfl
  rw [ofFiles, ofFiles, hfiles, List.length_map, List.length_map]

section

variable {config : Config} {tree : FileTree} {discovery : Discovery} {report : Report}

/-- Once the documents of all files are loaded, the report on the tree is made of their audit. -/
theorem auditTree_of_mapM_load (h : discover tree config.root = .ok discovery)
    {documents : List Document}
    (hdocuments : discovery.paths.mapM (Document.load tree discovery.root.toPath)
      = .ok documents) :
    auditTree config tree
      = .ok (.ofFiles (documents.map (Auditor.ofDiscovery config discovery).audit)) := by
  have haudits : discovery.paths.mapM ((Auditor.ofDiscovery config discovery).auditFile tree)
      = .ok (documents.map (Auditor.ofDiscovery config discovery).skim) :=
    mapM_map_of_forall (fun _ _ hload => Auditor.auditFile_of_load hload) hdocuments
  rw [auditTree, h]
  simp only [haudits]
  rw [Report.ofFiles_skim]

/-- There is a report exactly if the files that are read can be loaded.  It counts all files, and it
lists the violations of those that are read. -/
theorem auditTree_eq_ok_iff (h : discover tree config.root = .ok discovery) :
    auditTree config tree = .ok report ↔ ∃ documents,
      ((Auditor.ofDiscovery config discovery).readPaths discovery.paths).mapM
          (Document.load tree discovery.root.toPath) = .ok documents
        ∧ report = ⟨discovery.paths.length,
          (documents.map (Auditor.ofDiscovery config discovery).audit).filter
            fun file => !file.isClean⟩ := by
  have hreport : auditTree config tree = .ok report ↔ ∃ files,
      discovery.paths.mapM ((Auditor.ofDiscovery config discovery).auditFile tree) = .ok files
        ∧ report = .ofFiles files := by
    rw [auditTree, h]
    dsimp only
    cases discovery.paths.mapM ((Auditor.ofDiscovery config discovery).auditFile tree) with
    | error cause => simp
    | ok files => simp [eq_comm]
  rw [hreport]
  constructor
  · rintro ⟨files, hfiles, rfl⟩
    exact Auditor.exists_documents_of_mapM_auditFile hfiles
  · rintro ⟨documents, hdocuments, rfl⟩
    have hall : ∀ path ∈ discovery.paths, ∃ file,
        (Auditor.ofDiscovery config discovery).auditFile tree path = .ok file := by
      intro path hpath
      cases hskips : (Auditor.ofDiscovery config discovery).skips path with
      | true => exact ⟨_, if_pos hskips⟩
      | false =>
          obtain ⟨document, -, hload⟩ :=
            exists_ok_of_mem hdocuments (Auditor.mem_readPaths_iff.2 ⟨hpath, hskips⟩)
          exact ⟨_, Auditor.auditFile_of_load hload⟩
    obtain ⟨files, hfiles⟩ := exists_mapM_ok hall
    obtain ⟨others, hothers, hof⟩ := Auditor.exists_documents_of_mapM_auditFile hfiles
    cases hdocuments.symm.trans hothers
    exact ⟨files, hfiles, hof.symm⟩

/-- There is a report exactly if each file is left unread or can be loaded. -/
theorem exists_report_iff (h : discover tree config.root = .ok discovery) :
    (∃ report, auditTree config tree = .ok report) ↔
      ∀ file ∈ discovery.files, (Auditor.ofDiscovery config discovery).skips file.toPath = true
        ∨ ∃ document, Document.load tree discovery.root.toPath file.toPath = .ok document := by
  simp only [auditTree_eq_ok_iff h]
  constructor
  · rintro ⟨report, documents, hdocuments, -⟩ file hfile
    cases hskips : (Auditor.ofDiscovery config discovery).skips file.toPath with
    | true => exact Or.inl rfl
    | false =>
        have hpath := Auditor.mem_readPaths_iff.2 ⟨List.mem_map_of_mem hfile, hskips⟩
        obtain ⟨document, -, hload⟩ := exists_ok_of_mem hdocuments hpath
        exact Or.inr ⟨document, hload⟩
  · intro hfiles
    obtain ⟨documents, hdocuments⟩ : ∃ documents,
        ((Auditor.ofDiscovery config discovery).readPaths discovery.paths).mapM
          (Document.load tree discovery.root.toPath) = .ok documents := by
      refine exists_mapM_ok fun path hpath => ?_
      obtain ⟨hpath, hskips⟩ := Auditor.mem_readPaths_iff.1 hpath
      obtain ⟨file, hfile, rfl⟩ := List.mem_map.1 hpath
      refine (hfiles file hfile).resolve_left fun h => ?_
      rw [hskips] at h
      cases h
    exact ⟨_, documents, hdocuments, rfl⟩

/-- If a file that is read cannot be loaded, the error is that of such a file. -/
theorem auditTree_eq_load_error (h : discover tree config.root = .ok discovery) {path : Path}
    (hpath : path ∈ (Auditor.ofDiscovery config discovery).readPaths discovery.paths)
    (hload : (Document.load tree discovery.root.toPath path).isOk = false) :
    ∃ failed ∈ (Auditor.ofDiscovery config discovery).readPaths discovery.paths, ∃ cause,
      Document.load tree discovery.root.toPath failed = .error cause
        ∧ auditTree config tree = .error (.load cause) := by
  rw [auditTree, h]
  dsimp only
  cases hfiles : discovery.paths.mapM ((Auditor.ofDiscovery config discovery).auditFile tree) with
  | error cause =>
      obtain ⟨failed, hfailed, haudit⟩ := exists_error_of_mapM hfiles
      obtain ⟨hskips, herror⟩ := Auditor.auditFile_eq_error haudit
      exact ⟨failed, Auditor.mem_readPaths_iff.2 ⟨hfailed, hskips⟩, cause, herror, rfl⟩
  | ok files =>
      obtain ⟨documents, hdocuments, -⟩ := Auditor.exists_documents_of_mapM_auditFile hfiles
      obtain ⟨document, -, hdocument⟩ := exists_ok_of_mem hdocuments hpath
      cases (congrArg Except.isOk hdocument).symm.trans hload

end

/-- A violation in a report was found in a document. -/
theorem exists_mem_audit_of_auditTree {config : Config} {tree : FileTree} {report : Report}
    (h : auditTree config tree = .ok report) {file : FileReport} (hfile : file ∈ report.files)
    {violation : Violation} (hviolation : violation ∈ file.violations) :
    ∃ (auditor : Auditor) (document : Document), auditor.config = config
      ∧ violation ∈ (auditor.audit document).violations := by
  obtain ⟨discovery, files, _, hfiles, rfl⟩ := auditTree_eq_ok h
  obtain ⟨path, _, haudit⟩ := exists_of_mem_ok hfiles (List.mem_filter.1 hfile).1
  rcases Auditor.auditFile_eq_ok haudit with ⟨-, rfl⟩ | ⟨-, document, -, rfl⟩
  · cases hviolation
  · exact ⟨_, document, rfl, hviolation⟩

/-- **Files that are not read.**  Take a tree and a configuration with which discovery succeeds.  If
all files that were found can be loaded, the report on the tree is the one that is made of the audit
of all their documents, in the order of discovery.  There is a report exactly if the files that are
read can be loaded, and it counts all files and lists the audits of those that are read, clean ones
left out.  If one of them cannot be loaded, the error is that of such a file. -/
theorem auditTree_eq_ofFiles_audit {config : Config} {tree : FileTree} {discovery : Discovery}
    (h : discover tree config.root = .ok discovery) :
    (∀ documents, discovery.paths.mapM (Document.load tree discovery.root.toPath) = .ok documents →
        auditTree config tree
          = .ok (.ofFiles (documents.map (Auditor.ofDiscovery config discovery).audit)))
      ∧ (∀ report, auditTree config tree = .ok report ↔ ∃ documents,
          ((Auditor.ofDiscovery config discovery).readPaths discovery.paths).mapM
              (Document.load tree discovery.root.toPath) = .ok documents
            ∧ report = ⟨discovery.paths.length,
              (documents.map (Auditor.ofDiscovery config discovery).audit).filter
                fun file => !file.isClean⟩)
      ∧ ∀ path ∈ (Auditor.ofDiscovery config discovery).readPaths discovery.paths,
          (Document.load tree discovery.root.toPath path).isOk = false →
          ∃ failed ∈ (Auditor.ofDiscovery config discovery).readPaths discovery.paths, ∃ cause,
            Document.load tree discovery.root.toPath failed = .error cause
              ∧ auditTree config tree = .error (.load cause) :=
  ⟨fun _ hdocuments => auditTree_of_mapM_load h hdocuments, fun _ => auditTree_eq_ok_iff h,
    fun _ hpath hload => auditTree_eq_load_error h hpath hload⟩

/-- A tree with two images that have backslashes in their names.  With slashes for them, the first
one has no extension, so that it is read. -/
def backslashTree : FileTree where
  entries :=
    [([text "docs"], .directory), ([text "docs", text "b\\.gif"], .file (some [255])),
      ([text "docs", text "img\\Logo.png"], .file (some [137]))]
  workingDirectory := [text "docs"]

/-- The files of the tree. -/
def backslashDiscovery : Discovery :=
  ⟨[text "docs"], [[text "docs", text "b\\.gif"], [text "docs", text "img\\Logo.png"]]⟩

/-- The documents of the files, whose octets are no text. -/
def backslashDocuments : List Document :=
  [⟨.ofString "/docs/b\\.gif", text "b\\.gif", [Utf8.replacement]⟩,
    ⟨.ofString "/docs/img\\Logo.png", text "img\\Logo.png", [Utf8.replacement]⟩]

theorem auditTree_eq_ofFiles_audit_backslashTree :
    discover backslashTree sampleConfig.root = .ok backslashDiscovery
      ∧ backslashDiscovery.paths.mapM
          (Document.load backslashTree backslashDiscovery.root.toPath) = .ok backslashDocuments
      ∧ auditTree sampleConfig backslashTree
        = .ok (.ofFiles
          (backslashDocuments.map (Auditor.ofDiscovery sampleConfig backslashDiscovery).audit))
      ∧ (Auditor.ofDiscovery sampleConfig backslashDiscovery).readPaths backslashDiscovery.paths
        = [.ofString "/docs/b\\.gif"] := by
  have hdiscover : discover backslashTree sampleConfig.root = .ok backslashDiscovery := rfl
  have hdocuments : backslashDiscovery.paths.mapM
      (Document.load backslashTree backslashDiscovery.root.toPath) = .ok backslashDocuments := by
    rw [mapM_eq_ok_iff]
    decide +kernel
  exact ⟨hdiscover, hdocuments, (auditTree_eq_ofFiles_audit hdiscover).1 _ hdocuments,
    rfl⟩

/-- A tree with an image that cannot be read. -/
def lockedTree : FileTree where
  entries := [([text "docs"], .directory), ([text "docs", text "a.png"], .file none)]
  workingDirectory := []

/-- The file of the tree. -/
def lockedDiscovery : Discovery := ⟨[text "docs"], [[text "docs", text "a.png"]]⟩

/-- There can be a report although not all files that were found can be loaded. -/
theorem auditTree_without_load_lockedTree :
    discover lockedTree sampleConfig.root = .ok lockedDiscovery
      ∧ auditTree sampleConfig lockedTree = .ok ⟨1, []⟩
      ∧ (lockedDiscovery.paths.mapM
          (Document.load lockedTree lockedDiscovery.root.toPath)).isOk = false := by
  exact ⟨rfl, rfl, rfl⟩

end DocAudit
