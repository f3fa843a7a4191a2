import DocAudit.Auditor
import DocAudit.Proofs.Links.Relative
import DocAudit.Proofs.Links.Rooted
import Mathlib.Data.List.Basic

/-!
# Moving the documentation

The same files can be placed beneath one root directory or another.  Relative
paths, contents and everything that is read off them stay the same, and only the
test whether a linked document exists looks at where the files are.

A link that never climbs above the root directory walks to the same place below
either root.  A link that does climb above it walks through directories outside
of the documentation, where it can come to one of the roots by its name.  Such a
link makes no difference as long as it stays outside of both.

**Results.**
* `walk?_append_left`: a walk goes the same way beneath another directory.
* `resolve_of_inner?`: a link that stays inside resolves below the root.
* `auditBelow_relocate`: when files have the same reports beneath two roots.
-/

namespace DocAudit

namespace Path

/-- The names of a relative path that has no step up. -/
def relativeNames? (p : Path) : Option (List Text) :=
  if p.isAbsolute then none
  else (innerComponents (Text.splitOn '/' p.text)).mapM Component.name?

theorem components_join_of_relativeNames? {root p : Path} {names : List Text}
    (hroot : root.isAbsolute = true) (h : p.relativeNames? = some names) :
    (root.join p).components = root.components ++ names.map .name := by
  unfold relativeNames? at h
  split at h
  · cases h
  · rename_i hp
    rw [mapM_name?_eq_some_iff] at h
    rw [components_join hroot (by simpa using hp), h]

theorem place?_join {root p : Path} {place : Place} {names : List Text}
    (hroot : root.place? = some place) (h : p.relativeNames? = some names) :
    (root.join p).place? = some (place ++ names) := by
  have hcomponents := (place?_eq_some_iff root place).1 hroot
  rw [place?_eq_some_iff, components_join_of_relativeNames? (isAbsolute_of_place? hroot) h,
    hcomponents, List.map_append, List.cons_append]

theorem relativeTo_join {root p : Path} {names : List Text} (hroot : root.isAbsolute = true)
    (h : p.relativeNames? = some names) :
    root.relativeTo (root.join p) = Text.joinWith ['/'] names := by
  rw [relativeTo, below?, components_join_of_relativeNames? hroot h, afterComponents?_append,
    Option.getD_some, joinNames_map_name]

theorem isSegment_of_mem_relativeNames? {p : Path} {names : List Text}
    (h : p.relativeNames? = some names) : ∀ name ∈ names, IsSegment name := by
  unfold relativeNames? at h
  split at h
  · cases h
  · rw [mapM_name?_eq_some_iff] at h
    intro name hname
    apply isSegment_of_mem_innerComponents
    rw [h]
    exact List.mem_map_of_mem hname

/-- Whether a path lies beneath a directory, by at least one component. -/
def liesBeneath (root p : Path) : Bool := (root.below? p).any fun components => !components.isEmpty

end Path

namespace Place

theorem step?_append_left (front : Place) {place goal : Place} {segment : Text}
    (h : step? place segment = some goal) :
    step? (front ++ place) segment = some (front ++ goal) := by
  unfold step? at h ⊢
  split at h
  · rename_i hstay
    cases h
    rw [if_pos hstay]
  · rename_i hstay
    rw [if_neg hstay]
    split at h
    · rename_i hup
      rw [if_pos hup]
      split at h
      · cases h
      · rename_i hne
        cases h
        have hnotNil : ¬ front ++ place = [] := fun he => hne (List.append_eq_nil_iff.1 he).2
        rw [if_neg hnotNil, List.dropLast_append_of_ne_nil hne]
    · rename_i hup
      cases h
      rw [if_neg hup, List.append_assoc]

theorem walk?_append_left (front : Place) {place goal : Place} {segments : List Text}
    (h : walk? place segments = some goal) :
    walk? (front ++ place) segments = some (front ++ goal) := by
  induction segments generalizing place with
  | nil =>
      cases h
      rfl
  | cons segment segments ih =>
      obtain ⟨next, hstep, hrest⟩ := walk?_cons_success h
      rw [walk?, step?_append_left front hstep]
      exact ih hrest

end Place

namespace Link

/-- Where a link of a document leads to below the documentation root, if it never climbs above the
root.  The directory of the document is given by its names below the root. -/
def inner? (marker : Text) (directory : Place) (link : Link) : Option Place :=
  if (link.remainder marker).head? = some '/' then none
  else Place.walk? (if link.kind = .rooted then [] else directory)
    (Text.splitOn '/' (link.remainder marker))

theorem isSegment_of_inner? {marker : Text} {directory goal : Place} {link : Link}
    (hdirectory : ∀ name ∈ directory, Path.IsSegment name)
    (h : link.inner? marker directory = some goal) : ∀ name ∈ goal, Path.IsSegment name := by
  unfold inner? at h
  split at h
  · cases h
  · refine Place.isSegment_of_walk? ?_ (fun _ hs => Text.notMem_of_mem_splitOn hs) h
    split
    · exact fun _ hname => absurd hname List.not_mem_nil
    · exact hdirectory

/-- A link of a document that is looked at in an audit. -/
structure IsChecked (config : Config) (document : Document) (link : Link) : Prop where
  not_exempt : document.extension?.any config.isImageExtension = false
  mem : link ∈ Markdown.links config.rootMarker document.body
  not_external : link.kind ≠ .external
  isChecked : Check.isChecked config link = true

/-- A link in the file at a relative path never climbs above the documentation root and ends below
it. -/
def StaysInside (marker : Text) (p : Path) (link : Link) : Prop :=
  ∃ names goal, p.relativeNames? = some names
    ∧ link.inner? marker names.dropLast = some goal ∧ goal ≠ []

end Link

namespace Check

/-- A link that never climbs above the documentation root resolves below it. -/
theorem resolve_of_inner? {config : Config} {root : Path} {place names goal : Place}
    {document : Document} {link : Link} (hroot : root.place? = some place)
    (hdocument : document.path.place? = some (place ++ names)) (hnames : names ≠ [])
    (hgoal : link.inner? config.rootMarker names.dropLast = some goal) :
    resolve config root document link = (place ++ goal).toPath := by
  unfold Link.inner? at hgoal
  split at hgoal
  · cases hgoal
  · rename_i hhead
    have hpath : (⟨link.remainder config.rootMarker⟩ : Path).isAbsolute = false := by
      simpa [Path.isAbsolute] using hhead
    have hdirectory : document.directory.place? = some (place ++ names.dropLast) := by
      rw [Document.place?_directory hdocument, List.dropLast_append_of_ne_nil hnames]
    have hwalk := Place.walk?_append_left place hgoal
    rw [resolve, target_eq]
    split at hwalk
    · rename_i hkind
      rw [if_pos hkind]
      rw [List.append_nil] at hwalk
      exact Path.normalize_join hroot hpath hwalk
    · rename_i hkind
      rw [if_neg hkind]
      exact Path.normalize_join hdirectory hpath hwalk

/-- A link leads out of the documentation root: no markdown file of the stem that it resolves to can
lie beneath the root. -/
def LeadsOut (config : Config) (root : Path) (document : Document) (link : Link) : Prop :=
  ∀ extension ∈ markdownExtensions,
    root.liesBeneath ⟨(resolve config root document link).text ++ extension⟩ = false

instance (config : Config) (root : Path) (document : Document) (link : Link) :
    Decidable (LeadsOut config root document link) :=
  inferInstanceAs (Decidable (∀ _ ∈ _, _))

end Check

/-- The paths of files that are placed beneath a root, each given by its relative path and its
content. -/
def pathsBelow (root : Path) (files : List (Path × Text)) : List Path :=
  files.map fun f => root.join f.1

/-- The document that a file makes beneath a root. -/
def documentBelow (root : Path) (f : Path × Text) : Document := .ofFile root (root.join f.1) f.2

/-- The reports on files that are placed beneath a root. -/
def auditBelow (config : Config) (catalog : Catalog) (root : Path) (files : List (Path × Text)) :
    List FileReport :=
  files.map fun f => (⟨config, root, catalog⟩ : Auditor).audit (documentBelow root f)

section

variable {config : Config} {files : List (Path × Text)} {f : Path × Text} {root : Path}
  {place : Place} {catalog : Catalog} {link : Link}

theorem documentBelow_eq {names : List Text} (hroot : root.place? = some place)
    (hnames : f.1.relativeNames? = some names) :
    documentBelow root f = ⟨root.join f.1, Text.joinWith ['/'] names, f.2⟩ := by
  rw [documentBelow, Document.ofFile,
    Path.relativeTo_join (Path.isAbsolute_of_place? hroot) hnames]

/-- Whether a link that stays inside leads to a document depends on the relative paths alone. -/
theorem hasDocument_of_staysInside {names goal : Place} (hroot : root.place? = some place)
    (hfiles : ∀ f ∈ files, ∃ names, names ≠ [] ∧ f.1.relativeNames? = some names)
    (hcatalog : catalog.IsOf (pathsBelow root files))
    (hnames : f.1.relativeNames? = some names) (hne : names ≠ [])
    (hinner : link.inner? config.rootMarker names.dropLast = some goal) (hgoal : goal ≠ []) :
    Check.hasDocument catalog (Check.resolve config root (documentBelow root f) link) = true
      ↔ ∃ g ∈ files, g.1.relativeNames? = some (goal.extended (text ".md"))
          ∨ g.1.relativeNames? = some (goal.extended (text ".mdx")) := by
  have hsegments : ∀ name ∈ place ++ goal, Path.IsSegment name := by
    intro name hname
    rcases List.mem_append.1 hname with hname | hname
    · exact Path.isSegment_of_mem_place? hroot name hname
    · refine Link.isSegment_of_inner? ?_ hinner name hname
      exact fun n hn =>
        Path.isSegment_of_mem_relativeNames? hnames n ((List.dropLast_sublist _).mem hn)
  have hplaced : (documentBelow root f).path.place? = some (place ++ names) :=
    Path.place?_join hroot hnames
  rw [Check.resolve_of_inner? hroot hplaced hne hinner,
    Check.hasDocument_toPath_iff hcatalog (by simp [hgoal]) hsegments]
  simp only [Place.HasDocument, pathsBelow, List.mem_map, exists_exists_and_eq_and,
    Place.extended_append _ place hgoal]
  refine exists_congr fun g => and_congr_right fun hg => ?_
  obtain ⟨others, -, hothers⟩ := hfiles g hg
  rw [Path.place?_join hroot hothers, hothers]
  simp only [Option.some.injEq, List.append_cancel_left_eq]

theorem hasDocument_of_leadsOut (hroot : root.place? = some place)
    (hfiles : ∀ f ∈ files, ∃ names, names ≠ [] ∧ f.1.relativeNames? = some names)
    (hcatalog : catalog.IsOf (pathsBelow root files)) {document : Document}
    (h : Check.LeadsOut config root document link) :
    Check.hasDocument catalog (Check.resolve config root document link) = false := by
  rw [Check.hasDocument, List.any_eq_false]
  intro extension hextension hcontains
  obtain ⟨path, hpath, hsame⟩ := (hcatalog.contains_iff _).1 hcontains
  obtain ⟨g, hg, rfl⟩ := List.mem_map.1 hpath
  obtain ⟨names, hne, hnames⟩ := hfiles g hg
  have hout := h extension hextension
  rw [Path.liesBeneath, Path.below?, hsame,
    Path.components_join_of_relativeNames? (Path.isAbsolute_of_place? hroot) hnames,
    Path.afterComponents?_append] at hout
  exact hne (by simpa using hout)

/-- The violations of a link are the same ones wherever it has the same answer to whether its
document exists. -/
theorem link_congr {document other : Document} {otherRoot : Path} {otherCatalog : Catalog}
    (h : Check.isChecked config link = true →
      Check.hasDocument catalog (Check.resolve config root document link)
        = Check.hasDocument otherCatalog (Check.resolve config otherRoot other link)) :
    Check.link config root catalog document link
      = Check.link config otherRoot otherCatalog other link := by
  unfold Check.link
  split
  · rename_i hchecked
    rw [h hchecked]
  · rfl

/-- A document at another path has the same report, if every link that is looked at has the same
answer there. -/
theorem audit_congr {path otherPath otherRoot : Path} {relativePath content : Text}
    {otherCatalog : Catalog}
    (h : ∀ link, Link.IsChecked config ⟨path, relativePath, content⟩ link →
      Check.hasDocument catalog (Check.resolve config root ⟨path, relativePath, content⟩ link)
        = Check.hasDocument otherCatalog
          (Check.resolve config otherRoot ⟨otherPath, relativePath, content⟩ link)) :
    (⟨config, root, catalog⟩ : Auditor).audit ⟨path, relativePath, content⟩
      = (⟨config, otherRoot, otherCatalog⟩ : Auditor).audit ⟨otherPath, relativePath, content⟩ := by
  have hexempts : (⟨config, otherRoot, otherCatalog⟩ : Auditor).exempts relativePath
      = (⟨config, root, catalog⟩ : Auditor).exempts relativePath := rfl
  rw [Auditor.audit, Auditor.audit, hexempts]
  split
  · rfl
  · rename_i hexempt
    have hrules : ∀ rule ∈ Rule.all,
        (⟨config, root, catalog⟩ : Auditor).check rule ⟨path, relativePath, content⟩
          = (⟨config, otherRoot, otherCatalog⟩ : Auditor).check rule
            ⟨otherPath, relativePath, content⟩ := by
      intro rule _
      cases rule with
      | case => rfl
      | extension => rfl
      | heading => rfl
      | frontMatter => rfl
      | links =>
          refine List.flatMap_congr fun link hlink => link_congr fun hchecked => ?_
          obtain ⟨hmem, hexternal⟩ := List.mem_filter.1 hlink
          exact h link ⟨eq_false_of_ne_true hexempt, hmem, of_decide_eq_true hexternal, hchecked⟩
    rw [Auditor.violations, Auditor.violations, List.flatMap_congr hrules]

theorem links_eq_of_audit_eq {path otherPath otherRoot : Path} {relativePath content : Text}
    {otherCatalog : Catalog}
    (hexempt : (extension? relativePath).any config.isImageExtension = false)
    (h : (⟨config, root, catalog⟩ : Auditor).audit ⟨path, relativePath, content⟩
      = (⟨config, otherRoot, otherCatalog⟩ : Auditor).audit ⟨otherPath, relativePath, content⟩) :
    Check.links config root catalog ⟨path, relativePath, content⟩
      = Check.links config otherRoot otherCatalog ⟨otherPath, relativePath, content⟩ := by
  have hroot : ¬ (⟨config, root, catalog⟩ : Auditor).exempts relativePath = true := by
    rw [Auditor.exempts, hexempt]
    exact Bool.false_ne_true
  have hother : ¬ (⟨config, otherRoot, otherCatalog⟩ : Auditor).exempts relativePath = true := hroot
  have hviolations := (FileReport.mk.inj h).2
  rw [if_neg hroot, if_neg hother] at hviolations
  -- The other rules do not look at the path, so that what they say stands on both sides.
  have hafter := List.append_cancel_left (List.append_cancel_left hviolations)
  exact List.append_cancel_right hafter

end

/-- **Moving the documentation.**  Take any files that are given by relative paths of at least one
name and without a step up, and two root directories.  Let every link that is looked at either stay
inside, which it does or does not by the relative path of its document alone, or lead out of both
roots.  Then the files have the same reports beneath either root. -/
theorem auditBelow_relocate {config : Config} {files : List (Path × Text)} {root other : Path}
    {place otherPlace : Place} (hroot : root.place? = some place)
    (hother : other.place? = some otherPlace)
    (hfiles : ∀ f ∈ files, ∃ names, names ≠ [] ∧ f.1.relativeNames? = some names)
    {catalog otherCatalog : Catalog} (hcatalog : catalog.IsOf (pathsBelow root files))
    (hotherCatalog : otherCatalog.IsOf (pathsBelow other files))
    (hlinks : ∀ f ∈ files, ∀ link, Link.IsChecked config (documentBelow root f) link →
      link.StaysInside config.rootMarker f.1
        ∨ Check.LeadsOut config root (documentBelow root f) link
          ∧ Check.LeadsOut config other (documentBelow other f) link) :
    auditBelow config catalog root files = auditBelow config otherCatalog other files := by
  refine List.map_congr_left ?_
  intro f hf
  obtain ⟨names, hne, hnames⟩ := hfiles f hf
  have hverdict : ∀ link, Link.IsChecked config (documentBelow root f) link →
      Check.hasDocument catalog (Check.resolve config root (documentBelow root f) link)
        = Check.hasDocument otherCatalog
          (Check.resolve config other (documentBelow other f) link) := by
    intro link hlink
    rcases hlinks f hf link hlink with ⟨names', goal, hnames', hinner, hgoal⟩ | ⟨hout, hotherOut⟩
    · rw [hnames] at hnames'
      cases hnames'
      rw [Bool.eq_iff_iff,
        hasDocument_of_staysInside hroot hfiles hcatalog hnames hne hinner hgoal,
        hasDocument_of_staysInside hother hfiles hotherCatalog hnames hne hinner hgoal]
    · rw [hasDocument_of_leadsOut hroot hfiles hcatalog hout,
        hasDocument_of_leadsOut hother hfiles hotherCatalog hotherOut]
  rw [documentBelow_eq hroot hnames, documentBelow_eq hother hnames] at hverdict ⊢
  exact audit_congr hverdict

/-- A file that holds nothing but a link. -/
def loneFile (p target : String) : Path × Text :=
  (.ofString p, Markdown.loneLink (text "x") (text target))

theorem eq_of_isChecked_loneFile {config : Config} {root : Path} {p target : String} {link : Link}
    (hne : text target ≠ [])
    (htarget : ∀ c ∈ text target, Markdown.isBareChar c = true ∧ c ≠ Markdown.tick)
    (h : Link.IsChecked config (documentBelow root (loneFile p target)) link) :
    link = .ofTarget config.rootMarker (text target) := by
  have hmem := h.mem
  have hbody : (documentBelow root (loneFile p target)).body
      = Markdown.loneLink (text "x") (text target) := Check.body_loneDocument _ _ _
  rw [hbody, Markdown.links_loneLink (by decide) hne htarget] at hmem
  exact List.mem_singleton.1 hmem

/-- Files with a link between directories, a rooted link, and a link to somewhere else. -/
def settledFiles : List (Path × Text) :=
  [loneFile "guides/a.md" "../b", loneFile "b.md" "/docs/guides/a", loneFile "c.md" "../elsewhere"]

theorem auditBelow_relocate_settledFiles :
    auditBelow .standard (.ordered (pathsBelow (.ofString "/site") settledFiles))
        (.ofString "/site") settledFiles
      = auditBelow .standard (.hashed (pathsBelow (.ofString "/srv/www") settledFiles))
        (.ofString "/srv/www") settledFiles := by
  have hroot : (Path.ofString "/site").place? = some [text "site"] := by decide +kernel
  have hother : (Path.ofString "/srv/www").place? = some [text "srv", text "www"] := by
    decide +kernel
  have hfiles : ∀ f ∈ settledFiles, ∃ names, names ≠ [] ∧ f.1.relativeNames? = some names := by
    intro f hf
    simp only [settledFiles, List.mem_cons, List.not_mem_nil, or_false] at hf
    rcases hf with rfl | rfl | rfl
    · exact ⟨[text "guides", text "a.md"], by decide, by decide +kernel⟩
    · exact ⟨[text "b.md"], by decide, by decide +kernel⟩
    · exact ⟨[text "c.md"], by decide, by decide +kernel⟩
  refine auditBelow_relocate hroot hother hfiles (Or.inl rfl) (Or.inr rfl) ?_
  intro f hf link hlink
  simp only [settledFiles, List.mem_cons, List.not_mem_nil, or_false] at hf
  rcases hf with rfl | rfl | rfl
  · rw [eq_of_isChecked_loneFile (by decide) (by decide) hlink]
    exact Or.inl ⟨[text "guides", text "a.md"], [text "b"], by decide +kernel, by decide +kernel,
      by decide⟩
  · rw [eq_of_isChecked_loneFile (by decide) (by decide) hlink]
    exact Or.inl ⟨[text "b.md"], [text "guides", text "a"], by decide +kernel, by decide +kernel,
      by decide⟩
  · rw [eq_of_isChecked_loneFile (by decide) (by decide) hlink]
    exact Or.inr ⟨by decide +kernel, by decide +kernel⟩

/-- Files with a link that leaves the root `/site` and comes back to it by its name. -/
def returningFiles : List (Path × Text) :=
  [loneFile "a.md" "../site/b", (.ofString "b.md", [])]

theorem links_returningFiles (root : Path) (catalog : Catalog) :
    Check.links .standard root catalog (documentBelow root (loneFile "a.md" "../site/b"))
      = Check.link .standard root catalog (documentBelow root (loneFile "a.md" "../site/b"))
        (.ofTarget (text "/docs/") (text "../site/b")) :=
  Check.links_of_loneLink (Check.body_loneDocument _ _ _) (by decide) (by decide) (by decide)
    (by decide) root catalog

/-- A link that comes back to the root by its name leads to a document at one place and to none at
another. -/
theorem auditBelow_ne_returningFiles :
    auditBelow .standard (.ordered (pathsBelow (.ofString "/site") returningFiles))
        (.ofString "/site") returningFiles
      ≠ auditBelow .standard (.ordered (pathsBelow (.ofString "/other") returningFiles))
        (.ofString "/other") returningFiles := by
  intro h
  have hlinks := links_eq_of_audit_eq (by decide +kernel) (List.cons.inj h).1
  have hthere : Check.links .standard (.ofString "/site")
      (.ordered (pathsBelow (.ofString "/site") returningFiles))
      (documentBelow (.ofString "/site") (loneFile "a.md" "../site/b")) = [] := by
    rw [links_returningFiles]
    decide +kernel
  have hmissing : Check.links .standard (.ofString "/other")
      (.ordered (pathsBelow (.ofString "/other") returningFiles))
      (documentBelow (.ofString "/other") (loneFile "a.md" "../site/b"))
        = [.linkNotFound (text "../site/b") (text "/docs/")] := by
    rw [links_returningFiles]
    decide +kernel
  exact absurd (hthere.symm.trans (hlinks.trans hmissing)) (by decide)

end DocAudit
