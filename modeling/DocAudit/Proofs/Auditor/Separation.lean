import DocAudit.Auditor
import DocAudit.Proofs.Document.Body
import DocAudit.Proofs.Document.Layout
import DocAudit.Proofs.Links.Existence

/-!
# What each rule reads

The rules on links and on headings read the body of a document, the rule on
front matter its attributes, and the rules on names its relative path.  Besides,
a relative link is looked up from the directory of the document.  Since a
document with front matter is cut exactly at the line that closes the block,
nothing of one part comes to the rules on another.

**Results.**
* `resolve_congr`: what a link resolves to, in documents of one directory.
* `links_congr`: the rule on links, in documents of one directory.
* `check_separates`: the rules in two documents that share a part.
-/

namespace DocAudit

namespace Path

theorem normalize_congr {p q : Path} (h : p.components = q.components) :
    p.normalize = q.normalize := by
  rw [normalize, normalize, h]

end Path

namespace Check

variable {config : Config} {root : Path} {catalog : Catalog} {first second : Document}

/-- In documents of one directory a link resolves to the same stem. -/
theorem resolve_congr (h : first.directory.components = second.directory.components)
    (link : Link) : resolve config root first link = resolve config root second link := by
  have hrelative : ((first.directory.join ⟨link.path.dropWhile (· == '/')⟩).normalize)
      = (second.directory.join ⟨link.path.dropWhile (· == '/')⟩).normalize :=
    Path.normalize_congr (Path.components_join_congr h (isAbsolute_dropWhile link.path))
  unfold resolve target
  cases link.kind with
  | rooted => rfl
  | relative => exact hrelative
  | external => exact hrelative

/-- Documents of one directory with the same links have the same violations of the rule on
links. -/
theorem links_congr (h : first.directory.components = second.directory.components)
    (hlinks : Markdown.links config.rootMarker first.body
      = Markdown.links config.rootMarker second.body) :
    links config root catalog first = links config root catalog second := by
  have hlink : link config root catalog first = link config root catalog second := by
    funext l
    rw [link, link, resolve_congr h]
  rw [links, links, hlinks, hlink]

theorem heading_congr
    (h : Markdown.headings first.body = Markdown.headings second.body) :
    heading first = heading second := by
  rw [heading, heading, h]

theorem frontMatter_congr (h : first.attributes = second.attributes) :
    frontMatter first = frontMatter second := by
  rw [frontMatter, frontMatter, h]

theorem case_congr (h : first.relativePath = second.relativePath) : case first = case second := by
  rw [case, case, h]

theorem extension_congr (h : first.relativePath = second.relativePath) :
    extension first = extension second := by
  rw [extension, extension, Document.extension?, Document.extension?, h]

end Check

namespace Document

variable {document : Document} {layout : FrontMatter.Layout}

theorem body_of_write (h : document.content = layout.write) : document.body = layout.body := by
  rw [body_eq, h, FrontMatter.split_write]

theorem attributes_of_write (h : document.content = layout.write) :
    document.attributes = Attributes.ofBlock? layout.block := by
  rw [attributes, h, FrontMatter.split_write]

end Document

namespace Auditor

/-- **What each rule reads.**  Take two documents that are written with front matter.  Their bodies
and attributes are those that they were written from.  If they have the same body, they have the
same violations of the rule on headings, and, if they lie in one directory, of the rule on links.
If they have the same block, they have the same violations of the rule on front matter.  And any two
documents of the same relative path have the same violations of the rules on names. -/
theorem check_separates (auditor : Auditor) (first second : Document) :
    (∀ p q : FrontMatter.Layout, first.content = p.write → second.content = q.write →
        (first.body = p.body ∧ first.attributes = Attributes.ofBlock? p.block)
          ∧ (p.body = q.body →
            auditor.check .heading first = auditor.check .heading second
              ∧ (first.directory.same second.directory = true →
                auditor.check .links first = auditor.check .links second))
          ∧ (p.block = q.block →
            auditor.check .frontMatter first = auditor.check .frontMatter second))
      ∧ (first.relativePath = second.relativePath →
        auditor.check .case first = auditor.check .case second
          ∧ auditor.check .extension first = auditor.check .extension second) := by
  constructor
  · intro p q hp hq
    refine ⟨⟨Document.body_of_write hp, Document.attributes_of_write hp⟩, ?_, ?_⟩
    · intro hbody
      have hbodies : first.body = second.body := by
        rw [Document.body_of_write hp, Document.body_of_write hq, hbody]
      constructor
      · exact Check.heading_congr (by rw [hbodies])
      · intro hdirectory
        exact Check.links_congr (beq_iff_eq.1 hdirectory) (by rw [hbodies])
    · intro hblock
      apply Check.frontMatter_congr
      rw [Document.attributes_of_write hp, Document.attributes_of_write hq, hblock]
  · intro hpath
    exact ⟨Check.case_congr hpath, Check.extension_congr hpath⟩

/-- Front matter behind a byte order mark, with blanks and carriage returns at the ends of its
lines.  It holds what would be a heading and a link. -/
def markedLayout : FrontMatter.Layout where
  hasMark := true
  opening := text "--- \r\n"
  block := text "title: A\n# [x](y)\n"
  closing := text "...\r\n"
  body := text "# Use\n[b](gone)\n"
  opens_opening := by decide
  opening_isLine := ⟨text "--- \r", by decide, rfl⟩
  block_isLines := fun _ hc => (Option.some.inj hc).symm
  not_closes_block := by decide
  closes_closing := by decide
  closing_isLine := Or.inl ⟨text "...\r", by decide, rfl⟩

/-- Malformed front matter with the same body behind it. -/
def malformedLayout : FrontMatter.Layout where
  hasMark := false
  opening := text "---\n"
  block := text "title: [\n"
  closing := text "---\n"
  body := text "# Use\n[b](gone)\n"
  opens_opening := by decide
  opening_isLine := ⟨text "---", by decide, rfl⟩
  block_isLines := fun _ hc => (Option.some.inj hc).symm
  not_closes_block := by decide
  closes_closing := by decide
  closing_isLine := Or.inl ⟨text "---", by decide, rfl⟩

/-- The front matter of `markedLayout` at the end of a document. -/
def bodilessLayout : FrontMatter.Layout where
  hasMark := false
  opening := text "---\n"
  block := text "title: A\n# [x](y)\n"
  closing := text "---"
  body := []
  opens_opening := by decide
  opening_isLine := ⟨text "---", by decide, rfl⟩
  block_isLines := fun _ hc => (Option.some.inj hc).symm
  not_closes_block := by decide
  closes_closing := by decide
  closing_isLine := Or.inr ⟨by decide, rfl⟩

/-- A document of the tree at `/site`. -/
def siteDocument (path : String) (layout : FrontMatter.Layout) : Document :=
  .ofFile (.ofString "/site") (.ofString path) layout.write

theorem check_separates_siteDocument :
    ∃ auditor : Auditor,
      auditor.check .heading (siteDocument "/site/a.md" markedLayout)
          = [.topLevelHeading (text "# Use")]
        ∧ auditor.check .heading (siteDocument "/site/a.md" markedLayout)
          = auditor.check .heading (siteDocument "/site/./b.md" malformedLayout)
        ∧ auditor.check .links (siteDocument "/site/a.md" markedLayout)
          = auditor.check .links (siteDocument "/site/./b.md" malformedLayout)
        ∧ auditor.check .frontMatter (siteDocument "/site/a.md" markedLayout)
          = auditor.check .frontMatter (siteDocument "/site//a.md" bodilessLayout)
        ∧ auditor.check .case (siteDocument "/site/a.md" markedLayout)
          = auditor.check .case (siteDocument "/site//a.md" bodilessLayout)
        ∧ auditor.check .extension (siteDocument "/site/a.md" markedLayout)
          = auditor.check .extension (siteDocument "/site//a.md" bodilessLayout) := by
  let auditor : Auditor := ⟨.standard, .ofString "/site", .ordered []⟩
  have hbody := ((check_separates auditor (siteDocument "/site/a.md" markedLayout)
    (siteDocument "/site/./b.md" malformedLayout)).1 markedLayout malformedLayout rfl rfl).2.1 rfl
  have hblock := check_separates auditor (siteDocument "/site/a.md" markedLayout)
    (siteDocument "/site//a.md" bodilessLayout)
  have hattributes := (hblock.1 markedLayout bodilessLayout rfl rfl).2.2 rfl
  have hpath := hblock.2 (by decide +kernel)
  have hheading : auditor.check .heading (siteDocument "/site/a.md" markedLayout)
      = [.topLevelHeading (text "# Use")] := by decide +kernel
  exact ⟨auditor, hheading, hbody.1, hbody.2 (by decide +kernel), hattributes, hpath.1, hpath.2⟩

end Auditor

end DocAudit
