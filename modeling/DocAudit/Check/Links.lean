import DocAudit.Catalog
import DocAudit.Check.Naming
import DocAudit.Config
import DocAudit.Markdown.Target

/-!
# The rule on links

Links name existing documents by their stem.  External links, links within
the page, links to images and links to assets are not checked.  Any other link
has no extension and no deprecated opening, and it resolves to the stem of a
markdown file.

A rooted link resolves from the documentation root and every other link from
the directory of its document, even when it starts with a slash.
-/

namespace DocAudit

namespace Check

/-- The stem that a link resolves to, before steps up are taken out of it. -/
def target (config : Config) (root : Path) (document : Document) (link : Link) : Path :=
  match link.kind with
  | .rooted => root.join ⟨(Text.after? config.rootMarker link.path).getD link.path⟩
  | _ => document.directory.join ⟨link.path.dropWhile (· == '/')⟩

/-- The stem that a link resolves to. -/
def resolve (config : Config) (root : Path) (document : Document) (link : Link) : Path :=
  (target config root document link).normalize

/-- Whether a catalog has the markdown file of a stem. -/
def hasDocument (catalog : Catalog) (stem : Path) : Bool :=
  markdownExtensions.any fun extension => catalog.contains ⟨stem.text ++ extension⟩

/-- Whether a link is checked at all. -/
def isChecked (config : Config) (link : Link) : Bool :=
  link.path ≠ [] && !link.extension?.any config.isImageExtension
    && !config.assetLeads.any fun lead => link.liesUnder lead

/-- The violations of a link that is not external. -/
def link (config : Config) (root : Path) (catalog : Catalog) (document : Document) (link : Link) :
    List Violation :=
  if isChecked config link then
    (link.extension?.toList.map (Violation.linkExtension link.target))
      ++ ((config.deprecatedLeads.filter fun lead => link.liesUnder lead).map
        (Violation.deprecatedLead link.target))
      ++ (if hasDocument catalog (resolve config root document link) then []
        else [.linkNotFound link.target config.rootMarker])
  else []

/-- Links name existing documents. -/
def links (config : Config) (root : Path) (catalog : Catalog) (document : Document) :
    List Violation :=
  ((Markdown.links config.rootMarker document.body).filter fun link =>
    link.kind ≠ .external).flatMap (link config root catalog document)

end Check

end DocAudit
