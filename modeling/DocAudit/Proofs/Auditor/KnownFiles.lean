import DocAudit.Auditor
import DocAudit.Proofs.Links.Existence
import DocAudit.Proofs.Path.Spelling

/-!
# The files that an auditor knows

A catalog is built from a list of paths.  Of that list only the places count
that its paths show: neither their order nor their number nor their spelling,
and not the kind of set that keeps them either.

**Results.**
* `Catalog.eq_of_sameFiles`: lists of the same places make the same catalog.
* `verdict_of_sameFiles`: they make the same violations of every document.
-/

namespace DocAudit

namespace Catalog

/-- Every path of the one list shows a place that a path of the other list shows, too. -/
def Covers (paths others : List Path) : Prop := ∀ p ∈ others, ∃ q ∈ paths, p.same q = true

instance (paths others : List Path) : Decidable (Covers paths others) :=
  inferInstanceAs (Decidable (∀ p ∈ others, ∃ q ∈ paths, p.same q = true))

theorem IsOf.contains_of_covers {first second : Catalog} {paths others : List Path}
    (hfirst : first.IsOf paths) (hsecond : second.IsOf others) (h : Covers others paths) {p : Path}
    (hp : first.contains p = true) : second.contains p = true := by
  obtain ⟨q, hq, hpq⟩ := (hfirst.contains_iff p).1 hp
  obtain ⟨r, hr, hqr⟩ := h q hq
  exact (hsecond.contains_iff p).2 ⟨r, hr, hpq.trans (beq_iff_eq.1 hqr)⟩

/-- Lists of the same places make the same catalog. -/
theorem eq_of_sameFiles {first second : Catalog} {paths others : List Path}
    (hfirst : first.IsOf paths) (hsecond : second.IsOf others) (hpaths : Covers others paths)
    (hothers : Covers paths others) : first = second := by
  have hcontains : first.contains = second.contains := by
    funext p
    rw [Bool.eq_iff_iff]
    exact ⟨hfirst.contains_of_covers hsecond hpaths, hsecond.contains_of_covers hfirst hothers⟩
  cases first
  cases second
  rw [mk.injEq]
  exact hcontains

end Catalog

namespace Auditor

/-- **The files that an auditor knows.**  Take two lists of paths in which the same places occur,
and a catalog of each, ordered or hashed.  With either catalog a document has the same violations of
each rule and the same report.  Two paths show the same place exactly when they are spelled alike up
to repeated slashes, steps that stay within the path, and either of them at its end. -/
theorem verdict_of_sameFiles {paths others : List Path} (hpaths : Catalog.Covers others paths)
    (hothers : Catalog.Covers paths others) {first second : Catalog} (hfirst : first.IsOf paths)
    (hsecond : second.IsOf others) (config : Config) (root : Path) (document : Document) :
    (∀ rule, (Auditor.mk config root first).check rule document
        = (Auditor.mk config root second).check rule document)
      ∧ (Auditor.mk config root first).audit document
        = (Auditor.mk config root second).audit document
      ∧ ∀ p q : Path, p.same q = true ↔ p.Respelled q := by
  rw [Catalog.eq_of_sameFiles hfirst hsecond hpaths hothers]
  exact ⟨fun _ => rfl, rfl, Path.same_iff_respelled⟩

/-- Two files below the root. -/
def knownFiles : List Path := [.ofString "/site/b.md", .ofString "/site/guides/c.mdx"]

/-- The same files in another order, one of them twice, and spelled in other ways. -/
def respelledFiles : List Path :=
  [.ofString "/site/./guides//c.mdx", .ofString "//site/b.md/", .ofString "/site/b.md/."]

/-- A document with links to both files, and with one to a file that does not exist. -/
def linkingDocument : Document :=
  .ofFile (.ofString "/site") (.ofString "/site/a.md")
    (text "[b](<b>) [c](</docs/guides/./c>) [d](<d>)\n")

/-- The body of the document. -/
def linkingBody : List Markdown.Piece :=
  [.link (text "b") (.angled (text "b")) none, .plain [' '],
    .link (text "c") (.angled (text "/docs/guides/./c")) none, .plain [' '],
    .link (text "d") (.angled (text "d")) none, .plain ['\n']]

theorem verdict_of_sameFiles_respelledFiles :
    Catalog.Covers respelledFiles knownFiles ∧ Catalog.Covers knownFiles respelledFiles
      ∧ (Auditor.mk .standard (.ofString "/site") (.hashed respelledFiles)).check .links
          linkingDocument = [.linkNotFound (text "d") (text "/docs/")]
      ∧ (Auditor.mk .standard (.ofString "/site") (.ordered knownFiles)).audit linkingDocument
        = (Auditor.mk .standard (.ofString "/site") (.hashed respelledFiles)).audit linkingDocument
      ∧ (Path.ofString "/site/b.md").Respelled (.ofString "//site/b.md/") := by
  have hpaths : Catalog.Covers respelledFiles knownFiles := by decide +kernel
  have hothers : Catalog.Covers knownFiles respelledFiles := by decide +kernel
  obtain ⟨hcheck, haudit, hsame⟩ := verdict_of_sameFiles hpaths hothers (Or.inl rfl) (Or.inr rfl)
    .standard (.ofString "/site") linkingDocument
  have hlinks : (Auditor.mk .standard (.ofString "/site") (.ordered knownFiles)).check .links
      linkingDocument = [.linkNotFound (text "d") (text "/docs/")] := by
    have hbody : linkingDocument.body = Markdown.Piece.writeAll linkingBody := by decide +kernel
    have hfound : Markdown.links Config.standard.rootMarker linkingDocument.body
        = [.ofTarget (text "/docs/") (text "b"),
            .ofTarget (text "/docs/") (text "/docs/guides/./c"),
            .ofTarget (text "/docs/") (text "d")] := by
      rw [hbody, Markdown.links, Markdown.Piece.targets_writeAll (by decide +kernel)]
      rfl
    rw [check, Check.links, hfound]
    decide +kernel
  exact ⟨hpaths, hothers, (hcheck .links).symm.trans hlinks, haudit,
    (hsame _ _).1 (by decide +kernel)⟩

end Auditor

end DocAudit
