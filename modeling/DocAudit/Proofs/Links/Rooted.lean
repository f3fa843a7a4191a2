import DocAudit.Proofs.Links.Existence

/-!
# Rooted links

A rooted link is the marker and a remainder.  The remainder is joined to the
documentation root as it stands, whereas the slashes at the start of any other
link are taken off before it is joined to the directory of its document.  So a
remainder that starts with a slash is an absolute path, and joining it puts it
in the place of the root.

**Results.**
* `target_eq`: what is joined to what.
* `remainder_rooted`: the remainder of a rooted target.
* `resolve_rooted`: where a rooted link leads to.
-/

namespace DocAudit

namespace Path

theorem join_of_isAbsolute {p : Path} (h : p.isAbsolute = true) (directory : Path) :
    directory.join p = p := by
  rw [join, if_pos h]

end Path

namespace Link

/-- The part of a target before its fragment and its query. -/
def pathPart (t : Text) : Text := t.takeWhile fun c => !endsPath c

/-- What of a link is joined to a directory: a rooted link without the marker, and any other link
without the slashes that it starts with. -/
def remainder (marker : Text) (link : Link) : Text :=
  match link.kind with
  | .rooted => (Text.after? marker link.path).getD link.path
  | _ => link.path.dropWhile (· == '/')

theorem remainder_rooted {marker rest : Text} (hmarker : ∀ c ∈ marker, endsPath c = false)
    (hkind : kindOf marker (marker ++ rest) = .rooted) :
    (ofTarget marker (marker ++ rest)).remainder marker = pathPart rest := by
  have hpath : (ofTarget marker (marker ++ rest)).path = marker ++ pathPart rest := by
    refine List.takeWhile_append_of_pos ?_
    intro c hc
    rw [hmarker c hc]
    rfl
  have hrooted : (ofTarget marker (marker ++ rest)).kind = .rooted := hkind
  simp only [remainder, hrooted, hpath, Text.after?_append, Option.getD_some]

end Link

namespace Check

/-- A link is joined to the root or to the directory of its document. -/
theorem target_eq (config : Config) (root : Path) (document : Document) (link : Link) :
    target config root document link =
      (if link.kind = .rooted then root else document.directory).join
        ⟨link.remainder config.rootMarker⟩ := by
  cases hkind : link.kind <;> simp [target, Link.remainder, hkind]

/-- **Where a rooted link leads to.**  Take any marker without a character that ends a path, and any
rooted target that is the marker and a rest.  As long as the path of the rest does not start with a
slash, the link resolves to this path below the documentation root.  Else it resolves to this path
from the root of the file system, whatever the documentation root is. -/
theorem resolve_rooted {config : Config}
    (hmarker : ∀ c ∈ config.rootMarker, Link.endsPath c = false) {rest : Text}
    (hkind : Link.kindOf config.rootMarker (config.rootMarker ++ rest) = .rooted)
    (root : Path) (document : Document) :
    ((Link.pathPart rest).head? ≠ some '/' →
      resolve config root document (.ofTarget config.rootMarker (config.rootMarker ++ rest))
        = (root.join ⟨(Link.pathPart rest).dropWhile (· == '/')⟩).normalize)
    ∧ ((Link.pathPart rest).head? = some '/' →
      resolve config root document (.ofTarget config.rootMarker (config.rootMarker ++ rest))
        = (⟨Link.pathPart rest⟩ : Path).normalize) := by
  have hrooted : (Link.ofTarget config.rootMarker (config.rootMarker ++ rest)).kind = .rooted :=
    hkind
  have hresolve : resolve config root document
      (.ofTarget config.rootMarker (config.rootMarker ++ rest))
        = (root.join ⟨Link.pathPart rest⟩).normalize := by
    rw [resolve, target_eq, if_pos hrooted, Link.remainder_rooted hmarker hkind]
  constructor
  · intro hhead
    have hkeep : (Link.pathPart rest).dropWhile (· == '/') = Link.pathPart rest := by
      cases hpart : Link.pathPart rest with
      | nil => rfl
      | cons c t =>
          rw [hpart] at hhead
          exact List.dropWhile_cons_of_neg (by simpa using hhead)
    rw [hkeep, hresolve]
  · intro hhead
    have habsolute : (⟨Link.pathPart rest⟩ : Path).isAbsolute = true := by
      simp [Path.isAbsolute, hhead]
    rw [hresolve, Path.join_of_isAbsolute habsolute]

/-- A configuration whose marker does not end with a slash. -/
def bareMarkerConfig : Config := { Config.standard with rootMarker := text "/docs" }

/-- A document below the root `/site`. -/
def rootedDocument : Document := ⟨.ofString "/site/guides/a.md", text "guides/a.md", []⟩

theorem resolve_rooted_sample :
    resolve .standard (.ofString "/site") rootedDocument
          (.ofTarget (text "/docs/") (text "/docs/" ++ text "api/../b#use"))
        = (Path.join (.ofString "/site") (.ofString "api/../b")).normalize
      ∧ resolve bareMarkerConfig (.ofString "/site") rootedDocument
          (.ofTarget (text "/docs") (text "/docs" ++ text "/b?v=1"))
        = (Path.ofString "/b").normalize :=
  ⟨(@resolve_rooted .standard (by decide) _ (by decide) _ _).1 (by decide),
    (@resolve_rooted bareMarkerConfig (by decide) _ (by decide) _ _).2 (by decide)⟩

/-- A slash behind the marker makes a difference: the document is there without it and missing
with it, since the link leaves the root. -/
theorem rooted_verdict_ne_of_slash :
    Link.kindOf (text "/docs/") (text "/docs/" ++ text "b") = .rooted
      ∧ Link.kindOf (text "/docs/") (text "/docs/" ++ text "/b") = .rooted
      ∧ link .standard (.ofString "/site") (.ordered [.ofString "/site/b.md"]) rootedDocument
          (.ofTarget (text "/docs/") (text "/docs/b")) = []
      ∧ link .standard (.ofString "/site") (.ordered [.ofString "/site/b.md"]) rootedDocument
          (.ofTarget (text "/docs/") (text "/docs//b"))
        = [.linkNotFound (text "/docs//b") (text "/docs/")]
      ∧ resolve .standard (.ofString "/site") rootedDocument
          (.ofTarget (text "/docs/") (text "/docs//b")) = .ofString "/b" := by
  decide +kernel

end Check
end DocAudit
