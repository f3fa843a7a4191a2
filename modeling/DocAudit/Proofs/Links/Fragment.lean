import DocAudit.Proofs.Links.Reported
import DocAudit.Proofs.Text.Cut

/-!
# Fragments and queries

A fragment or a query is whatever stands in a target from the first number sign
or question mark on.  The scheme, the root marker and the openings of the
configuration have neither of these characters, so that they end before it, and
the path leaves it away.  The verdict on a link therefore only differs in the
target that it shows.

**Results.**
* `kindOf_append_fragment`: the kind of a target.
* `link_of_fragment`: the violations of a link.
-/

namespace DocAudit

namespace Text

theorem startsWith_append_cons {c : Char} {lead : Text} (h : c ∉ lead) (t s : Text) :
    startsWith lead (t ++ c :: s) = startsWith lead t := by
  rw [startsWith, startsWith, after?_append_cons h, Option.isSome_map]

end Text

namespace Violation

/-- The violation with another target for the link that it is about. -/
def withLink (target : Text) : Violation → Violation
  | linkExtension _ extension => .linkExtension target extension
  | deprecatedLead _ lead => .deprecatedLead target lead
  | linkNotFound _ marker => .linkNotFound target marker
  | violation => violation

end Violation

namespace Link

variable {c : Char}

theorem notMem_of_forall_endsPath {lead : Text} (hc : endsPath c = true)
    (h : ∀ d ∈ lead, endsPath d = false) : c ∉ lead := by
  intro hm
  rw [h c hm] at hc
  cases hc

theorem eq_of_endsPath (hc : endsPath c = true) : c = '#' ∨ c = '?' := by
  simpa [endsPath] using hc

theorem endsScheme_append (hc : endsPath c = true) (t s : Text) :
    endsScheme (t ++ c :: s) = endsScheme t := by
  induction t with
  | nil =>
      rcases eq_of_endsPath hc with rfl | rfl <;> rfl
  | cons d t ih => rw [List.cons_append, endsScheme, endsScheme, ih]

theorem hasScheme_append (hc : endsPath c = true) (t s : Text) :
    hasScheme (t ++ c :: s) = hasScheme t := by
  cases t with
  | nil =>
      rcases eq_of_endsPath hc with rfl | rfl <;> rfl
  | cons d t => rw [List.cons_append, hasScheme, hasScheme, endsScheme_append hc]

/-- A target has its kind from what stands before its fragment or query. -/
theorem kindOf_append_fragment {marker : Text} (hmarker : ∀ d ∈ marker, endsPath d = false)
    (hc : endsPath c = true) (t s : Text) : kindOf marker (t ++ c :: s) = kindOf marker t := by
  have hslashes : c ∉ text "//" := notMem_of_forall_endsPath hc (by decide)
  rw [kindOf, kindOf, hasScheme_append hc, Text.startsWith_append_cons hslashes,
    Text.startsWith_append_cons (notMem_of_forall_endsPath hc hmarker)]

theorem path_append_fragment (marker : Text) {t : Text} (ht : ∀ d ∈ t, endsPath d = false)
    (hc : endsPath c = true) (s : Text) :
    (ofTarget marker (t ++ c :: s)).path = (ofTarget marker t).path := by
  have hkept : ∀ d ∈ t, (!endsPath d) = true := fun d hd => by rw [ht d hd, Bool.not_false]
  have hstop : (!endsPath c) = false := by rw [hc, Bool.not_true]
  change (t ++ c :: s).takeWhile _ = t.takeWhile _
  rw [Text.takeWhile_run hkept hstop, List.takeWhile_eq_self_iff.2 hkept]

theorem liesUnder_append_fragment (marker : Text) {lead : Text}
    (hlead : ∀ d ∈ lead, endsPath d = false) (hc : endsPath c = true) (t s : Text) :
    (ofTarget marker (t ++ c :: s)).liesUnder lead = (ofTarget marker t).liesUnder lead := by
  have hslash : c ∉ ['/'] := notMem_of_forall_endsPath hc (by decide)
  have hunslashed : (ofTarget marker (t ++ c :: s)).unslashed
      = (ofTarget marker t).unslashed ++ c :: s := by
    change (Text.after? ['/'] (t ++ c :: s)).getD (t ++ c :: s)
      = (Text.after? ['/'] t).getD t ++ c :: s
    rw [Text.after?_append_cons hslash]
    cases Text.after? ['/'] t <;> rfl
  rw [liesUnder, hunslashed, Text.startsWith_append_cons (notMem_of_forall_endsPath hc hlead)]
  rfl

end Link

namespace Check

section

variable {config : Config} (root : Path) (catalog : Catalog) (document : Document)

/-- Links of one kind and one path that lie under the same openings have the same violations, but
that each of them shows its own target. -/
theorem link_eq_map_withLink {l m : Link} (hkind : l.kind = m.kind) (hpath : l.path = m.path)
    (hassets : ∀ lead ∈ config.assetLeads, l.liesUnder lead = m.liesUnder lead)
    (hdeprecated : ∀ lead ∈ config.deprecatedLeads, l.liesUnder lead = m.liesUnder lead) :
    link config root catalog document l
      = (link config root catalog document m).map (Violation.withLink l.target) := by
  have hextension : l.extension? = m.extension? := by
    rw [Link.extension?, Link.extension?, hpath]
  have hasset : (config.assetLeads.any fun lead => l.liesUnder lead)
      = config.assetLeads.any fun lead => m.liesUnder lead := by
    rw [Bool.eq_iff_iff, List.any_eq_true, List.any_eq_true]
    exact exists_congr fun lead => and_congr_right fun hlead => by rw [hassets lead hlead]
  have hchecked : isChecked config l = isChecked config m := by
    rw [isChecked, isChecked, hpath, hextension, hasset]
  have hresolve : resolve config root document l = resolve config root document m := by
    rw [resolve, resolve, target, target, hkind, hpath]
  rw [link, link, hchecked, hextension, hresolve, List.filter_congr hdeprecated]
  split
  · rw [List.map_append, List.map_append, List.map_map, List.map_map]
    split <;> rfl
  · rfl

end

/-- **Fragments and queries.**  Take a configuration in which neither the root marker nor an opening
of asset links or of deprecated links has a number sign or a question mark, and any target without
these characters.  With whatever starts with one of them behind it, the target has the same kind,
and it has the same violations in the same order, but that they show the longer target. -/
theorem link_of_fragment {config : Config}
    (hmarker : ∀ d ∈ config.rootMarker, Link.endsPath d = false)
    (hassets : ∀ lead ∈ config.assetLeads, ∀ d ∈ lead, Link.endsPath d = false)
    (hdeprecated : ∀ lead ∈ config.deprecatedLeads, ∀ d ∈ lead, Link.endsPath d = false)
    (root : Path) (catalog : Catalog) (document : Document) {t s : Text}
    (ht : ∀ d ∈ t, Link.endsPath d = false) (hs : ∃ c ∈ s.head?, Link.endsPath c = true) :
    Link.kindOf config.rootMarker (t ++ s) = Link.kindOf config.rootMarker t
      ∧ (∀ v ∈ link config root catalog document (.ofTarget config.rootMarker t),
        v.link? = some t)
      ∧ link config root catalog document (.ofTarget config.rootMarker (t ++ s))
        = (link config root catalog document (.ofTarget config.rootMarker t)).map
          (Violation.withLink (t ++ s)) := by
  obtain ⟨c, hc, hends⟩ := hs
  obtain ⟨s, rfl⟩ := List.head?_eq_some_iff.1 hc
  have hkind := Link.kindOf_append_fragment hmarker hends t s
  have hpath := Link.path_append_fragment config.rootMarker ht hends s
  refine ⟨hkind, fun v hv => link?_of_mem_link hv, ?_⟩
  refine link_eq_map_withLink root catalog document hkind hpath ?_ ?_
  · intro lead hlead
    exact Link.liesUnder_append_fragment config.rootMarker (hassets lead hlead) hends t s
  · intro lead hlead
    exact Link.liesUnder_append_fragment config.rootMarker (hdeprecated lead hlead) hends t s

/-- A configuration with openings of both kinds, one of them for whatever starts with a dot. -/
def openingsConfig : Config :=
  { Config.standard with
    deprecatedLeads := [text "pages/", text "pages/old"]
    assetLeads := [text "configs/", text "."] }

/-- A document of the tree at `/site`. -/
def citingDocument : Document := ⟨.ofString "/site/guides/a.md", text "guides/a.md", []⟩

theorem link_of_fragment_citingDocument :
    Link.kindOf (text "/docs/") (text "/docs/b" ++ text "?to=http://c.png#./d") = .rooted
      ∧ link openingsConfig (.ofString "/site") (.ordered []) citingDocument
          (.ofTarget (text "/docs/") (text "/pages/old.txt" ++ text "#/../e.png?:"))
        = [.linkExtension (text "/pages/old.txt#/../e.png?:") (text ".txt"),
          .deprecatedLead (text "/pages/old.txt#/../e.png?:") (text "pages/"),
          .deprecatedLead (text "/pages/old.txt#/../e.png?:") (text "pages/old"),
          .linkNotFound (text "/pages/old.txt#/../e.png?:") (text "/docs/")] := by
  have hmarker : ∀ d ∈ openingsConfig.rootMarker, Link.endsPath d = false := by decide
  have hassets : ∀ lead ∈ openingsConfig.assetLeads, ∀ d ∈ lead, Link.endsPath d = false := by
    decide
  have hdeprecated : ∀ lead ∈ openingsConfig.deprecatedLeads, ∀ d ∈ lead,
      Link.endsPath d = false := by
    decide
  have hrooted := link_of_fragment hmarker hassets hdeprecated (.ofString "/site") (.ordered [])
    citingDocument (t := text "/docs/b") (s := text "?to=http://c.png#./d") (by decide)
    ⟨'?', rfl, rfl⟩
  have hstale := link_of_fragment hmarker hassets hdeprecated (.ofString "/site") (.ordered [])
    citingDocument (t := text "/pages/old.txt") (s := text "#/../e.png?:") (by decide)
    ⟨'#', rfl, rfl⟩
  have hshort : link openingsConfig (.ofString "/site") (.ordered []) citingDocument
      (.ofTarget openingsConfig.rootMarker (text "/pages/old.txt"))
        = [.linkExtension (text "/pages/old.txt") (text ".txt"),
          .deprecatedLead (text "/pages/old.txt") (text "pages/"),
          .deprecatedLead (text "/pages/old.txt") (text "pages/old"),
          .linkNotFound (text "/pages/old.txt") (text "/docs/")] := by
    decide +kernel
  refine ⟨hrooted.1.trans (by decide), hstale.2.2.trans ?_⟩
  rw [hshort]
  rfl

end Check

end DocAudit
