import DocAudit.Proofs.Auditor.RuleOrder
import DocAudit.Proofs.Markdown.Extraction
import DocAudit.Proofs.Text.Cut
import Mathlib.Data.List.Basic

/-!
# Links to assets

The openings of asset links only silence the rule on links.  What it finds with
them is what it finds without any, but for the violations of the links that lie
under one of them.  A link that is checked can have several violations, and all
of them show its target, so that they are kept or dropped together.

**Results.**
* `links_eq_filter`: the rule on links with openings and without any.
* `check_congr_assetLeads`: only the set of the openings counts.
* `check_addAssetLead`: one more opening.
-/

namespace DocAudit

namespace Link

/-- A text without one slash that it starts with. -/
def withoutSlash : Text → Text
  | '/' :: t => t
  | t => t

theorem unslashed_eq (link : Link) : link.unslashed = withoutSlash link.target := by
  unfold unslashed
  cases link.target with
  | nil => rfl
  | cons c t =>
      by_cases hc : c = '/'
      · rw [hc]
        simp [Text.after?, withoutSlash]
      · have hnone : Text.after? ['/'] (c :: t) = none := if_neg (Ne.symm hc)
        rw [hnone, Option.getD_none, withoutSlash]
        rintro t' he
        exact hc (List.cons.inj he).1

/-- A link lies under an opening that its target has behind one slash at most. -/
theorem liesUnder_iff {lead : Text} {link : Link} :
    link.liesUnder lead = true ↔ lead <+: withoutSlash link.target := by
  rw [liesUnder, unslashed_eq, Text.startsWith_iff]

end Link

namespace Violation

/-- A violation is about a link that starts with an opening, one slash in front of it aside. -/
def IsUnder (lead : Text) (violation : Violation) : Prop :=
  ∃ target ∈ violation.link?, lead <+: Link.withoutSlash target

instance (lead : Text) (violation : Violation) : Decidable (violation.IsUnder lead) :=
  inferInstanceAs (Decidable (∃ target ∈ violation.link?, lead <+: Link.withoutSlash target))

end Violation

namespace Config

/-- The configuration with other openings of asset links. -/
def withAssetLeads (config : Config) (leads : List Text) : Config :=
  { config with assetLeads := leads }

theorem addAssetLead_eq (config : Config) (lead : Text) :
    config.addAssetLead lead = config.withAssetLeads (config.addAssetLead lead).assetLeads := by
  unfold addAssetLead
  split <;> rfl

theorem mem_assetLeads_addAssetLead {config : Config} {lead other : Text} :
    other ∈ (config.addAssetLead lead).assetLeads ↔ other ∈ config.assetLeads ∨ other = lead := by
  unfold addAssetLead
  split
  · rename_i h
    constructor
    · exact Or.inl
    · rintro (hother | rfl)
      · exact hother
      · exact List.contains_iff_mem.1 h
  · exact List.mem_append.trans (or_congr_right List.mem_singleton)

end Config

namespace Check

variable (config : Config) (root : Path) (catalog : Catalog) (document : Document)

/-- A violation of a link is under the openings that the link lies under. -/
theorem isUnder_iff_of_mem_link {config : Config} {root : Path} {catalog : Catalog}
    {document : Document} {l : Link} {v : Violation}
    (h : v ∈ link config root catalog document l) (lead : Text) :
    v.IsUnder lead ↔ l.liesUnder lead = true := by
  rw [Violation.IsUnder, link?_of_mem_link h, Link.liesUnder_iff]
  simp

theorem isChecked_eq (l : Link) :
    isChecked config l = (isChecked (config.withAssetLeads []) l
      && !config.assetLeads.any fun lead => l.liesUnder lead) := by
  have hnone : isChecked (config.withAssetLeads []) l
      = (l.path ≠ [] && !l.extension?.any config.isImageExtension) := by
    rw [isChecked]
    exact Bool.and_true _
  rw [hnone]
  rfl

/-- A link that lies under no opening has the violations that it has without openings, and any other
link has none. -/
theorem link_eq_filter (l : Link) :
    link config root catalog document l
      = (link (config.withAssetLeads []) root catalog document l).filter
        fun v => ¬ ∃ lead ∈ config.assetLeads, v.IsUnder lead := by
  cases hasset : config.assetLeads.any fun lead => l.liesUnder lead with
  | true =>
      obtain ⟨lead, hlead, hunder⟩ := List.any_eq_true.1 hasset
      have hunchecked : isChecked config l = false := by
        rw [isChecked_eq, hasset, Bool.not_true, Bool.and_false]
      have hnone : link config root catalog document l = [] := by
        rw [link, hunchecked]
        rfl
      rw [hnone, eq_comm, List.filter_eq_nil_iff]
      intro v hv hkept
      exact of_decide_eq_true hkept ⟨lead, hlead, (isUnder_iff_of_mem_link hv lead).2 hunder⟩
  | false =>
      have hchecked : isChecked config l = isChecked (config.withAssetLeads []) l := by
        rw [isChecked_eq, hasset, Bool.not_false, Bool.and_true]
      have hsame : link config root catalog document l
          = link (config.withAssetLeads []) root catalog document l := by
        rw [link, hchecked]
        rfl
      rw [hsame, eq_comm, List.filter_eq_self]
      intro v hv
      refine decide_eq_true ?_
      rintro ⟨lead, hlead, hunder⟩
      exact List.any_eq_false.1 hasset lead hlead ((isUnder_iff_of_mem_link hv lead).1 hunder)

/-- The rule on links finds what it finds without openings of asset links, but for the violations of
the links that lie under one of them. -/
theorem links_eq_filter :
    links config root catalog document
      = (links (config.withAssetLeads []) root catalog document).filter
        fun v => ¬ ∃ lead ∈ config.assetLeads, v.IsUnder lead := by
  rw [links, links, List.filter_flatMap]
  exact List.flatMap_congr fun l _ => link_eq_filter config root catalog document l

end Check

namespace Auditor

variable (config : Config) (root : Path) (catalog : Catalog) (document : Document)

/-- Only the rule on links looks at the openings of asset links. -/
theorem check_withAssetLeads_of_ne {rule : Rule} (h : rule ≠ .links) (leads : List Text) :
    (Auditor.mk (config.withAssetLeads leads) root catalog).check rule document
      = (Auditor.mk config root catalog).check rule document := by
  cases rule with
  | links => exact absurd rfl h
  | _ => rfl

/-- Only the set of the openings of asset links counts. -/
theorem check_congr_assetLeads {leads others : List Text} (h : ∀ lead, lead ∈ leads ↔ lead ∈ others)
    (rule : Rule) :
    (Auditor.mk (config.withAssetLeads leads) root catalog).check rule document
      = (Auditor.mk (config.withAssetLeads others) root catalog).check rule document := by
  by_cases hrule : rule = .links
  · subst hrule
    have hleads := Check.links_eq_filter (config.withAssetLeads leads) root catalog document
    have hothers := Check.links_eq_filter (config.withAssetLeads others) root catalog document
    refine hleads.trans (Eq.trans ?_ hothers.symm)
    refine List.filter_congr fun v _ => ?_
    exact decide_eq_decide.2 (not_congr (exists_congr fun lead => and_congr_left' (h lead)))
  · rw [check_withAssetLeads_of_ne config root catalog document hrule,
      check_withAssetLeads_of_ne config root catalog document hrule]

theorem audit_congr_assetLeads {leads others : List Text}
    (h : ∀ lead, lead ∈ leads ↔ lead ∈ others) :
    (Auditor.mk (config.withAssetLeads leads) root catalog).audit document
      = (Auditor.mk (config.withAssetLeads others) root catalog).audit document := by
  have hviolations : (Auditor.mk (config.withAssetLeads leads) root catalog).violations document
      = (Auditor.mk (config.withAssetLeads others) root catalog).violations document :=
    List.flatMap_congr fun rule _ => check_congr_assetLeads config root catalog document h rule
  rw [audit, audit, hviolations]
  rfl

/-- **One more opening of asset links.**  With it the rule on links finds the same violations in the
same order, but for all violations of links that start with it, one slash in front of them aside.
Every other rule finds what it found before. -/
theorem check_addAssetLead (lead : Text) :
    (Auditor.mk (config.addAssetLead lead) root catalog).check .links document
        = ((Auditor.mk config root catalog).check .links document).filter
          (fun v => ¬ v.IsUnder lead)
      ∧ ∀ rule, rule ≠ .links →
        (Auditor.mk (config.addAssetLead lead) root catalog).check rule document
          = (Auditor.mk config root catalog).check rule document := by
  constructor
  · have hadded := Check.links_eq_filter (config.addAssetLead lead) root catalog document
    have hbefore := Check.links_eq_filter config root catalog document
    have hbare : (config.addAssetLead lead).withAssetLeads [] = config.withAssetLeads [] := by
      rw [Config.addAssetLead_eq]
      rfl
    change Check.links _ root catalog document = (Check.links config root catalog document).filter _
    rw [hadded, hbefore, hbare, List.filter_filter]
    refine List.filter_congr fun v _ => ?_
    have hunder : (∃ other ∈ (config.addAssetLead lead).assetLeads, v.IsUnder other)
        ↔ v.IsUnder lead ∨ ∃ other ∈ config.assetLeads, v.IsUnder other := by
      simp only [Config.mem_assetLeads_addAssetLead, or_and_right, exists_or, exists_eq_left,
        or_comm]
    rw [← Bool.decide_and]
    exact decide_eq_decide.2 (by rw [hunder, not_or])
  · intro rule hrule
    rw [Config.addAssetLead_eq]
    exact check_withAssetLeads_of_ne config root catalog document hrule _

/-- A document with the same link twice, to a deprecated file, and another deprecated link. -/
def downloadsDocument : Document :=
  ⟨.ofString "/site/a.md", text "a.md", text "[](</pages/x.c>)[](<pages/y>)[](</pages/x.c>)"⟩

/-- The body of the document. -/
def downloadsBody : List Markdown.Piece :=
  [.link [] (.angled (text "/pages/x.c")) none, .link [] (.angled (text "pages/y")) none,
    .link [] (.angled (text "/pages/x.c")) none]

theorem check_addAssetLead_downloadsDocument :
    Rule.heading ≠ .links
      ∧ (Auditor.mk (Config.standard.addAssetLead (text "pages/x")) (.ofString "/site")
          (.ordered [])).check .links downloadsDocument
        = [.deprecatedLead (text "pages/y") (text "pages/"),
          .linkNotFound (text "pages/y") (text "/docs/")]
      ∧ (Auditor.mk (Config.standard.addAssetLead (text "pages/x")) (.ofString "/site")
          (.ordered [])).check .heading downloadsDocument
        = (Auditor.mk .standard (.ofString "/site") (.ordered [])).check .heading
          downloadsDocument := by
  have hadded := check_addAssetLead .standard (.ofString "/site") (.ordered []) downloadsDocument
    (text "pages/x")
  have hlinks : (Auditor.mk .standard (.ofString "/site") (.ordered [])).check .links
      downloadsDocument
        = [.linkExtension (text "/pages/x.c") (text ".c"),
          .deprecatedLead (text "/pages/x.c") (text "pages/"),
          .linkNotFound (text "/pages/x.c") (text "/docs/"),
          .deprecatedLead (text "pages/y") (text "pages/"),
          .linkNotFound (text "pages/y") (text "/docs/"),
          .linkExtension (text "/pages/x.c") (text ".c"),
          .deprecatedLead (text "/pages/x.c") (text "pages/"),
          .linkNotFound (text "/pages/x.c") (text "/docs/")] := by
    have hbody : downloadsDocument.body = Markdown.Piece.writeAll downloadsBody := by
      decide +kernel
    have hfound : Markdown.links Config.standard.rootMarker downloadsDocument.body
        = [.ofTarget (text "/docs/") (text "/pages/x.c"),
            .ofTarget (text "/docs/") (text "pages/y"),
            .ofTarget (text "/docs/") (text "/pages/x.c")] := by
      rw [hbody, Markdown.links, Markdown.Piece.targets_writeAll (by decide +kernel)]
      rfl
    rw [check, Check.links, hfound]
    decide +kernel
  refine ⟨by decide, hadded.1.trans ?_, hadded.2 .heading (by decide)⟩
  rw [hlinks]
  decide +kernel

end Auditor

end DocAudit
