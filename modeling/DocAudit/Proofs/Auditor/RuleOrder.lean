import DocAudit.Auditor
import DocAudit.Proofs.Links.Reported

/-!
# The rules in their order

The tag of a violation is read off the violation itself, and the rules are
applied one after the other.  Every rule finds violations of its own tag only.
The violations of a document are therefore sorted by their tags, and those of
one tag are what the rule finds when it is applied alone.

**Results.**
* `rule_of_mem_check`: a rule finds violations of its own.
* `filter_violations`: the violations of one rule are what it finds alone.
* `pairwise_rank_violations`: the violations stand in the order of the rules.
* `audit_composition`: the report on a document as a composition of the rules.
-/

namespace DocAudit

namespace Rule

/-- No rule is applied twice. -/
theorem nodup_all : all.Nodup := by
  decide

/-- The rules are applied in ascending order. -/
theorem pairwise_rank_all : all.Pairwise fun rule later => rule.rank < later.rank := by
  decide

end Rule

namespace Check

theorem eq_of_mem_ite {p : Prop} [Decidable p] {violation v : Violation}
    (h : v ∈ if p then [] else [violation]) : v = violation := by
  split at h
  · cases h
  · exact List.mem_singleton.1 h

theorem length_ite_le_one {p : Prop} [Decidable p] (violation : Violation) :
    (if p then [] else [violation]).length ≤ 1 := by
  split
  · exact Nat.zero_le _
  · exact Nat.le_refl _

/-- Whatever is found about a link breaks the rule on links. -/
theorem rule_of_mem_link {config : Config} {root : Path} {catalog : Catalog} {document : Document}
    {l : Link} {v : Violation} (h : v ∈ link config root catalog document l) :
    v.rule = .links := by
  obtain ⟨_, ⟨_, _, rfl⟩ | ⟨_, _, _, rfl⟩ | ⟨_, rfl⟩⟩ := mem_link_iff.1 h <;> rfl

end Check

namespace Auditor

variable (auditor : Auditor) (document : Document)

/-- A rule finds violations of its own. -/
theorem rule_of_mem_check {rule : Rule} {v : Violation} (h : v ∈ auditor.check rule document) :
    v.rule = rule := by
  cases rule with
  | case => rw [Check.eq_of_mem_ite h]; rfl
  | extension => rw [Check.eq_of_mem_ite h]; rfl
  | links =>
      obtain ⟨link, _, hlink⟩ := List.mem_flatMap.1 h
      exact Check.rule_of_mem_link hlink
  | heading =>
      obtain ⟨heading, _, rfl⟩ := List.mem_map.1 h
      rfl
  | frontMatter => rw [Check.eq_of_mem_ite h]; rfl

/-- Among what a rule finds, the violations of a rule are all or none. -/
theorem filter_check (rule other : Rule) :
    (auditor.check other document).filter (fun v => v.rule = rule)
      = if other = rule then auditor.check other document else [] := by
  split
  · rename_i he
    rw [List.filter_eq_self]
    intro v hv
    exact decide_eq_true ((rule_of_mem_check auditor document hv).trans he)
  · rename_i hne
    rw [List.filter_eq_nil_iff]
    intro v hv hrule
    exact hne ((rule_of_mem_check auditor document hv).symm.trans (of_decide_eq_true hrule))

/-- Of rules that are applied one after the other, each contributes what it finds alone. -/
theorem flatMap_ite_eq {rules : List Rule} (hnodup : rules.Nodup) {rule : Rule}
    (hmem : rule ∈ rules) (found : Rule → List Violation) :
    (rules.flatMap fun other => if other = rule then found other else []) = found rule := by
  induction rules with
  | nil => cases hmem
  | cons first rules ih =>
      obtain ⟨hfirst, hrest⟩ := List.nodup_cons.1 hnodup
      rw [List.flatMap_cons]
      by_cases he : first = rule
      · subst he
        have hnone :
            (rules.flatMap fun other => if other = first then found other else []) = [] := by
          rw [List.flatMap_eq_nil_iff]
          intro other hother
          rw [if_neg]
          rintro rfl
          exact hfirst hother
        rw [if_pos rfl, hnone, List.append_nil]
      · have hlater : rule ∈ rules := (List.mem_cons.1 hmem).resolve_left (Ne.symm he)
        rw [if_neg he, List.nil_append, ih hrest hlater]

/-- The violations of one rule are what the rule finds when it is applied alone. -/
theorem filter_violations (rule : Rule) :
    (auditor.violations document).filter (fun v => v.rule = rule)
      = auditor.check rule document := by
  rw [violations, List.filter_flatMap]
  simp only [filter_check]
  exact flatMap_ite_eq Rule.nodup_all (Rule.mem_all rule) fun other => auditor.check other document

/-- The violations stand in the order of the rules. -/
theorem pairwise_rank_violations :
    (auditor.violations document).Pairwise fun v later => v.rule.rank ≤ later.rule.rank := by
  rw [violations, List.pairwise_flatMap]
  constructor
  · intro rule _
    refine List.Pairwise.imp_of_mem ?_ (List.pairwise_of_forall fun _ _ => trivial)
    intro v later hv hlater _
    have hsame : v.rule = later.rule :=
      (rule_of_mem_check auditor document hv).trans (rule_of_mem_check auditor document hlater).symm
    exact Nat.le_of_eq (congrArg Rule.rank hsame)
  · refine Rule.pairwise_rank_all.imp ?_
    intro rule other hlt v hv later hlater
    rw [rule_of_mem_check auditor document hv, rule_of_mem_check auditor document hlater]
    exact Nat.le_of_lt hlt

/-- The rules on names and on front matter find one violation at most. -/
theorem length_check_le_one {rule : Rule} (hrule : rule ≠ .links ∧ rule ≠ .heading) :
    (auditor.check rule document).length ≤ 1 := by
  cases rule with
  | case => exact Check.length_ite_le_one _
  | extension => exact Check.length_ite_le_one _
  | links => exact absurd rfl hrule.1
  | heading => exact absurd rfl hrule.2
  | frontMatter => exact Check.length_ite_le_one _

/-- **The rules in their order.**  The report on an exempt document is empty.  The violations of any
other document stand in the order of the rules.  Those of one rule are, in their order, what the
rule finds when it is applied alone, and for the rules on names and on front matter this is one
violation at most. -/
theorem audit_composition :
    (auditor.exempts document.relativePath = true → (auditor.audit document).violations = [])
      ∧ (auditor.exempts document.relativePath = false →
        (auditor.audit document).violations.Pairwise
            (fun v later => v.rule.rank ≤ later.rule.rank)
          ∧ ∀ rule,
            (auditor.audit document).violations.filter (fun v => v.rule = rule)
                = auditor.check rule document
              ∧ (rule ≠ .links ∧ rule ≠ .heading →
                ((auditor.audit document).violations.filter fun v =>
                  v.rule = rule).length ≤ 1)) := by
  constructor
  · intro hexempt
    rw [audit, if_pos hexempt]
  · intro hexempt
    have hviolations : (auditor.audit document).violations = auditor.violations document := by
      rw [audit, if_neg (Bool.eq_false_iff.1 hexempt)]
    rw [hviolations]
    refine ⟨pairwise_rank_violations auditor document, fun rule => ?_⟩
    rw [filter_violations]
    exact ⟨rfl, length_check_le_one auditor document⟩

/-- A document that breaks every rule on names and on content. -/
def carelessDocument : Document :=
  .ofFile (.ofString "/site") (.ofString "/site/Guides/Setup.txt") (text "# Setup\n\n# Use\n")

/-- An image that would break the rules on names. -/
def carelessImage : Document :=
  .ofFile (.ofString "/site") (.ofString "/site/Guides/Logo.png") []

theorem audit_composition_carelessDocument :
    ∃ auditor : Auditor, auditor.exempts carelessImage.relativePath = true
      ∧ (auditor.audit carelessImage).violations = []
      ∧ auditor.exempts carelessDocument.relativePath = false
      ∧ (auditor.audit carelessDocument).violations.Pairwise
          (fun v later => v.rule.rank ≤ later.rule.rank)
      ∧ (auditor.audit carelessDocument).violations.filter (fun v => v.rule = .case)
          = [.upperCasePath]
      ∧ (auditor.audit carelessDocument).violations.filter (fun v => v.rule = .heading)
          = [.topLevelHeading (text "# Setup"), .topLevelHeading (text "# Use")]
      ∧ ((auditor.audit carelessDocument).violations.filter
          fun v => v.rule = .frontMatter).length ≤ 1 := by
  let auditor : Auditor := ⟨.standard, .ofString "/site", .ordered []⟩
  have hexempt : auditor.exempts carelessImage.relativePath = true := by decide +kernel
  have hempty := (audit_composition auditor carelessImage).1 hexempt
  have haudited : auditor.exempts carelessDocument.relativePath = false := by decide +kernel
  obtain ⟨hsorted, hrules⟩ := (audit_composition auditor carelessDocument).2 haudited
  have hcase : auditor.check .case carelessDocument = [.upperCasePath] := by decide +kernel
  have hheading : auditor.check .heading carelessDocument
      = [.topLevelHeading (text "# Setup"), .topLevelHeading (text "# Use")] := by
    decide +kernel
  have hfrontMatter := (hrules .frontMatter).2 (by decide)
  exact ⟨auditor, hexempt, hempty, haudited, hsorted, (hrules .case).1.trans hcase,
    (hrules .heading).1.trans hheading, hfrontMatter⟩

end Auditor

end DocAudit
