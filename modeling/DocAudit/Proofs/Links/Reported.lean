import DocAudit.Check.Links

/-!
# What is reported about a link

Whatever the rule on links finds, it finds about one link of the body, and the
violation shows the target of that link as it was written.

**Results.**
* `mem_link_iff`: the three things that can be wrong with a link.
* `link?_of_mem_link`: a violation is about the link that it was found in.
-/

namespace DocAudit

namespace Violation

/-- The target of the link that a violation is about. -/
def link? : Violation → Option Text
  | linkExtension target _ => some target
  | deprecatedLead target _ => some target
  | linkNotFound target _ => some target
  | _ => none

end Violation

namespace Check

variable {config : Config} {root : Path} {catalog : Catalog} {document : Document} {l : Link}
  {v : Violation}

/-- Of a link that is checked, the extension, each deprecated opening and the missing document are
reported. -/
theorem mem_link_iff :
    v ∈ link config root catalog document l
      ↔ isChecked config l = true
        ∧ ((∃ extension, l.extension? = some extension ∧ v = .linkExtension l.target extension)
          ∨ (∃ lead ∈ config.deprecatedLeads, l.liesUnder lead = true
            ∧ v = .deprecatedLead l.target lead)
          ∨ (hasDocument catalog (resolve config root document l) = false
            ∧ v = .linkNotFound l.target config.rootMarker)) := by
  unfold link
  cases isChecked config l with
  | false => simp
  | true =>
      cases hasDocument catalog (resolve config root document l) <;>
        simp [and_assoc, eq_comm (b := v)]

/-- A violation is about the link that it was found in. -/
theorem link?_of_mem_link (h : v ∈ link config root catalog document l) :
    v.link? = some l.target := by
  obtain ⟨_, ⟨_, _, rfl⟩ | ⟨_, _, _, rfl⟩ | ⟨_, rfl⟩⟩ := mem_link_iff.1 h <;> rfl

end Check

end DocAudit
