import DocAudit.Auditor

/-!
# Letter case, character by character

Lower-casing looks at more than one character at a time: a capital sigma turns
into one of two letters by what stands around it, and the capital I with a dot
above turns into two characters.  Whether it changes a text does not hang on
any of that.  What a character turns into starts with the character itself only
if it is nothing but the character, so that the first change of a text is seen
at the character where it happens.

**Results.**
* `ofText_singleton`: a character alone has its own lower-case form.
* `ofText_eq_self_iff`: a text stays as it is exactly if its characters do.
* `check_case_characters`: what the rule on letter case says of a path.
-/

namespace DocAudit

namespace Lowercase

theorem ofChar_sigma : ofChar sigma = ['σ'] := by decide

theorem ofChar_ne_nil (c : Char) : ofChar c ≠ [] := by
  unfold ofChar
  split
  · exact List.cons_ne_nil _ _
  · split <;> exact List.cons_ne_nil _ _

/-- A lower-case form that starts with its character is nothing but the character. -/
theorem eq_nil_of_ofChar_eq_cons {c : Char} {rest : Text} (h : ofChar c = c :: rest) :
    rest = [] := by
  unfold ofChar at h
  split at h
  · rename_i hc
    rw [hc] at h
    exact absurd (List.cons.inj h).1 (by decide)
  · split at h <;> exact (List.cons.inj h).2.symm

/-- A text stays as it is if its first character does and the rest does behind it. -/
theorem after_cons_eq_self_iff (before : Text) (c : Char) (t : Text) :
    after before (c :: t) = c :: t ↔ ofChar c = [c] ∧ after (c :: before) t = t := by
  rw [after]
  split
  · rename_i hc
    -- Neither small sigma is the capital one, wherever it stands.
    have hleft : ¬ ofChar c = [c] := by
      rw [hc, ofChar_sigma]
      decide
    have hright : ∀ small ∈ ['ς', 'σ'], small ≠ c := by
      rw [hc]
      decide
    refine iff_of_false (fun h => ?_) fun h => hleft h.1
    refine hright _ ?_ (List.cons.inj h).1
    split <;> simp
  · obtain ⟨d, form, hform⟩ := List.exists_cons_of_ne_nil (ofChar_ne_nil c)
    rw [hform, List.cons_append]
    constructor
    · intro h
      obtain ⟨rfl, hrest⟩ := List.cons.inj h
      have hnil := eq_nil_of_ofChar_eq_cons hform
      rw [hnil] at hrest ⊢
      exact ⟨rfl, hrest⟩
    · rintro ⟨hc, hrest⟩
      rw [← List.cons_append, hc, hrest]
      rfl

theorem after_eq_self_iff (before t : Text) :
    after before t = t ↔ ∀ c ∈ t, ofChar c = [c] := by
  induction t generalizing before with
  | nil => simp [after]
  | cons c t ih => rw [after_cons_eq_self_iff, ih, List.forall_mem_cons]

/-- A text stays as it is exactly if each of its characters does. -/
theorem ofText_eq_self_iff (t : Text) : ofText t = t ↔ ∀ c ∈ t, ofChar c = [c] :=
  after_eq_self_iff [] t

/-- A character alone has its own lower-case form, also a capital sigma, which ends no word
there. -/
theorem ofText_singleton (c : Char) : ofText [c] = ofChar c := by
  rw [ofText, after, after, List.append_nil]
  split
  · rename_i hc
    rw [hc, ofChar_sigma]
    rfl
  · rfl

end Lowercase

namespace Check

/-- A path is accepted exactly if no character of it is changed. -/
theorem case_eq_nil_iff (document : Document) :
    case document = [] ↔ ∀ c ∈ document.relativePath, Lowercase.ofText [c] = [c] := by
  have hpath := Lowercase.ofText_eq_self_iff document.relativePath
  simp only [Lowercase.ofText_singleton]
  rw [case, ← hpath]
  split
  · rename_i h
    exact iff_of_true rfl h.symm
  · rename_i h
    exact iff_of_false (List.cons_ne_nil _ _) fun e => h e.symm

/-- There is one violation exactly if some character is changed, however many are. -/
theorem case_eq_singleton_iff (document : Document) :
    case document = [.upperCasePath] ↔ ∃ c ∈ document.relativePath, Lowercase.ofText [c] ≠ [c] := by
  have hcase : case document = [.upperCasePath] ↔ ¬ case document = [] := by
    rw [case]
    split <;> simp
  rw [hcase, case_eq_nil_iff]
  simp only [Classical.not_forall, exists_prop, ne_eq]

end Check

namespace Auditor

/-- **Letter case is judged character by character.**  The rule on letter case has one violation
exactly if lower-casing changes a character of the relative path, taken by itself, and none exactly
if it changes no character.  A path that is two paths with a slash between them is accepted exactly
if both of them are. -/
theorem check_case_characters (auditor : Auditor) :
    (∀ document : Document,
        (auditor.check .case document = [.upperCasePath]
            ↔ ∃ c ∈ document.relativePath, Lowercase.ofText [c] ≠ [c])
          ∧ (auditor.check .case document = []
            ↔ ∀ c ∈ document.relativePath, Lowercase.ofText [c] = [c]))
      ∧ ∀ whole first second : Document,
        auditor.check .case
            { whole with relativePath := first.relativePath ++ '/' :: second.relativePath } = []
          ↔ auditor.check .case first = [] ∧ auditor.check .case second = [] := by
  refine ⟨fun document => ?_, fun whole first second => ?_⟩
  · exact ⟨Check.case_eq_singleton_iff document, Check.case_eq_nil_iff document⟩
  · have hslash : Lowercase.ofText ['/'] = ['/'] := by decide
    change Check.case _ = [] ↔ Check.case first = [] ∧ Check.case second = []
    rw [Check.case_eq_nil_iff, Check.case_eq_nil_iff, Check.case_eq_nil_iff,
      List.forall_mem_append, List.forall_mem_cons, and_iff_right hslash]

/-- Either small sigma stays, whatever stands around it. -/
example :
    Check.case (.ofFile (.ofString "/Site") (.ofString "/Site/ς.σ/σσ.md") []) = [] := by
  decide +kernel

end Auditor

end DocAudit
