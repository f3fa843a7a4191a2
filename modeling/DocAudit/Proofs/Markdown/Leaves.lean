import DocAudit.Markdown.Construct

/-!
# What is left of a text

`Leaves` is the relation between a text and what is left of it when some pieces
are taken out.  A part of what is left comes from a part of the text, and what
is left after two rounds is left after one round that takes out the pieces of
both.

**Results.**
* `Leaves.exists_append`: parts of what is left come from parts of the text.
* `Leaves.trans`: two rounds as one.
* `leaves_erase`: a search takes out what it reads.
-/

namespace DocAudit

namespace Markdown

/-- A text leaves another one if the other one is what remains when some pieces of the text, each of
a kind, are taken out. -/
inductive Leaves (IsTaken : Text → Prop) : Text → Text → Prop
  | nil : Leaves IsTaken [] []
  | keep (c : Char) {t s : Text} : Leaves IsTaken t s → Leaves IsTaken (c :: t) (c :: s)
  | take {piece t s : Text} : IsTaken piece → Leaves IsTaken t s → Leaves IsTaken (piece ++ t) s

namespace Leaves

variable {P Q : Text → Prop} {t s : Text}

theorem append (h : Leaves P t s) {t' s' : Text} (h' : Leaves P t' s') :
    Leaves P (t ++ t') (s ++ s') := by
  induction h with
  | nil => exact h'
  | keep c _ ih => exact ih.keep c
  | take hpiece _ ih =>
      rw [List.append_assoc]
      exact ih.take hpiece

theorem mono (hPQ : ∀ piece, P piece → Q piece) (h : Leaves P t s) : Leaves Q t s := by
  induction h with
  | nil => exact nil
  | keep c _ ih => exact ih.keep c
  | take hpiece _ ih => exact ih.take (hPQ _ hpiece)

theorem refl (t : Text) : Leaves P t t := by
  induction t with
  | nil => exact nil
  | cons c _ ih => exact ih.keep c

/-- If nothing can be taken out, everything is left. -/
theorem eq_of_forall_not (hP : ∀ piece, ¬ P piece) (h : Leaves P t s) : t = s := by
  induction h with
  | nil => rfl
  | keep c _ ih => rw [ih]
  | take hpiece _ _ => exact absurd hpiece (hP _)

/-- Before a character that is left stand pieces that were taken out, and then the character. -/
theorem exists_cons {c : Char} (h : Leaves P t (c :: s)) :
    ∃ gap rest, t = gap ++ c :: rest ∧ Leaves P gap [] ∧ Leaves P rest s := by
  generalize hcs : c :: s = left at h
  induction h with
  | nil => cases hcs
  | keep d h _ =>
      cases hcs
      exact ⟨[], _, rfl, nil, h⟩
  | take hpiece _ ih =>
      obtain ⟨gap, rest, rfl, hgap, hrest⟩ := ih hcs
      exact ⟨_ ++ gap, rest, (List.append_assoc _ _ _).symm, hgap.take hpiece, hrest⟩

/-- Parts of what is left come from parts of the text. -/
theorem exists_append {a b : Text} (h : Leaves P t (a ++ b)) :
    ∃ u v, t = u ++ v ∧ Leaves P u a ∧ Leaves P v b := by
  induction a generalizing t with
  | nil => exact ⟨[], t, rfl, nil, h⟩
  | cons c a ih =>
      obtain ⟨gap, rest, rfl, hgap, hrest⟩ := exists_cons h
      obtain ⟨u, v, rfl, hu, hv⟩ := ih hrest
      refine ⟨gap ++ c :: u, v, by simp, ?_, hv⟩
      exact hgap.append (hu.keep c)

/-- Taking out pieces in two rounds takes out, all in all, the pieces of the first round and those
texts that the pieces of the second round are left of. -/
theorem trans {m : Text} (h : Leaves P t m) (h' : Leaves Q m s) :
    Leaves (fun piece => P piece ∨ ∃ q, Q q ∧ Leaves P piece q) t s := by
  induction h' generalizing t with
  | nil => exact h.mono fun _ => Or.inl
  | keep c _ ih =>
      obtain ⟨gap, rest, rfl, hgap, hrest⟩ := exists_cons h
      exact (hgap.mono fun _ => Or.inl).append ((ih hrest).keep c)
  | take hpiece _ ih =>
      obtain ⟨u, v, rfl, hu, hv⟩ := exists_append h
      exact (ih hv).take (Or.inr ⟨_, hpiece, hu⟩)

/-- A text is left as it is, or it is left up to the first piece that is taken out. -/
theorem exists_first (h : Leaves P t s) :
    t = s ∨ ∃ first piece rest second, P piece ∧ Leaves P rest second
      ∧ t = first ++ (piece ++ rest) ∧ s = first ++ second := by
  induction h with
  | nil => exact Or.inl rfl
  | keep c _ ih =>
      rcases ih with rfl | ⟨first, piece, rest, second, hpiece, hrest, rfl, rfl⟩
      · exact Or.inl rfl
      · exact Or.inr ⟨c :: first, piece, rest, second, hpiece, hrest, rfl, rfl⟩
  | take hpiece h _ => exact Or.inr ⟨[], _, _, _, hpiece, h, rfl, rfl⟩

end Leaves

/-- A search takes out what it reads. -/
theorem leaves_erase {α : Type} {k : Construct α} {IsTaken : Text → Prop}
    (hk : ∀ {t : Text} {a : α} {rest : Text}, k.read? t = some (a, rest) →
      ∃ piece, IsTaken piece ∧ t = piece ++ rest) (t : Text) :
    Leaves IsTaken t (k.erase t) := by
  fun_induction Construct.erase k t with
  | case1 t a rest h ih =>
      obtain ⟨piece, hpiece, rfl⟩ := hk h
      exact ih.take hpiece
  | case2 => exact Leaves.nil
  | case3 c t h ih => exact ih.keep c

end Markdown

end DocAudit
