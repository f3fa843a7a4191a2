import DocAudit.Proofs.Markdown.Fences

/-!
# What is left without fenced code

The text before a piece of fenced code holds no fence and does not end with a
backtick, since the code would have been read from there otherwise: a fence
comes behind it in any case.  Put before another text, it therefore makes no
fence with it.  Piece by piece, what is left of a text holds no fenced code,
although texts come together in it that stood apart.

**Results.**
* `isAbsent_or_exists_front`: a text up to its first piece of fenced code.
* `isAbsent_stripFenced`: no fenced code is left.
* `stripFenced_stripFenced`: erasing fenced code a second time changes nothing.
-/

namespace DocAudit

namespace Markdown

namespace Construct

variable {α : Type} {k : Construct α}

/-- A construct that can be read nowhere in a text. -/
def IsAbsent (k : Construct α) (t : Text) : Prop := ∀ s, s <:+ t → k.read? s = none

theorem isAbsent_cons_iff {c : Char} {t : Text} :
    k.IsAbsent (c :: t) ↔ k.read? (c :: t) = none ∧ k.IsAbsent t := by
  constructor
  · intro h
    exact ⟨h _ List.suffix_rfl, fun s hs => h s (hs.trans (List.suffix_cons c t))⟩
  · rintro ⟨hfirst, hrest⟩ s hs
    rcases List.suffix_cons_iff.1 hs with rfl | hs
    · exact hfirst
    · exact hrest s hs

/-- A text without a construct stays as it is. -/
theorem IsAbsent.erase_eq {t : Text} (h : k.IsAbsent t) : k.erase t = t := by
  induction t with
  | nil => exact erase_nil k
  | cons c t ih =>
      obtain ⟨hfirst, hrest⟩ := isAbsent_cons_iff.1 h
      rw [erase_cons_of_read? hfirst, ih hrest]

end Construct

theorem afterFence?_ne_none {t : Text} (h : fence <:+: t) : afterFence? t ≠ none := by
  induction t with
  | nil => exact absurd h (by decide)
  | cons c t ih =>
      rw [afterFence?]
      split
      · exact Option.some_ne_none _
      · rename_i hnone
        rcases List.infix_cons_iff.1 h with ⟨rest, hrest⟩ | hin
        · rw [← hrest, Text.after?_append] at hnone
          cases hnone
        · exact ih hin

/-- A fence is read with the character behind it, if another fence comes at all. -/
theorem fenced_read?_ne_none (c : Char) {t : Text} (h : fence <:+: t) :
    fenced.read? (fence ++ c :: t) ≠ none := by
  rw [fenced_read?, readFenced?, Text.after?_append]
  simp only
  rw [ne_eq, Option.map_eq_none_iff]
  exact afterFence?_ne_none h

/-- Where fenced code is not read although some comes, no fence starts before the one of the
code. -/
theorem IsFenceless.cons {c : Char} {front s rest : Text} (h : IsFenceless front)
    (hs : fenced.read? s = some ((), rest)) (hnone : fenced.read? (c :: (front ++ s)) = none) :
    IsFenceless (c :: front) := by
  obtain ⟨d, inner, hinner, rfl⟩ := fenced_read?_eq_some_iff.1 hs
  constructor
  · rw [List.infix_cons_iff]
    rintro (⟨behind, hbehind⟩ | hin)
    · cases behind with
      | nil =>
          obtain rfl : front = [tick, tick] := (List.cons.inj hbehind).2.symm
          exact h.2 rfl
      | cons e behind =>
          have hfence : fence <:+: behind ++ (fence ++ d :: (inner ++ fence) ++ rest) :=
            ⟨behind, d :: (inner ++ fence) ++ rest, by simp⟩
          rw [← List.cons_append, ← hbehind, List.append_assoc, List.cons_append] at hnone
          exact fenced_read?_ne_none e hfence hnone
    · exact h.1 hin
  · cases front with
    | nil =>
        intro he
        obtain rfl : c = tick := Option.some.inj he
        have hfence : fence <:+: d :: (inner ++ fence) ++ rest := ⟨d :: inner, rest, by simp⟩
        exact fenced_read?_ne_none tick hfence hnone
    | cons e front =>
        rw [List.getLast?_cons_cons]
        exact h.2

/-- A text holds no fenced code, or no fence starts in it before its first piece of fenced code. -/
theorem isAbsent_or_exists_front (t : Text) :
    fenced.IsAbsent t
      ∨ ∃ front s rest, IsFenceless front ∧ t = front ++ s
          ∧ fenced.read? s = some ((), rest) := by
  induction t with
  | nil =>
      left
      intro s hs
      rw [List.suffix_nil.1 hs]
      rfl
  | cons c t ih =>
      cases hread : fenced.read? (c :: t) with
      | some found => exact Or.inr ⟨[], c :: t, found.2, isFenceless_nil, rfl, hread⟩
      | none =>
          rcases ih with habsent | ⟨front, s, rest, hfront, rfl, hs⟩
          · exact Or.inl (Construct.isAbsent_cons_iff.2 ⟨hread, habsent⟩)
          · exact Or.inr ⟨c :: front, s, rest, hfront.cons hs hread, rfl, hs⟩

theorem IsFenceless.isAbsent_append {front t : Text} (h : IsFenceless front)
    (ht : fenced.IsAbsent t) : fenced.IsAbsent (front ++ t) := by
  induction front with
  | nil => exact ht
  | cons c front ih =>
      have hstart := not_fence_prefix_of_isFenceless h t
      exact Construct.isAbsent_cons_iff.2 ⟨fenced_read?_eq_none hstart, ih h.tail⟩

/-- No fenced code is left.  The induction goes from the text to what follows its first piece. -/
theorem isAbsent_stripFenced (t : Text) : fenced.IsAbsent (stripFenced t) := by
  induction hlength : t.length using Nat.strong_induction_on generalizing t with
  | _ length ih =>
      rcases isAbsent_or_exists_front t with habsent | ⟨front, s, rest, hfront, rfl, hread⟩
      · rw [stripFenced, habsent.erase_eq]
        exact habsent
      · have hshorter : rest.length < length := by
          have := fenced.shorter hread
          rw [List.length_append] at hlength
          omega
        rw [stripFenced, erase_fenceless_append hfront, Construct.erase_of_read? hread]
        exact hfront.isAbsent_append (ih _ hshorter rest rfl)

/-- **Erasing fenced code once is enough.**  Erasing it from what is left changes nothing, since
what is left holds no fence that is followed by a character and, sooner or later, by another
fence. -/
theorem stripFenced_stripFenced (t : Text) :
    stripFenced (stripFenced t) = stripFenced t
      ∧ ∀ (c : Char) (inner : Text), ¬ fence ++ c :: (inner ++ fence) <:+: stripFenced t := by
  have habsent := isAbsent_stripFenced t
  refine ⟨habsent.erase_eq, ?_⟩
  rintro c inner ⟨before, behind, hleft⟩
  have hfence : fence <:+: inner ++ fence ++ behind := ⟨inner, behind, rfl⟩
  refine fenced_read?_ne_none c hfence (habsent _ ⟨before, ?_⟩)
  rw [← hleft]
  simp

/-- Runs of backticks on both sides of a piece come together, without a fence that is closed. -/
example :
    stripFenced (text "a\x60\x60\x60\x60b\x60\x60\x60\x60\x60c\x60\x60\x60")
      = text "a\x60\x60c\x60\x60\x60" := by
  cbv

end Markdown

end DocAudit
