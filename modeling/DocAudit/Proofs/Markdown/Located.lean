import DocAudit.Markdown.Target
import DocAudit.Proofs.Markdown.Search

/-!
# Where a target stands

The target of an inline link and the target of a reference definition are parts
of the text that they are read from, and the number that comes with a target
tells how many characters stand before it.  White space and an angle bracket
aside, a parenthesis stands before the one and a colon before the other.

**Results.**
* `LeadsIn.eq`: one mark leads in the target behind a text.
* `exists_append_of_readInline?`: the target of an inline link.
* `exists_append_of_definition?`: the target of a reference definition.
-/

namespace DocAudit

namespace Text

theorem suffix_of_readDelimited? {opening closing : Char} {inner : Char → Bool} {t run rest : Text}
    (h : readDelimited? opening closing inner t = some (run, rest)) : rest <:+ t := by
  refine ⟨opening :: (run ++ [closing]), ?_⟩
  rw [eq_of_readDelimited? h]
  simp

theorem suffix_of_after? {lead t rest : Text} (h : after? lead t = some rest) : rest <:+ t :=
  ⟨lead, ((after?_eq_some_iff lead t rest).1 h).symm⟩

end Text

namespace Markdown

/-- Whether a character can stand between a target and the mark that leads it in. -/
def isGapChar (c : Char) : Bool := Text.isSpace c || c == '<'

/-- A text that ends with a mark and a gap behind the mark. -/
def LeadsIn (mark : Char) (t : Text) : Prop :=
  ∃ opening gap, (∀ c ∈ gap, isGapChar c = true) ∧ t = opening ++ mark :: gap

theorem LeadsIn.append_left {mark : Char} {t : Text} (h : LeadsIn mark t) (s : Text) :
    LeadsIn mark (s ++ t) := by
  obtain ⟨opening, gap, hgap, rfl⟩ := h
  exact ⟨s ++ opening, gap, hgap, (List.append_assoc _ _ _).symm⟩

/-- The mark is the last character that can stand in no gap. -/
theorem LeadsIn.head?_dropWhile {mark : Char} {t : Text} (h : LeadsIn mark t)
    (hmark : isGapChar mark = false) : (t.reverse.dropWhile isGapChar).head? = some mark := by
  obtain ⟨opening, gap, hgap, rfl⟩ := h
  have hreverse : ∀ c ∈ gap.reverse, isGapChar c = true :=
    fun c hc => hgap c (List.mem_reverse.1 hc)
  rw [List.reverse_append, List.reverse_cons, List.append_assoc,
    List.dropWhile_append_of_pos hreverse, List.singleton_append,
    List.dropWhile_cons_of_neg (by rw [hmark]; exact Bool.false_ne_true), List.head?_cons]

/-- One mark leads in the target behind a text. -/
theorem LeadsIn.eq {a b : Char} {t : Text} (h : LeadsIn a t) (h' : LeadsIn b t)
    (ha : isGapChar a = false) (hb : isGapChar b = false) : a = b := by
  have hfirst := h.head?_dropWhile ha
  rw [h'.head?_dropWhile hb] at hfirst
  exact (Option.some.inj hfirst).symm

theorem isGapChar_of_mem_takeWhile {p : Char → Bool} (hp : ∀ c, p c = true → Text.isSpace c = true)
    {t : Text} {c : Char} (h : c ∈ t.takeWhile p) : isGapChar c = true := by
  have hc : p c = true := List.all_eq_true.1 List.all_takeWhile c h
  rw [isGapChar, hp c hc, Bool.true_or]

/-- White space behind a mark is a gap. -/
theorem leadsIn_takeWhile {p : Char → Bool} (hp : ∀ c, p c = true → Text.isSpace c = true)
    (mark : Char) (t : Text) : LeadsIn mark (mark :: t.takeWhile p) :=
  ⟨[], t.takeWhile p, fun _ hc => isGapChar_of_mem_takeWhile hp hc, rfl⟩

/-- White space behind a mark, with an angle bracket behind it, is a gap. -/
theorem leadsIn_takeWhile_angle {p : Char → Bool} (hp : ∀ c, p c = true → Text.isSpace c = true)
    (mark : Char) (t : Text) : LeadsIn mark (mark :: (t.takeWhile p ++ ['<'])) := by
  refine ⟨[], t.takeWhile p ++ ['<'], fun c hc => ?_, rfl⟩
  rcases List.mem_append.1 hc with hc | hc
  · exact isGapChar_of_mem_takeWhile hp hc
  · rw [List.mem_singleton.1 hc]
    rfl

theorem isSpace_of_isBlank (c : Char) (h : isBlank c = true) : Text.isSpace c = true := by
  simp only [isBlank, Bool.or_eq_true, beq_iff_eq] at h
  rcases h with rfl | rfl <;> rfl

theorem suffix_of_readTitle? {t title rest : Text} (h : readTitle? t = some (title, rest)) :
    rest <:+ t := by
  unfold readTitle? at h
  simp only [Option.orElse_eq_orElse, Option.orElse_eq_or, Option.or_eq_some_iff] at h
  rcases h with h | ⟨_, h | ⟨_, h⟩⟩ <;> exact Text.suffix_of_readDelimited? h

theorem suffix_of_afterLinkEnd? {t rest : Text} (h : afterLinkEnd? t = some rest) :
    rest <:+ t := by
  have hspace := List.dropWhile_suffix (l := t) Text.isSpace
  unfold afterLinkEnd? at h
  simp only at h
  split at h
  · rename_i title r hr
    have hclosing := (Text.suffix_of_after? h).trans (List.dropWhile_suffix Text.isSpace)
    split at hr
    · exact (hclosing.trans (suffix_of_readTitle? hr)).trans hspace
    · cases hr
  · exact (Text.suffix_of_after? h).trans hspace

theorem eq_of_readBare? {t target rest : Text} (h : readBare? t = some (target, rest)) :
    t = target ++ rest := by
  unfold readBare? at h
  split at h
  · cases h
  · have hrun := bareRun_append t
    rw [Option.some.inj h] at hrun
    exact hrun.symm

/-- The target of an inline link stands where its place says, and a parenthesis leads it in. -/
theorem exists_append_of_readInline? {t target rest : Text} {k : Nat}
    (h : readInline? t = some ((k, target), rest)) :
    ∃ before behind, t = before ++ (target ++ (behind ++ rest)) ∧ before.length = k
      ∧ LeadsIn '(' before := by
  unfold readInline? at h
  split at h
  · cases h
  · rename_i inner hinner
    have hgap := List.takeWhile_append_dropWhile (p := Text.isSpace) (l := inner)
    have hlead : (text "](").length = 2 := rfl
    rw [Text.after?_eq_some_iff] at hinner
    rw [hinner]
    simp only at h
    split at h
    · rename_i found r hangled
      obtain ⟨r', hend, he⟩ := Option.map_eq_some_iff.1 h
      cases he
      obtain ⟨ending, hr⟩ := suffix_of_afterLinkEnd? hend
      refine ⟨text "](" ++ (inner.takeWhile Text.isSpace ++ ['<']), '>' :: ending, ?_, ?_, ?_⟩
      · conv => lhs; rw [← hgap, Text.eq_of_readDelimited? hangled, ← hr]
        simp
      · simp only [List.length_append, List.length_singleton, hlead]
        omega
      · exact (leadsIn_takeWhile_angle (fun _ hc => hc) '(' inner).append_left [']']
    · split at h
      · rename_i found r hbare
        obtain ⟨r', hend, he⟩ := Option.map_eq_some_iff.1 h
        cases he
        obtain ⟨ending, hr⟩ := suffix_of_afterLinkEnd? hend
        refine ⟨text "](" ++ inner.takeWhile Text.isSpace, ending, ?_, ?_, ?_⟩
        · conv => lhs; rw [← hgap, eq_of_readBare? hbare, ← hr]
          simp
        · rw [List.length_append, hlead]
        · exact (leadsIn_takeWhile (fun _ hc => hc) '(' inner).append_left [']']
      · cases h

/-- The target of a reference definition stands where its place says, and a colon leads it in. -/
theorem exists_append_of_definition? {line target : Text} {k : Nat}
    (h : definition? line = some (k, target)) :
    ∃ before behind, line = before ++ (target ++ behind) ∧ before.length = k
      ∧ LeadsIn ':' before := by
  unfold definition? at h
  simp only at h
  split at h
  · cases h
  · split at h
    · rename_i c t hline
      rw [drop_length_takeWhile] at hline
      split at h
      · cases h
      · split at h
        · cases h
        · rename_i rest hrest
          have hindent := List.takeWhile_append_dropWhile (p := (· == ' ')) (l := line)
          have hlabel := List.takeWhile_append_dropWhile (p := (· != ']')) (l := t)
          have hblanks := List.takeWhile_append_dropWhile (p := isBlank) (l := rest)
          rw [Text.after?_eq_some_iff] at hrest
          let label := line.takeWhile (· == ' ') ++ '[' :: c :: t.takeWhile (· != ']') ++ [']']
          have hwhole : line
              = label ++ (':' :: (rest.takeWhile isBlank ++ rest.dropWhile isBlank)) := by
            have hcolon : text "]:" = [']', ':'] := rfl
            have hcut : label ++ ':' :: rest
                = line.takeWhile (· == ' ') ++ '[' :: c :: (t.takeWhile (· != ']')
                  ++ (text "]:" ++ rest)) := by simp [label, hcolon]
            rw [hblanks, hcut, ← hrest, hlabel, ← hline, hindent]
          have hlength : label.length + 1
              = (line.takeWhile (· == ' ')).length + 2 + (t.takeWhile (· != ']')).length + 2 := by
            simp only [label, List.length_append, List.length_cons, List.length_nil]
            omega
          split at h
          · rename_i found r hangled
            cases h
            refine ⟨label ++ (':' :: (rest.takeWhile isBlank ++ ['<'])), '>' :: r, ?_, ?_, ?_⟩
            · rw [Text.eq_of_readDelimited? hangled] at hwhole
              refine hwhole.trans ?_
              simp
            · simp only [List.length_append, List.length_cons, List.length_nil]
              omega
            · exact (leadsIn_takeWhile_angle isSpace_of_isBlank ':' rest).append_left label
          · split at h
            · cases h
            · cases h
              have htarget := List.takeWhile_append_dropWhile (p := fun c => !Text.isSpace c)
                (l := rest.dropWhile isBlank)
              refine ⟨label ++ (':' :: rest.takeWhile isBlank),
                (rest.dropWhile isBlank).dropWhile fun c => !Text.isSpace c, ?_, ?_, ?_⟩
              · rw [← htarget] at hwhole
                refine hwhole.trans ?_
                simp
              · simp only [List.length_append, List.length_cons]
                omega
              · exact (leadsIn_takeWhile isSpace_of_isBlank ':' rest).append_left label
    · cases h

end Markdown

end DocAudit
