import DocAudit.Proofs.Markdown.Reading
import Mathlib.Data.List.Infix

/-!
# Fenced code between texts

Fences are paired from left to right, whatever lines they stand on.  Fenced
code ends at the first fence behind its first character, so that its other
characters hold no fence and do not end with a backtick.  A text without a
fence loses nothing, and where it ends with another character than a backtick,
nothing of it is taken for a part of a fence behind it.  From one fence to the
next the pairing therefore stays as it was written.

**Results.**
* `afterFence?_eq_some_iff`, `fenced_read?_eq_some_iff`: where fenced code ends.
* `stripFenced_append_newline`: a text without fences, up to the end of a line.
* `links_congr_stripFenced`: links are those of the text without fenced code.
* `FencedText.stripFenced_write`: the texts between fenced code are left.
-/

namespace DocAudit

namespace Text

/-- An opening without a character ends before that character. -/
theorem prefix_of_prefix_append_cons {lead s t : Text} {c : Char} (hc : c ∉ lead)
    (h : lead <+: s ++ c :: t) : lead <+: s := by
  by_cases hlength : lead.length ≤ s.length
  · exact List.prefix_of_prefix_length_le h (List.prefix_append s (c :: t)) hlength
  · have hshort : s ++ [c] <+: lead := by
      refine List.prefix_of_prefix_length_le ⟨t, by simp⟩ h ?_
      rw [List.length_append, List.length_singleton]
      omega
    exact absurd (hshort.subset (List.mem_append_right s (List.mem_singleton_self c))) hc

end Text

namespace Markdown

theorem fenced_read?_eq_none {t : Text} (h : ¬ fence <+: t) : fenced.read? t = none := by
  rw [fenced_read?, readFenced?, after?_fence_eq_none h]

theorem isFenceless_nil : IsFenceless [] := ⟨by decide, by decide⟩

/-- What stands before the first fence of a text has no fence, and none starts at its end. -/
theorem afterFence?_eq_some_iff {t rest : Text} :
    afterFence? t = some rest ↔ ∃ inner, IsFenceless inner ∧ t = inner ++ fence ++ rest := by
  constructor
  · intro h
    induction t with
    | nil => cases h
    | cons c t ih =>
        rw [afterFence?] at h
        split at h
        · rename_i found hfound
          cases h
          exact ⟨[], isFenceless_nil, (Text.after?_eq_some_iff fence (c :: t) rest).1 hfound⟩
        · rename_i hnone
          obtain ⟨inner, ⟨hfence, hlast⟩, rfl⟩ := ih h
          have hstart : ∀ behind, c :: (inner ++ fence ++ rest) ≠ fence ++ behind := by
            intro behind e
            rw [e, Text.after?_append] at hnone
            cases hnone
          refine ⟨c :: inner, ⟨?_, ?_⟩, rfl⟩
          · rw [List.infix_cons_iff]
            rintro (⟨behind, hbehind⟩ | hin)
            · refine hstart (behind ++ (fence ++ rest)) ?_
              rw [← List.append_assoc, hbehind, List.append_assoc, List.cons_append]
            · exact hfence hin
          · cases inner with
            | nil =>
                intro he
                have hc : c = tick := Option.some.inj he
                exact hstart (tick :: rest) (by rw [hc]; rfl)
            | cons d inner => rwa [List.getLast?_cons_cons]
  · rintro ⟨inner, hinner, rfl⟩
    exact afterFence?_write hinner rest

/-- Fenced code is a fence, a character, and all up to the next fence. -/
theorem fenced_read?_eq_some_iff {t rest : Text} :
    fenced.read? t = some ((), rest)
      ↔ ∃ c inner, IsFenceless inner ∧ t = fence ++ c :: (inner ++ fence) ++ rest := by
  rw [fenced_read?, readFenced?]
  constructor
  · intro h
    split at h
    · rename_i c behind hbehind
      obtain ⟨found, hfound, he⟩ := Option.map_eq_some_iff.1 h
      cases he
      obtain ⟨inner, hinner, rfl⟩ := afterFence?_eq_some_iff.1 hfound
      refine ⟨c, inner, hinner, ?_⟩
      rw [(Text.after?_eq_some_iff fence t _).1 hbehind]
      simp
    · cases h
  · rintro ⟨c, inner, hinner, rfl⟩
    rw [List.append_assoc, Text.after?_append, List.cons_append]
    simp only [afterFence?_write hinner, Option.map_some]

/-- Nothing is erased from a text without a fence. -/
theorem stripFenced_of_not_infix {t : Text} (h : ¬ fence <:+: t) : stripFenced t = t := by
  induction t with
  | nil => exact Construct.erase_nil fenced
  | cons c t ih =>
      rw [List.infix_cons_iff, not_or] at h
      have hrest := ih h.2
      rw [stripFenced] at hrest ⊢
      rw [Construct.erase_cons_of_read? (fenced_read?_eq_none h.1), hrest]

/-- A text without a fence that ends with a line stays as it is. -/
theorem stripFenced_append_newline {s : Text} (h : ¬ fence <:+: s) (t : Text) :
    stripFenced (s ++ '\n' :: t) = s ++ '\n' :: stripFenced t := by
  simp only [stripFenced]
  induction s with
  | nil => exact Construct.erase_cons_of_read? (fenced_opensWith '\n' t (by decide))
  | cons c s ih =>
      rw [List.infix_cons_iff, not_or] at h
      have hstart : ¬ fence <+: c :: s ++ '\n' :: t := fun hp =>
        h.1 (Text.prefix_of_prefix_append_cons (by decide) hp)
      rw [List.cons_append] at hstart ⊢
      rw [Construct.erase_cons_of_read? (fenced_read?_eq_none hstart), ih h.2,
        List.cons_append]

/-- A text without a fence stays as it is before any other text, unless it ends with a backtick. -/
theorem erase_fenceless_append {t : Text} (h : IsFenceless t) (rest : Text) :
    fenced.erase (t ++ rest) = t ++ fenced.erase rest := by
  induction t with
  | nil => rfl
  | cons c t ih =>
      have hstart := not_fence_prefix_of_isFenceless h rest
      rw [List.cons_append] at hstart ⊢
      rw [Construct.erase_cons_of_read? (fenced_read?_eq_none hstart), ih h.tail,
        List.cons_append]

/-- Links are looked for in what is left of a body without its code. -/
theorem links_congr_stripCode {first second : Text} (marker : Text)
    (h : stripCode first = stripCode second) : links marker first = links marker second := by
  rw [links, links, targets, targets, h]

theorem links_congr_stripFenced {first second : Text} (marker : Text)
    (h : stripFenced first = stripFenced second) : links marker first = links marker second :=
  links_congr_stripCode marker (by rw [stripCode, stripCode, h])

/-- A text with fenced code in it. -/
structure FencedText where
  /-- The text before the first piece of fenced code. -/
  lead : Text
  /-- The pieces of fenced code, without their fences, each with the text behind it. -/
  blocks : List (Text × Text)

namespace FencedText

/-- The texts around the pieces of fenced code. -/
def texts (t : FencedText) : List Text := t.lead :: t.blocks.map (·.2)

/-- The written form of a text with fenced code in it. -/
def write (t : FencedText) : Text :=
  t.lead ++ t.blocks.flatMap fun (code, behind) => fence ++ code ++ fence ++ behind

/-- Fenced code that is read as it was meant: only its fences are fences, and no backtick stands
next to the first one of them. -/
structure IsMeant (t : FencedText) : Prop where
  codes : ∀ block ∈ t.blocks, block.1 ≠ [] ∧ IsFenceless block.1
  texts : ∀ s ∈ t.texts, ¬ fence <:+: s
  endings : ∀ s ∈ t.texts.dropLast, s.getLast? ≠ some tick

instance (t : FencedText) : Decidable t.IsMeant :=
  decidable_of_iff
    ((∀ block ∈ t.blocks, block.1 ≠ [] ∧ ¬ fence <:+: block.1 ∧ block.1.getLast? ≠ some tick)
      ∧ (∀ s ∈ t.texts, ¬ fence <:+: s) ∧ ∀ s ∈ t.texts.dropLast, s.getLast? ≠ some tick)
    ⟨fun h => ⟨h.1, h.2.1, h.2.2⟩, fun h => ⟨h.codes, h.texts, h.endings⟩⟩

variable {lead code behind : Text} {blocks : List (Text × Text)}

theorem IsMeant.isFenceless_lead (h : IsMeant ⟨lead, (code, behind) :: blocks⟩) :
    IsFenceless lead :=
  ⟨h.texts lead List.mem_cons_self, h.endings lead List.mem_cons_self⟩

theorem IsMeant.rest (h : IsMeant ⟨lead, (code, behind) :: blocks⟩) :
    IsMeant ⟨behind, blocks⟩ where
  codes := fun block hblock => h.codes block (List.mem_cons_of_mem _ hblock)
  texts := fun s hs => h.texts s (List.mem_cons_of_mem lead hs)
  endings := fun s hs => h.endings s (List.mem_cons_of_mem lead hs)

/-- Erasing the fenced code of a text leaves the texts around it. -/
theorem stripFenced_write {t : FencedText} (h : t.IsMeant) :
    stripFenced t.write = t.texts.flatten := by
  obtain ⟨lead, blocks⟩ := t
  induction blocks generalizing lead with
  | nil =>
      have hlead := stripFenced_of_not_infix (h.texts lead List.mem_cons_self)
      simpa [write, texts] using hlead
  | cons block blocks ih =>
      obtain ⟨code, behind⟩ := block
      obtain ⟨hne, hcode⟩ := h.codes (code, behind) List.mem_cons_self
      have hwrite : write ⟨lead, (code, behind) :: blocks⟩
          = lead ++ (fence ++ code ++ fence ++ write ⟨behind, blocks⟩) := by
        simp [write]
      have hread := readFenced?_write hne hcode (write ⟨behind, blocks⟩)
      have hrest := ih behind h.rest
      rw [stripFenced] at hrest ⊢
      rw [hwrite, erase_fenceless_append h.isFenceless_lead, Construct.erase_of_read? hread, hrest]
      rfl

end FencedText

end Markdown

end DocAudit
