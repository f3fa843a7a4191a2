import DocAudit.Proofs.Markdown.Reading

/-!
# Bodies that are written from pieces

An author writes plain text, inline links, reference definitions, footnotes,
code spans and fenced code one after the other.  This module says how each of
them is written, which of them can stand between two given texts, and what
remains of them once the code of the body is erased.

**Results.**
* `stripCode_write`: erasing the code of a body erases the pieces of code.
* `isUndefined_visible`: pieces behind an unfinished line define nothing there.
-/

namespace DocAudit
namespace Markdown

/-- The destination of an inline link. -/
inductive Destination where
  /-- A target between angle brackets. -/
  | angled (target : Text)
  /-- A bare target. -/
  | bare (parts : List BarePart)

namespace Destination

/-- The target that a destination names. -/
def target : Destination → Text
  | angled target => target
  | bare parts => parts.flatMap BarePart.write

/-- The written form of a destination. -/
def write : Destination → Text
  | angled target => '<' :: (target ++ ['>'])
  | bare parts => parts.flatMap BarePart.write

end Destination

/-- A piece of a body. -/
inductive Piece where
  | plain (t : Text)
  | link (label : Text) (destination : Destination) (title : Option Title)
  | definition (label target : Text)
  | footnote (label : Text)
  | span (code : Text)
  | fencedCode (code : Text)

namespace Piece

/-- The written form of a title that may be missing. -/
def writeTitle (title : Option Title) : Text := title.elim [] Title.write

/-- The written form of a piece. -/
def write : Piece → Text
  | plain t => t
  | link label destination title =>
      '[' :: (label ++ text "](" ++ destination.write ++ writeTitle title ++ [')'])
  | definition label target => '[' :: (label ++ text "]: " ++ target)
  | footnote label => '[' :: '^' :: (label ++ text "]: ")
  | span code => tick :: (code ++ [tick])
  | fencedCode code => fence ++ code ++ fence

/-- The target that a piece names. -/
def target? : Piece → Option Text
  | link _ destination _ => some destination.target
  | definition _ target => some target
  | _ => none

/-- A character that no piece but code and the brackets of a label holds. -/
def IsInert (c : Char) : Prop := c ≠ tick ∧ c ≠ ']'

/-- A destination that is read as it was meant. -/
def IsDestination : Destination → Prop
  | .angled target =>
      target ≠ [] ∧ ∀ c ∈ target, isAngledChar c = true ∧ IsInert c
  | .bare parts =>
      parts ≠ [] ∧ ∀ part ∈ parts, part.IsReadable ∧ ∀ c ∈ part.write, IsInert c

/-- A title that is read as it was meant. -/
def IsTitle (title : Title) : Prop := title.IsReadable ∧ ∀ c ∈ title.inner, IsInert c

/-- A label that stays within its line. -/
def IsLabel (label : Text) : Prop := ∀ c ∈ label, IsInert c ∧ c ≠ '\n'

/-- A piece that is read as it was meant. -/
def IsMeant : Piece → Prop
  | plain t => ∀ c ∈ t, IsInert c
  | link label destination title =>
      (∀ c ∈ label, IsInert c) ∧ IsDestination destination ∧ ∀ t ∈ title, IsTitle t
  | definition label target =>
      label ≠ [] ∧ label.head? ≠ some '^' ∧ IsLabel label
        ∧ target ≠ [] ∧ target.head? ≠ some '<'
        ∧ ∀ c ∈ target, Text.isSpace c = false ∧ IsInert c
  | footnote label => IsLabel label
  | span code => code ≠ [] ∧ ∀ c ∈ code, isSpanChar c = true
  | fencedCode code => code ≠ [] ∧ IsFenceless code

/-- A text that a line can end before. -/
def ClosesLine (t : Text) : Prop := t = [] ∨ t.head? = some '\n'

/-- A piece that can stand between two texts: a definition is a line of its own, a footnote opens a
line, and fenced code does not go on from another backtick. -/
def FitsBetween (before after : Text) : Piece → Prop
  | definition _ _ => OpensLine before ∧ ClosesLine after
  | footnote _ => OpensLine before
  | fencedCode _ => before.getLast? ≠ some tick
  | _ => True

instance (c : Char) : Decidable (IsInert c) := inferInstanceAs (Decidable (_ ∧ _))

instance : DecidablePred BarePart.IsReadable
  | .char c => inferInstanceAs (Decidable (isBareChar c = true))
  | .group inner => inferInstanceAs (Decidable (∀ c ∈ inner, isGroupChar c = true))

instance : DecidablePred IsDestination
  | .angled target =>
      inferInstanceAs (Decidable (target ≠ [] ∧ ∀ c ∈ target, isAngledChar c = true ∧ IsInert c))
  | .bare parts =>
      inferInstanceAs (Decidable
        (parts ≠ [] ∧ ∀ part ∈ parts, part.IsReadable ∧ ∀ c ∈ part.write, IsInert c))

instance (title : Title) : Decidable (IsTitle title) :=
  decidable_of_iff
    (((title.mark = '"' ∨ title.mark = '\'')
        ∧ ∀ c ∈ title.inner, c ≠ title.mark ∧ c ≠ '\n') ∧ ∀ c ∈ title.inner, IsInert c)
    (and_congr_left' ⟨fun h => ⟨h.1, h.2⟩, fun h => ⟨h.mark, h.inner⟩⟩)

instance (label : Text) : Decidable (IsLabel label) :=
  inferInstanceAs (Decidable (∀ c ∈ label, IsInert c ∧ c ≠ '\n'))

instance : DecidablePred IsMeant
  | plain t => inferInstanceAs (Decidable (∀ c ∈ t, IsInert c))
  | link label destination title =>
      inferInstanceAs (Decidable
        ((∀ c ∈ label, IsInert c) ∧ IsDestination destination ∧ ∀ t ∈ title, IsTitle t))
  | definition label target =>
      inferInstanceAs (Decidable
        (label ≠ [] ∧ label.head? ≠ some '^' ∧ IsLabel label
          ∧ target ≠ [] ∧ target.head? ≠ some '<'
          ∧ ∀ c ∈ target, Text.isSpace c = false ∧ IsInert c))
  | footnote label => inferInstanceAs (Decidable (IsLabel label))
  | span code => inferInstanceAs (Decidable (code ≠ [] ∧ ∀ c ∈ code, isSpanChar c = true))
  | fencedCode code =>
      inferInstanceAs (Decidable
        (code ≠ [] ∧ ¬ fence <:+: code ∧ code.getLast? ≠ some tick))

instance (t : Text) : Decidable (OpensLine t) := inferInstanceAs (Decidable (_ ∨ _))

instance (t : Text) : Decidable (ClosesLine t) := inferInstanceAs (Decidable (_ ∨ _))

instance (before after : Text) : DecidablePred (FitsBetween before after)
  | definition _ _ => inferInstanceAs (Decidable (OpensLine before ∧ ClosesLine after))
  | footnote _ => inferInstanceAs (Decidable (OpensLine before))
  | fencedCode _ => inferInstanceAs (Decidable (before.getLast? ≠ some tick))
  | plain _ => inferInstanceAs (Decidable True)
  | link _ _ _ => inferInstanceAs (Decidable True)
  | span _ => inferInstanceAs (Decidable True)

/-- The body that pieces make. -/
def writeAll (pieces : List Piece) : Text := pieces.flatMap write

/-- The targets that pieces name, in their order. -/
def targets (pieces : List Piece) : List Text := pieces.filterMap target?

/-- Pieces that can follow a text. -/
def Follow (before : Text) : List Piece → Prop
  | [] => True
  | piece :: pieces =>
      piece.IsMeant ∧ piece.FitsBetween before (writeAll pieces)
        ∧ Follow (before ++ piece.write) pieces

instance decidableFollow (before : Text) : (pieces : List Piece) → Decidable (Follow before pieces)
  | [] => inferInstanceAs (Decidable True)
  | piece :: pieces =>
      have := decidableFollow (before ++ piece.write) pieces
      inferInstanceAs (Decidable (piece.IsMeant ∧ piece.FitsBetween before (writeAll pieces)
        ∧ Follow (before ++ piece.write) pieces))

/-- A piece without its code, if it is fenced code. -/
def unfenced : Piece → Text
  | fencedCode _ => []
  | piece => piece.write

/-- A piece without its code. -/
def visible : Piece → Text
  | fencedCode _ => []
  | span _ => []
  | piece => piece.write

theorem writeAll_cons (piece : Piece) (pieces : List Piece) :
    writeAll (piece :: pieces) = piece.write ++ writeAll pieces :=
  List.flatMap_cons

theorem text_linkOpening : text "](" = [']', '('] := rfl

theorem text_definitionColon : text "]: " = [']', ':', ' '] := rfl

theorem visible_link_append (label : Text) (destination : Destination) (title : Option Title)
    (t : Text) :
    (link label destination title).visible ++ t
      = ('[' :: label) ++ ']' :: '(' :: (destination.write ++ writeTitle title ++ [')'] ++ t) := by
  simp [visible, write, text_linkOpening]

theorem visible_definition_append (label target t : Text) :
    (definition label target).visible ++ t
      = ('[' :: label) ++ ']' :: ':' :: ((' ' :: target) ++ t) := by
  simp [visible, write, text_definitionColon]

theorem visible_footnote_append (label t : Text) :
    (footnote label).visible ++ t = ('[' :: '^' :: label) ++ ']' :: ':' :: ([' '] ++ t) := by
  simp [visible, write, text_definitionColon]

theorem notMem_of_isInert {t : Text} (h : ∀ c ∈ t, IsInert c) : tick ∉ t ∧ ']' ∉ t :=
  ⟨fun hm => (h tick hm).1 rfl, fun hm => (h ']' hm).2 rfl⟩

theorem isInert_destination {destination : Destination} (h : IsDestination destination) :
    ∀ c ∈ destination.write, IsInert c := by
  intro c hc
  cases destination with
  | angled target =>
      simp only [Destination.write, List.mem_cons, List.mem_append, List.not_mem_nil,
        or_false] at hc
      rcases hc with rfl | hc | rfl
      · exact ⟨by decide, by decide⟩
      · exact (h.2 c hc).2
      · exact ⟨by decide, by decide⟩
  | bare parts =>
      obtain ⟨part, hpart, hc⟩ := List.mem_flatMap.1 hc
      exact (h.2 part hpart).2 c hc

theorem isInert_writeTitle {title : Option Title} (h : ∀ t ∈ title, IsTitle t) :
    ∀ c ∈ writeTitle title, IsInert c := by
  intro c hc
  cases title with
  | none => cases hc
  | some title =>
      obtain ⟨⟨hmark, _⟩, hinner⟩ := h title rfl
      have hinert : IsInert title.mark := by
        rcases hmark with e | e <;> rw [e] <;> exact ⟨by decide, by decide⟩
      simp only [writeTitle, Option.elim_some, Title.write, List.mem_cons, List.mem_append,
        List.not_mem_nil, or_false] at hc
      rcases hc with rfl | rfl | hc | rfl
      · exact ⟨by decide, by decide⟩
      · exact hinert
      · exact hinner c hc
      · exact hinert

/-- What follows the label of an inline link holds no bracket but the first one. -/
theorem isInert_linkEnd {destination : Destination} {title : Option Title}
    (hdestination : IsDestination destination) (htitle : ∀ t ∈ title, IsTitle t) :
    ∀ c ∈ destination.write ++ writeTitle title ++ [')'], IsInert c := by
  intro c hc
  rw [List.mem_append, List.mem_append, List.mem_singleton] at hc
  rcases hc with (hc | hc) | rfl
  · exact isInert_destination hdestination c hc
  · exact isInert_writeTitle htitle c hc
  · exact ⟨by decide, by decide⟩

/-- Only code is written with backticks. -/
theorem tick_notMem_visible {piece : Piece} (h : piece.IsMeant) : tick ∉ piece.visible := by
  cases piece with
  | plain t => exact (notMem_of_isInert h).1
  | link label destination title =>
      obtain ⟨hlabel, hdestination, htitle⟩ := h
      have hend := (notMem_of_isInert (isInert_linkEnd hdestination htitle)).1
      have hstart := (notMem_of_isInert hlabel).1
      simp only [visible, write, List.mem_cons, List.mem_append, not_or] at hend ⊢
      exact ⟨by decide, ⟨⟨⟨hstart, by decide⟩, hend.1.1⟩, hend.1.2⟩, hend.2⟩
  | definition label target =>
      obtain ⟨_, _, hlabel, _, _, htarget⟩ := h
      have hstart := (notMem_of_isInert fun c hc => (hlabel c hc).1).1
      have hend := (notMem_of_isInert fun c hc => (htarget c hc).2).1
      simp only [visible, write, List.mem_cons, List.mem_append, not_or]
      exact ⟨by decide, ⟨hstart, by decide⟩, hend⟩
  | footnote label =>
      have hstart := (notMem_of_isInert fun c hc => (h c hc).1).1
      simp only [visible, write, List.mem_cons, List.mem_append, not_or]
      exact ⟨by decide, by decide, hstart, by decide⟩
  | span code => exact List.not_mem_nil
  | fencedCode code => exact List.not_mem_nil

/-- Behind a backtick no two backticks follow. -/
theorem writeAll_ne_tick_tick {before : Text} {pieces : List Piece}
    (h : Follow before pieces) (hbefore : before.getLast? = some tick) (t : Text) :
    writeAll pieces ≠ tick :: tick :: t := by
  induction pieces generalizing before with
  | nil => exact (List.cons_ne_nil _ _).symm
  | cons piece pieces ih =>
      obtain ⟨hmeant, hfits, hrest⟩ := h
      intro e
      rw [writeAll_cons] at e
      cases piece with
      | plain s =>
          cases s with
          | nil =>
              refine ih hrest ?_ e
              rw [write, List.append_nil]
              exact hbefore
          | cons c s => exact (hmeant c List.mem_cons_self).1 (List.cons.inj e).1
      | link _ _ _ => exact absurd (List.cons.inj e).1 (by decide)
      | definition _ _ => exact absurd (List.cons.inj e).1 (by decide)
      | footnote _ => exact absurd (List.cons.inj e).1 (by decide)
      | span code =>
          obtain ⟨hne, hspan⟩ := hmeant
          obtain ⟨c, code, rfl⟩ := List.exists_cons_of_ne_nil hne
          have hc : c = tick := (List.cons.inj (List.cons.inj e).2).1
          have := hspan c List.mem_cons_self
          rw [hc] at this
          exact absurd this (by decide)
      | fencedCode _ => exact hfits hbefore

theorem readFenced?_tick {t : Text} (h : ∀ rest, t ≠ tick :: tick :: rest) :
    fenced.read? (tick :: t) = none := by
  have hafter : Text.after? fence (tick :: t) = none := by
    rw [Option.eq_none_iff_forall_ne_some]
    intro rest hrest
    rw [Text.after?_eq_some_iff] at hrest
    exact h rest (List.cons.inj hrest).2
  rw [fenced_read?, readFenced?, hafter]

theorem erase_visible_append {k : Construct Unit} (hk : k.OpensWith tick) {piece : Piece}
    (hpiece : tick ∉ piece.visible) {t erased : Text} (ht : k.erase t = erased) :
    k.erase (piece.visible ++ t) = piece.visible ++ erased := by
  rw [Construct.erase_append hk hpiece, ht]

/-- A code span is no fence, unless two backticks follow it. -/
theorem erase_fenced_span {code rest : Text} (h : (span code).IsMeant)
    (hrest : ∀ t, rest ≠ tick :: tick :: t) :
    fenced.erase ((span code).write ++ rest) = (span code).write ++ fenced.erase rest := by
  obtain ⟨hne, hspan⟩ := h
  have htick : tick ∉ code := fun hm => absurd (hspan tick hm) (by decide)
  have hopen : fenced.read? (tick :: (code ++ tick :: rest)) = none := by
    apply readFenced?_tick
    intro t e
    obtain ⟨c, code, rfl⟩ := List.exists_cons_of_ne_nil hne
    exact htick (by rw [(List.cons.inj e).1]; exact List.mem_cons_self)
  have hclose : fenced.read? (tick :: rest) = none := readFenced?_tick hrest
  have hwrite : ∀ t, (span code).write ++ t = tick :: (code ++ tick :: t) := by
    intro t
    simp [write]
  rw [hwrite, hwrite, Construct.erase_cons_of_read? hopen,
    Construct.erase_append fenced_opensWith htick, Construct.erase_cons_of_read? hclose]

/-- Erasing the fenced code of a body erases the pieces of fenced code. -/
theorem stripFenced_write {before : Text} {pieces : List Piece} (h : Follow before pieces) :
    stripFenced (writeAll pieces) = pieces.flatMap unfenced := by
  induction pieces generalizing before with
  | nil => exact Construct.erase_nil fenced
  | cons piece pieces ih =>
      obtain ⟨hmeant, hfits, hrest⟩ := h
      have hpieces := ih hrest
      rw [stripFenced] at hpieces ⊢
      have hvisible := tick_notMem_visible hmeant
      rw [writeAll_cons, List.flatMap_cons]
      cases piece with
      | fencedCode code =>
          rw [write, Construct.erase_of_read? (readFenced?_write hmeant.1 hmeant.2 _), hpieces]
          rfl
      | span code =>
          have hlast : (before ++ (span code).write).getLast? = some tick := by
            rw [write, ← List.cons_append, ← List.append_assoc, List.getLast?_concat]
          rw [erase_fenced_span hmeant (writeAll_ne_tick_tick hrest hlast), hpieces]
          rfl
      | plain _ => exact erase_visible_append fenced_opensWith hvisible hpieces
      | link _ _ _ => exact erase_visible_append fenced_opensWith hvisible hpieces
      | definition _ _ => exact erase_visible_append fenced_opensWith hvisible hpieces
      | footnote _ => exact erase_visible_append fenced_opensWith hvisible hpieces

/-- Erasing the code of a body erases the pieces of code. -/
theorem stripCode_write {before : Text} {pieces : List Piece} (h : Follow before pieces) :
    stripCode (writeAll pieces) = pieces.flatMap visible := by
  rw [stripCode, stripFenced_write h]
  induction pieces generalizing before with
  | nil => exact Construct.erase_nil _
  | cons piece pieces ih =>
      obtain ⟨hmeant, _, hrest⟩ := h
      have hpieces := ih hrest
      have hvisible := tick_notMem_visible hmeant
      rw [List.flatMap_cons, List.flatMap_cons]
      cases piece with
      | span code =>
          have hwrite : (span code).unfenced ++ pieces.flatMap unfenced
              = tick :: (code ++ tick :: pieces.flatMap unfenced) := by
            simp [unfenced, write]
          rw [hwrite, Construct.erase_of_read? (readSpan?_write hmeant.1 hmeant.2 _), hpieces]
          rfl
      | fencedCode _ => exact hpieces
      | plain _ => exact erase_visible_append span_opensWith hvisible hpieces
      | link _ _ _ => exact erase_visible_append span_opensWith hvisible hpieces
      | definition _ _ => exact erase_visible_append span_opensWith hvisible hpieces
      | footnote _ => exact erase_visible_append span_opensWith hvisible hpieces

/-- What ends a line still ends it once the code behind it is erased. -/
theorem closesLine_visible {pieces : List Piece} (h : ClosesLine (writeAll pieces)) :
    ClosesLine (pieces.flatMap visible) := by
  induction pieces with
  | nil => exact Or.inl rfl
  | cons piece pieces ih =>
      rw [writeAll_cons] at h
      rw [List.flatMap_cons]
      cases piece with
      | plain t =>
          cases t with
          | nil => exact ih h
          | cons c t => exact Or.inr (h.resolve_left (List.cons_ne_nil _ _))
      | _ =>
          rcases h with h | h
          · exact absurd h (List.cons_ne_nil _ _)
          · exact absurd (Option.some.inj h) (by decide)

/-- No line opens behind a text that ends with another character than a line feed. -/
theorem not_opensLine_concat {c : Char} (hc : c ≠ '\n') (t : Text) : ¬ OpensLine (t ++ [c]) := by
  rintro (h | h)
  · exact List.concat_ne_nil c t h
  · rw [List.getLast?_concat] at h
    exact hc (Option.some.inj h)

theorem opensLine_of_append {before t : Text} (h : OpensLine (before ++ t)) : OpensLine t := by
  by_cases ht : t = []
  · exact Or.inl ht
  · rcases h with h | h
    · exact Or.inl (List.append_eq_nil_iff.1 h).2
    · rw [List.getLast?_append, List.getLast?_eq_some_getLast ht, Option.some_or,
        ← List.getLast?_eq_some_getLast ht] at h
      exact Or.inr h

/-- Pieces behind an unfinished line define nothing in that line. -/
theorem isUndefined_visible {before : Text} {pieces : List Piece} (h : Follow before pieces)
    (hopen : ¬ OpensLine before) : IsUndefined (pieces.flatMap visible) := by
  induction pieces generalizing before with
  | nil => exact isUndefined_nil
  | cons piece pieces ih =>
      obtain ⟨hmeant, hfits, hrest⟩ := h
      rw [List.flatMap_cons]
      cases piece with
      | plain t =>
          refine isUndefined_append (notMem_of_isInert hmeant).2 fun ht => ih hrest ?_
          intro hline
          rw [write] at hline
          by_cases hnil : t = []
          · rw [hnil, List.append_nil] at hline
            exact hopen hline
          · rcases opensLine_of_append hline with he | he
            · exact hnil he
            · exact ht (List.mem_of_getLast? he)
      | link label destination title =>
          have hlabel : ']' ∉ '[' :: label := by
            have := (notMem_of_isInert hmeant.1).2
            rw [List.mem_cons, not_or]
            exact ⟨by decide, this⟩
          rw [visible_link_append]
          exact isUndefined_append hlabel fun _ => isUndefined_bracket (by decide) _
      | definition _ _ => exact absurd hfits.1 hopen
      | footnote _ => exact absurd hfits hopen
      | span code =>
          refine ih hrest ?_
          rw [write, ← List.cons_append, ← List.append_assoc]
          exact not_opensLine_concat (by decide) _
      | fencedCode code =>
          refine ih hrest ?_
          have hwrite : before ++ (fencedCode code).write
              = before ++ fence ++ code ++ [tick, tick] ++ [tick] := by
            simp [write, fence]
          rw [hwrite]
          exact not_opensLine_concat (by decide) _

end Piece
end Markdown
end DocAudit
