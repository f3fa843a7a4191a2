import DocAudit.Proofs.Document.Attributes
import DocAudit.Proofs.Document.Body
import DocAudit.Proofs.Document.Layout

/-!
# Front matter is an exact partition

A document, without the byte order mark at its start, has a block exactly when
its first line opens one and a later line closes it.  The first such line is
the closing line.  The opening line, the block, the closing line and the body
are then the whole document, character by character, and a document without a
block is all body.

The lines are the ones that `Text.AreLines` describes: whole lines, and a last
one that may have no line feed.  Such texts are the lines of the text that they
make up, and so the lines of the block and of the body are the lines of the
document before and behind the closing line.

A document finds its body again by an offset: the octets that its content has
more than its body.

**Results.**
* `areLines_lines`, `lines_flatten`: what the lines of a text are.
* `delimit?_eq_some_iff`: the block and the body are the parts of a cut.
* `isSome_delimit?_iff`: which documents have a block.
* `split_dashed`: what is written between two lines of dashes is the block.
* `split_partition`: all of it, for every content.
-/

namespace DocAudit

namespace Text

/-- Texts that are the lines of one text: whole lines, and a last one that may have no line
feed. -/
inductive AreLines : List Text → Prop
  | nil : AreLines []
  | last {line : Text} (hne : line ≠ []) (hline : '\n' ∉ line) : AreLines [line]
  | whole {line : Text} {rest : List Text} (hline : '\n' ∉ line) (hrest : AreLines rest) :
      AreLines ((line ++ ['\n']) :: rest)

/-- A character that is no line feed joins the first line. -/
theorem AreLines.cons_char {c : Char} (hc : c ≠ '\n') {line : Text} {rest : List Text}
    (h : AreLines (line :: rest)) : AreLines ((c :: line) :: rest) := by
  cases h with
  | last hne hline =>
      exact .last (List.cons_ne_nil c line) (List.not_mem_cons_of_ne_of_not_mem hc.symm hline)
  | whole hline hrest =>
      rw [← List.cons_append]
      exact .whole (List.not_mem_cons_of_ne_of_not_mem hc.symm hline) hrest

theorem AreLines.tail {line : Text} {rest : List Text} (h : AreLines (line :: rest)) :
    AreLines rest := by
  cases h with
  | last => exact .nil
  | whole _ hrest => exact hrest

theorem AreLines.of_append_right {block rest : List Text} (h : AreLines (block ++ rest)) :
    AreLines rest := by
  induction block with
  | nil => exact h
  | cons line block ih => exact ih h.tail

/-- Before another line all lines are whole. -/
theorem AreLines.of_append_left {block : List Text} {closing : Text} {rest : List Text}
    (h : AreLines (block ++ closing :: rest)) : AreLines block := by
  induction block with
  | nil => exact .nil
  | cons line block ih =>
      rw [List.cons_append] at h
      generalize htail : block ++ closing :: rest = tail at h ih
      cases h with
      | last => exact absurd htail (List.append_ne_nil_of_right_ne_nil _ (List.cons_ne_nil _ _))
      | whole hline hrest => exact .whole hline (ih hrest)

/-- The lines of a text are lines. -/
theorem areLines_lines (t : Text) : AreLines (lines t) := by
  induction t with
  | nil => exact .nil
  | cons c t ih =>
      by_cases hc : c = '\n'
      · rw [lines, if_pos hc]
        exact .whole List.not_mem_nil ih
      · cases hlines : lines t with
        | nil =>
            rw [lines, if_neg hc, hlines]
            exact .last (List.cons_ne_nil c []) fun hm => hc (List.mem_singleton.1 hm).symm
        | cons line rest =>
            rw [lines_cons_of_ne_nil hc hlines]
            rw [hlines] at ih
            exact ih.cons_char hc

/-- Lines are the lines of the text that they make up. -/
theorem lines_flatten {ls : List Text} (h : AreLines ls) : lines ls.flatten = ls := by
  induction h with
  | nil => rfl
  | last hne hline => rw [List.flatten_singleton, lines_of_notMem hne hline]
  | whole hline hrest ih =>
      rw [List.flatten_cons, List.append_assoc, List.singleton_append, lines_line hline, ih]

end Text

namespace FrontMatter

/-- A line of three dashes or three dots, white space at its end aside. -/
def IsClosing (line : Text) : Prop :=
  Text.trimEnd line = text "---" ∨ Text.trimEnd line = text "..."

instance (line : Text) : Decidable (IsClosing line) :=
  inferInstanceAs (Decidable (_ ∨ _))

/-- The first line of a text is one of three dashes, and a later line closes the block. -/
def HasBlock (t : Text) : Prop :=
  ∃ opening rest, Text.lines t = opening :: rest ∧ Text.trimEnd opening = text "---" ∧
    ∃ line ∈ rest, IsClosing line

/-- A text cut at its first line and at the first later line that closes the block. -/
structure IsCut (t opening raw closing body : Text) : Prop where
  /-- The parts are the whole text. -/
  eq_append : t = opening ++ (raw ++ (closing ++ body))
  /-- The cuts fall between lines. -/
  lines_eq : Text.lines t = opening :: (Text.lines raw ++ closing :: Text.lines body)
  opens : Text.trimEnd opening = text "---"
  closes : IsClosing closing
  /-- No line of the block closes it. -/
  not_closes : ∀ line ∈ Text.lines raw, ¬ IsClosing line

theorem opens_iff (line : Text) : opens line = true ↔ Text.trimEnd line = text "---" :=
  beq_iff_eq

theorem closes_iff (line : Text) : closes line = true ↔ IsClosing line := by
  rw [closes, IsClosing, Bool.or_eq_true, beq_iff_eq, beq_iff_eq]

theorem closes_eq_false_iff (line : Text) : closes line = false ↔ ¬ IsClosing line := by
  rw [← closes_iff, Bool.not_eq_true]

/-- A block that ends has a first line that closes it. -/
theorem exists_of_untilClosed? {ls : List Text} {raw body : Text}
    (h : untilClosed? ls = some (raw, body)) :
    ∃ block closing rest, ls = block ++ closing :: rest ∧
      (∀ line ∈ block, ¬ IsClosing line) ∧ IsClosing closing ∧
      raw = block.flatten ∧ body = rest.flatten := by
  induction ls generalizing raw with
  | nil => cases h
  | cons line ls ih =>
      rw [untilClosed?] at h
      split at h
      · rename_i hcloses
        cases h
        exact ⟨[], line, ls, rfl, List.forall_mem_nil _, (closes_iff line).1 hcloses, rfl, rfl⟩
      · rename_i hcloses
        obtain ⟨⟨inner, after⟩, hrest, he⟩ := Option.map_eq_some_iff.1 h
        cases he
        obtain ⟨block, closing, rest, rfl, hblock, hclosing, rfl, rfl⟩ := ih hrest
        refine ⟨line :: block, closing, rest, rfl, ?_, hclosing, rfl, rfl⟩
        exact List.forall_mem_cons.2 ⟨fun hline => hcloses ((closes_iff line).2 hline), hblock⟩

/-- A block ends exactly when some line closes it. -/
theorem isSome_untilClosed?_iff (ls : List Text) :
    (untilClosed? ls).isSome ↔ ∃ line ∈ ls, IsClosing line := by
  induction ls with
  | nil => simp [untilClosed?]
  | cons line ls ih =>
      rw [untilClosed?]
      split
      · rename_i hcloses
        have hfirst : ∃ later ∈ line :: ls, IsClosing later :=
          ⟨line, List.mem_cons_self, (closes_iff line).1 hcloses⟩
        exact iff_of_true rfl hfirst
      · rename_i hcloses
        rw [closes_iff] at hcloses
        rw [Option.isSome_map, ih]
        constructor
        · rintro ⟨later, hmem, hlater⟩
          exact ⟨later, List.mem_cons_of_mem line hmem, hlater⟩
        · rintro ⟨later, hmem, hlater⟩
          rcases List.mem_cons.1 hmem with rfl | hmem
          · exact absurd hlater hcloses
          · exact ⟨later, hmem, hlater⟩

/-- The block and the body that are found are the parts of a cut. -/
theorem delimit?_eq_some_iff {t raw body : Text} :
    delimit? t = some (raw, body) ↔ ∃ opening closing, IsCut t opening raw closing body := by
  constructor
  · intro h
    unfold delimit? at h
    split at h
    · cases h
    · rename_i opening rest hlines
      split at h
      · rename_i hopens
        obtain ⟨block, closing, after, rfl, hblock, hclosing, rfl, rfl⟩ :=
          exists_of_untilClosed? h
        have hall : Text.AreLines (opening :: (block ++ closing :: after)) := by
          rw [← hlines]
          exact Text.areLines_lines t
        have hrest : Text.AreLines (block ++ closing :: after) := hall.tail
        have hafter : Text.AreLines after := hrest.of_append_right.tail
        have hraw : Text.lines block.flatten = block := Text.lines_flatten hrest.of_append_left
        refine ⟨opening, closing, ?_, ?_, (opens_iff opening).1 hopens, hclosing, ?_⟩
        · rw [← Text.flatten_lines t, hlines, List.flatten_cons, List.flatten_append,
            List.flatten_cons]
        · rw [hlines, hraw, Text.lines_flatten hafter]
        · rw [hraw]
          exact hblock
      · cases h
  · rintro ⟨opening, closing, hcut⟩
    have hblock : ∀ line ∈ Text.lines raw, closes line = false := fun line hline =>
      (closes_eq_false_iff line).2 (hcut.not_closes line hline)
    unfold delimit?
    rw [hcut.lines_eq]
    simp only [(opens_iff opening).2 hcut.opens, if_true]
    rw [untilClosed?_append hblock ((closes_iff closing).2 hcut.closes), Text.flatten_lines,
      Text.flatten_lines]

/-- A block is found exactly when there is one. -/
theorem isSome_delimit?_iff (t : Text) : (delimit? t).isSome ↔ HasBlock t := by
  constructor
  · intro h
    obtain ⟨⟨raw, body⟩, hfound⟩ := Option.isSome_iff_exists.1 h
    obtain ⟨opening, closing, hcut⟩ := delimit?_eq_some_iff.1 hfound
    refine ⟨opening, _, hcut.lines_eq, hcut.opens, closing, ?_, hcut.closes⟩
    exact List.mem_append_right _ List.mem_cons_self
  · rintro ⟨opening, rest, hlines, hopens, hcloses⟩
    unfold delimit?
    rw [hlines]
    simp only [(opens_iff opening).2 hopens, if_true]
    exact (isSome_untilClosed?_iff rest).2 hcloses

/-- A document with a block is cut, and its attributes are read from the block. -/
theorem split_of_isCut {content opening raw closing body : Text}
    (h : IsCut (withoutMark content) opening raw closing body) :
    split content = ⟨Attributes.ofBlock? raw, body⟩ := by
  rw [split]
  simp only [delimit?_eq_some_iff.2 ⟨opening, closing, h⟩]

theorem exists_isCut {t : Text} (h : HasBlock t) :
    ∃ opening raw closing body, IsCut t opening raw closing body := by
  obtain ⟨⟨raw, body⟩, hfound⟩ := Option.isSome_iff_exists.1 ((isSome_delimit?_iff t).2 h)
  obtain ⟨opening, closing, hcut⟩ := delimit?_eq_some_iff.1 hfound
  exact ⟨opening, raw, closing, body, hcut⟩

/-- A document without a block is all body. -/
theorem split_of_not_hasBlock {content : Text} (h : ¬ HasBlock (withoutMark content)) :
    split content = ⟨none, withoutMark content⟩ := by
  rw [← isSome_delimit?_iff, Option.not_isSome_iff_eq_none] at h
  rw [split]
  simp only [h]

theorem opens_dashes : opens (text "---\n") = true := by decide

theorem closes_dashes : closes (text "---\n") = true := by decide

theorem dashes_isLine : ∃ s, '\n' ∉ s ∧ text "---\n" = s ++ ['\n'] :=
  ⟨text "---", by decide, by decide⟩

/-- The parts of a document whose block stands between two lines of dashes. -/
def Layout.dashed (raw body : Text) (hwhole : ∀ c ∈ raw.getLast?, c = '\n')
    (hopen : ∀ line ∈ Text.lines raw, ¬ IsClosing line) : Layout where
  hasMark := false
  opening := text "---\n"
  block := raw
  closing := text "---\n"
  body := body
  opens_opening := opens_dashes
  opening_isLine := dashes_isLine
  block_isLines := hwhole
  not_closes_block line hline := (closes_eq_false_iff line).2 (hopen line hline)
  closes_closing := closes_dashes
  closing_isLine := .inl dashes_isLine

/-- What is written between two lines of dashes is the block, and what is written behind them is the
body. -/
theorem split_dashed {raw : Text} (hwhole : ∀ c ∈ raw.getLast?, c = '\n')
    (hopen : ∀ line ∈ Text.lines raw, ¬ IsClosing line) (body : Text) :
    split (text "---\n" ++ raw ++ text "---\n" ++ body)
      = ⟨Attributes.ofBlock? raw, body⟩ := by
  rw [List.append_assoc, List.append_assoc]
  exact split_write (Layout.dashed raw body hwhole hopen)

/-- **An exact partition.**  At most one byte order mark is taken off the start of a document.  In
the rest a block is found exactly when there is one.  It is then cut out without losing a character,
the attributes are what the block is read as, and everything behind the closing line is the body.
Without a block there are no attributes, and the rest is the body.  What is written between two
lines of dashes is such a block, whatever follows it.  A document finds the body by its offset,
which is never within a character. -/
theorem split_partition (content : Text) :
    (content = Yaml.byteOrderMark :: withoutMark content ∨
      withoutMark content = content ∧ content.head? ≠ some Yaml.byteOrderMark) ∧
    ((delimit? (withoutMark content)).isSome ↔ HasBlock (withoutMark content)) ∧
    (HasBlock (withoutMark content) →
      ∃ opening raw closing body,
        IsCut (withoutMark content) opening raw closing body ∧
        Attributes.Reads raw (split content).attributes ∧ (split content).body = body) ∧
    (¬ HasBlock (withoutMark content) → split content = ⟨none, withoutMark content⟩) ∧
    (∀ raw body : Text, (raw = [] ∨ raw.getLast? = some '\n') →
      (∀ line ∈ Text.lines raw, ¬ IsClosing line) →
      Attributes.Reads raw (split (text "---\n" ++ raw ++ text "---\n" ++ body)).attributes ∧
        (split (text "---\n" ++ raw ++ text "---\n" ++ body)).body = body) ∧
    (∀ root path : Path,
      (Document.ofFile root path content).body = (split content).body ∧
      (∃ front, content = front ++ (split content).body ∧
        (Utf8.encode front).length = (Document.ofFile root path content).bodyStart) ∧
      (Utf8.encode content).drop (Document.ofFile root path content).bodyStart
        = Utf8.encode (split content).body) := by
  refine ⟨withoutMark_cases content, isSome_delimit?_iff _, ?_, split_of_not_hasBlock, ?_, ?_⟩
  · intro h
    obtain ⟨opening, raw, closing, body, hcut⟩ := exists_isCut h
    refine ⟨opening, raw, closing, body, hcut, ?_⟩
    rw [split_of_isCut hcut]
    exact ⟨Attributes.reads_ofBlock? raw, rfl⟩
  · intro raw body hends hopen
    have hwhole : ∀ c ∈ raw.getLast?, c = '\n' := by
      intro c hc
      rcases hends with rfl | hlast
      · cases hc
      · rw [hlast] at hc
        exact (Option.some.inj hc).symm
    rw [split_dashed hwhole hopen]
    exact ⟨Attributes.reads_ofBlock? raw, rfl⟩
  · intro root path
    have hbody := (Document.ofFile root path content).body_eq
    have hdrop := (Document.ofFile root path content).drop_bodyStart
    rw [hbody] at hdrop
    exact ⟨hbody, (Document.ofFile root path content).exists_front, hdrop⟩

/-- A document with a byte order mark, a carriage return behind the dashes, a key that is no string,
dots that close the block, and dashes in the body. -/
def dotted : Text := Yaml.byteOrderMark :: text "---\r\n1: one\ntitle: Guide\n...\nBody\n---\n"

/-- A document whose block is not closed. -/
def unclosed : Text := text "---\ntitle: Guide\n"

theorem split_partition_dotted :
    HasBlock (withoutMark dotted) ∧
    (∃ opening raw closing body,
      IsCut (withoutMark dotted) opening raw closing body ∧
      Attributes.Reads raw (split dotted).attributes ∧ (split dotted).body = body) ∧
    (split dotted).body = text "Body\n---\n" ∧
    (split dotted).attributes.map (List.map Prod.fst) = some [text "title"] ∧
    ¬ HasBlock (withoutMark unclosed) ∧ split unclosed = ⟨none, withoutMark unclosed⟩ ∧
    (split (text "---\n" ++ text "a: 1\n" ++ text "---\n" ++ text "...\n")).body
      = text "...\n" := by
  have hdotted : HasBlock (withoutMark dotted) := (isSome_delimit?_iff _).1 (by decide +kernel)
  have hunclosed : ¬ HasBlock (withoutMark unclosed) := by
    rw [← isSome_delimit?_iff]
    decide +kernel
  obtain ⟨_, _, hcut, _, _, _⟩ := split_partition dotted
  obtain ⟨_, _, _, hwhole, hdashed, _⟩ := split_partition unclosed
  refine ⟨hdotted, hcut hdotted, by decide +kernel, by decide +kernel, hunclosed,
    hwhole hunclosed, ?_⟩
  exact (hdashed (text "a: 1\n") (text "...\n") (.inr (by decide)) (by decide)).2

end FrontMatter

end DocAudit
