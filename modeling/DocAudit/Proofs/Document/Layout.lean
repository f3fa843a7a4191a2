import DocAudit.Proofs.Document.FrontMatter

/-!
# Documents that are written with front matter

A document with front matter is written from its parts: a byte order mark, which
may be missing, the line that opens the block, the lines of the block, the line
that closes it, and the body.  White space at the end of the two lines, a
carriage return for example, is part of them.  Only the closing line can be
without a line feed, and then no body follows it.

**Results.**
* `lines_append`, `lines_line`: the lines of texts that are written one behind
  the other.
* `untilClosed?_append`: a block ends at the first line that closes it.
* `split_write`: a document is cut into the block and the body that it was
  written from.
-/

namespace DocAudit

namespace Text

theorem lines_cons_of_ne_nil {c : Char} (hc : c ≠ '\n') {t line : Text} {rest : List Text}
    (ht : lines t = line :: rest) : lines (c :: t) = (c :: line) :: rest := by
  rw [lines, if_neg hc, ht]

theorem lines_ne_nil {t : Text} (h : t ≠ []) : lines t ≠ [] := by
  intro he
  apply h
  have hflatten := flatten_lines t
  rw [he] at hflatten
  exact hflatten.symm

/-- A text up to a line feed is one line. -/
theorem lines_line {s : Text} (h : '\n' ∉ s) (t : Text) :
    lines (s ++ '\n' :: t) = (s ++ ['\n']) :: lines t := by
  induction s with
  | nil => rw [List.nil_append, lines, if_pos rfl, List.nil_append]
  | cons c s ih =>
      have hc : c ≠ '\n' := fun e => h (e ▸ List.mem_cons_self)
      have hs : '\n' ∉ s := fun hm => h (List.mem_cons_of_mem c hm)
      rw [List.cons_append, lines_cons_of_ne_nil hc (ih hs), List.cons_append]

theorem lines_of_notMem {s : Text} (hne : s ≠ []) (h : '\n' ∉ s) : lines s = [s] := by
  induction s with
  | nil => exact absurd rfl hne
  | cons c s ih =>
      have hc : c ≠ '\n' := fun e => h (e ▸ List.mem_cons_self)
      have hs : '\n' ∉ s := fun hm => h (List.mem_cons_of_mem c hm)
      cases s with
      | nil => rw [lines, if_neg hc, lines]
      | cons d s => exact lines_cons_of_ne_nil hc (ih (List.cons_ne_nil d s) hs)

/-- Behind a line feed the lines of another text start. -/
theorem lines_append {s : Text} (h : ∀ c ∈ s.getLast?, c = '\n') (t : Text) :
    lines (s ++ t) = lines s ++ lines t := by
  induction s with
  | nil => rfl
  | cons c s ih =>
      cases s with
      | nil =>
          have hc : c = '\n' := h c rfl
          rw [hc]
          rfl
      | cons d s =>
          obtain ⟨line, rest, hlines⟩ :=
            List.exists_cons_of_ne_nil (lines_ne_nil (List.cons_ne_nil d s))
          have hrest : lines (d :: s ++ t) = line :: (rest ++ lines t) := by
            rw [ih fun e he => h e (by rw [List.getLast?_cons_cons]; exact he), hlines]
            rfl
          by_cases hc : c = '\n'
          · rw [hc]
            change ['\n'] :: lines (d :: s ++ t) = ['\n'] :: (lines (d :: s) ++ lines t)
            rw [hrest, hlines, List.cons_append]
          · have hwhole : lines (c :: (d :: s ++ t)) = (c :: line) :: (rest ++ lines t) :=
              lines_cons_of_ne_nil hc hrest
            rw [List.cons_append, hwhole, lines_cons_of_ne_nil hc hlines, List.cons_append]

end Text

namespace FrontMatter

/-- The parts that a document with front matter is written from. -/
structure Layout where
  /-- Whether a byte order mark stands at the very start. -/
  hasMark : Bool
  opening : Text
  block : Text
  closing : Text
  body : Text
  /-- The first line opens a block. -/
  opens_opening : opens opening = true
  opening_isLine : ∃ s, '\n' ∉ s ∧ opening = s ++ ['\n']
  /-- The block is made of whole lines, none of which closes it. -/
  block_isLines : ∀ c ∈ block.getLast?, c = '\n'
  not_closes_block : ∀ line ∈ Text.lines block, closes line = false
  /-- The line behind the block closes it. -/
  closes_closing : closes closing = true
  closing_isLine : (∃ s, '\n' ∉ s ∧ closing = s ++ ['\n']) ∨ ('\n' ∉ closing ∧ body = [])

namespace Layout

/-- The document that the parts make. -/
def write (layout : Layout) : Text :=
  (if layout.hasMark then [Yaml.byteOrderMark] else [])
    ++ (layout.opening ++ (layout.block ++ (layout.closing ++ layout.body)))

end Layout

theorem not_closes_nil : closes [] = false := rfl

/-- A block ends at the first line that closes it. -/
theorem untilClosed?_append {block : List Text} (h : ∀ line ∈ block, closes line = false)
    {closing : Text} (hclosing : closes closing = true) (rest : List Text) :
    untilClosed? (block ++ closing :: rest) = some (block.flatten, rest.flatten) := by
  induction block with
  | nil => rw [List.nil_append, untilClosed?, if_pos hclosing, List.flatten_nil]
  | cons line block ih =>
      obtain ⟨hline, hblock⟩ := List.forall_mem_cons.1 h
      rw [List.cons_append, untilClosed?, if_neg (Bool.eq_false_iff.1 hline), ih hblock,
        Option.map_some, List.flatten_cons]

variable (layout : Layout)

theorem lines_closing_append :
    Text.lines (layout.closing ++ layout.body) = layout.closing :: Text.lines layout.body := by
  rcases layout.closing_isLine with ⟨s, hs, hclosing⟩ | ⟨hs, hbody⟩
  · rw [hclosing, List.append_assoc, List.singleton_append, Text.lines_line hs]
  · have hne : layout.closing ≠ [] := by
      intro he
      have hcloses := layout.closes_closing
      rw [he, not_closes_nil] at hcloses
      cases hcloses
    rw [hbody, List.append_nil, Text.lines_of_notMem hne hs]
    rfl

/-- The lines of a document are those of its parts. -/
theorem lines_opening_append :
    Text.lines (layout.opening ++ (layout.block ++ (layout.closing ++ layout.body)))
      = layout.opening
        :: (Text.lines layout.block ++ layout.closing :: Text.lines layout.body) := by
  obtain ⟨s, hs, hopening⟩ := layout.opening_isLine
  rw [hopening, List.append_assoc, List.singleton_append, Text.lines_line hs,
    Text.lines_append layout.block_isLines, lines_closing_append]

/-- Only the byte order mark is taken off. -/
theorem withoutMark_write :
    withoutMark layout.write
      = layout.opening ++ (layout.block ++ (layout.closing ++ layout.body)) := by
  rw [Layout.write]
  cases layout.hasMark with
  | true => rfl
  | false =>
      have hhead := head?_of_opens layout.opens_opening
      obtain ⟨t, ht⟩ := List.head?_eq_some_iff.1 hhead
      rw [ht]
      rfl

theorem delimit?_write :
    delimit? (layout.opening ++ (layout.block ++ (layout.closing ++ layout.body)))
      = some (layout.block, layout.body) := by
  rw [delimit?, lines_opening_append]
  simp only [layout.opens_opening, if_true]
  rw [untilClosed?_append layout.not_closes_block layout.closes_closing, Text.flatten_lines,
    Text.flatten_lines]

/-- A document is cut into the block and the body that it was written from. -/
theorem split_write :
    split layout.write = ⟨Attributes.ofBlock? layout.block, layout.body⟩ := by
  rw [split, withoutMark_write]
  simp only [delimit?_write]

end FrontMatter

end DocAudit
