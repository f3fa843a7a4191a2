import DocAudit.Markdown.Heading
import DocAudit.Proofs.Markdown.Fences
import DocAudit.Proofs.Text.Cut
import Mathlib.Data.List.DropRight

/-!
# The lines that are top level headings

Whether a line is a top level heading is settled by its first two characters.
What is told of it is the line up to its next number sign, so that the rest of
the line is missing if there is a second one.

The headings of a body can be found line by line, or by one search over the
whole text that goes on behind what it took.  Both give the same, for a search
that stops within a line comes to the end of that line before the next line
starts.

**Results.**
* `headings_eq_of_lines`: the headings of a body are its heading lines, in their
  order.
* `searchHeadings_eq_filterMap`: the search over the whole text.
* `headings_append_newline`: the headings of two texts, one behind the other.
* `headingText_eq_withoutReturns_iff`: when a heading is told as a whole.
-/

namespace DocAudit

namespace Text

theorem dropEndWhile_append (p : Char → Bool) (t : Text) :
    dropEndWhile p t ++ t.rtakeWhile p = t :=
  List.rdropWhile_append_rtakeWhile

/-- A character that is not of the class stays as often as it was. -/
theorem count_dropEndWhile {p : Char → Bool} {c : Char} (hc : p c = false) (t : Text) :
    (dropEndWhile p t).count c = t.count c := by
  have hending : (t.rtakeWhile p).count c = 0 := by
    refine List.count_eq_zero.2 fun hm => ?_
    rw [List.mem_rtakeWhile_imp hm] at hc
    cases hc
  conv => rhs; rw [← dropEndWhile_append p t]
  rw [List.count_append, hending, Nat.add_zero]

end Text

namespace Markdown

/-- A line that is a top level heading. -/
def IsHeadingLine (line : Text) : Prop := ∃ c t, line = '#' :: c :: t ∧ c ≠ '#'

instance : DecidablePred IsHeadingLine
  | [] => isFalse fun ⟨_, _, e, _⟩ => by cases e
  | [_] => isFalse fun ⟨_, _, e, _⟩ => by cases e
  | a :: b :: t =>
      decidable_of_iff (a = '#' ∧ b ≠ '#')
        ⟨fun h => ⟨b, t, by rw [h.1], h.2⟩, fun ⟨_, _, e, h⟩ => by
          cases e
          exact ⟨rfl, h⟩⟩

/-- A line without the carriage returns that it ends with. -/
def withoutReturns (line : Text) : Text := Text.dropEndWhile (· == '\r') line

/-- The part of a heading line that is told: all before its second number sign. -/
def shownPart (line : Text) : Text := '#' :: line.tail.takeWhile (· != '#')

/-- The text of a heading line. -/
def headingText (line : Text) : Text := withoutReturns (shownPart line)

/-- The heading lines of a body without its fenced code. -/
def headingLines (body : Text) : List Text :=
  (Text.splitOn '\n' (stripFenced body)).filter fun line => IsHeadingLine line

/-- A line is a heading exactly if it is a heading line. -/
theorem heading?_eq (line : Text) :
    heading? line = if IsHeadingLine line then some (headingText line) else none := by
  unfold heading?
  split
  · rename_i t
    cases t with
    | nil =>
        have hno : ¬ IsHeadingLine ['#'] := by
          rintro ⟨_, _, e, _⟩
          cases e
        rw [if_neg hno]
        rfl
    | cons c t =>
        by_cases hc : c = '#'
        · have hno : ¬ IsHeadingLine ('#' :: c :: t) := by
            rintro ⟨d, s, e, hd⟩
            cases e
            exact hd hc
          rw [if_neg hno, hc]
          rfl
        · have hrun : (c :: t).takeWhile (· != '#') = c :: t.takeWhile (· != '#') :=
            List.takeWhile_cons_of_pos (by simpa using hc)
          have hyes : IsHeadingLine ('#' :: c :: t) := ⟨c, t, rfl, hc⟩
          rw [if_pos hyes, headingText, shownPart, List.tail_cons, hrun]
          rfl
  · rename_i hline
    rw [if_neg]
    rintro ⟨c, t, rfl, _⟩
    exact hline _ rfl

theorem filterMap_heading? (lines : List Text) :
    lines.filterMap heading?
      = (lines.filter fun line => IsHeadingLine line).map headingText := by
  induction lines with
  | nil => rfl
  | cons line lines ih =>
      rw [List.filterMap_cons, heading?_eq, List.filter_cons]
      by_cases h : IsHeadingLine line
      · rw [if_pos h, if_pos (decide_eq_true h), List.map_cons, ih]
      · rw [if_neg h, if_neg (by simpa using h), ih]

/-- The headings of a body are the heading lines of the text without fenced code, in their order. -/
theorem headings_eq_of_lines {body : Text} {lines : List Text} (hne : lines ≠ [])
    (hlines : ∀ line ∈ lines, '\n' ∉ line)
    (hbody : stripFenced body = Text.joinWith ['\n'] lines) :
    headings body = (lines.filter fun line => IsHeadingLine line).map headingText := by
  rw [headings, hbody, Text.splitOn_joinWith hne hlines, filterMap_heading?]

theorem headings_eq_map_headingLines (body : Text) :
    headings body = (headingLines body).map headingText :=
  filterMap_heading? _

/-! ### What is told of a heading line -/

/-- A heading line is the part that is told and a rest, which is empty or starts with a number
sign. -/
theorem shownPart_append {line : Text} (h : IsHeadingLine line) :
    ∃ rest, line = shownPart line ++ rest ∧ '#' ∉ (shownPart line).tail
      ∧ (rest = [] ∨ rest.head? = some '#') := by
  obtain ⟨c, t, rfl, _⟩ := h
  refine ⟨(c :: t).dropWhile (· != '#'), ?_, ?_, ?_⟩
  · rw [shownPart, List.tail_cons, List.cons_append, List.takeWhile_append_dropWhile]
  · intro hm
    have := List.mem_takeWhile_imp hm
    exact absurd this (by decide)
  · cases hrest : (c :: t).dropWhile (· != '#') with
    | nil => exact Or.inl rfl
    | cons d rest =>
        have hd := List.head?_dropWhile_not (· != '#') (c :: t)
        rw [hrest] at hd
        simp only [List.head?_cons, bne_eq_false_iff_eq] at hd
        exact Or.inr (by rw [hd]; rfl)

/-- A heading is told as a whole exactly if its line has one number sign. -/
theorem headingText_eq_withoutReturns_iff {line : Text} (h : IsHeadingLine line) :
    headingText line = withoutReturns line ↔ '#' ∉ line.tail := by
  obtain ⟨c, t, rfl, _⟩ := h
  rw [List.tail_cons]
  constructor
  · intro he
    have hshown : '#' ∉ (c :: t).takeWhile (· != '#') := fun hm =>
      absurd (List.mem_takeWhile_imp hm) (by decide)
    have hcount := congrArg (List.count '#') he
    rw [headingText, withoutReturns, withoutReturns, Text.count_dropEndWhile (by decide),
      Text.count_dropEndWhile (by decide), shownPart, List.tail_cons, List.count_cons_self,
      List.count_cons_self, List.count_eq_zero.2 hshown] at hcount
    refine List.count_eq_zero.1 ?_
    omega
  · intro hm
    rw [headingText, shownPart, List.tail_cons,
      List.takeWhile_eq_self_iff.2 (Text.bne_of_notMem hm)]

/-! ### The search over the whole text -/

/-- Whether a character can stand in a heading behind its number sign. -/
def isHeadingChar (c : Char) : Bool := c != '#' && c != '\n'

/-- The headings that a search over a whole text finds.  `opens` tells whether a line starts with
the text.  Where a line starts with a number sign, the search takes the sign and the longest run of
heading characters behind it, if there is one, and goes on behind that run. -/
def searchHeadings (opens : Bool) (t : Text) : List Text :=
  match t with
  | [] => []
  | c :: t =>
      let run := t.takeWhile isHeadingChar
      if opens = true ∧ c = '#' ∧ run ≠ [] then
        withoutReturns (c :: run) :: searchHeadings false (t.dropWhile isHeadingChar)
      else searchHeadings (c == '\n') t
termination_by t.length
decreasing_by
  · exact Nat.lt_succ_of_le (Text.length_dropWhile_le isHeadingChar t)
  · exact Nat.lt_succ_self _

@[simp] theorem searchHeadings_nil (opens : Bool) : searchHeadings opens [] = [] := by
  rw [searchHeadings]

/-- A search within a line finds nothing before the next line. -/
theorem searchHeadings_false_append {s : Text} (hs : '\n' ∉ s) (t : Text) :
    searchHeadings false (s ++ t) = searchHeadings false t := by
  induction s with
  | nil => rfl
  | cons c s ih =>
      rw [List.mem_cons, not_or] at hs
      have hc : (c == '\n') = false := beq_false_of_ne (Ne.symm hs.1)
      rw [List.cons_append, searchHeadings, if_neg (by simp), hc, ih hs.2]

theorem searchHeadings_newline (opens : Bool) (t : Text) :
    searchHeadings opens ('\n' :: t) = searchHeadings true t := by
  have hsign : ¬ (opens = true ∧ '\n' = '#' ∧ t.takeWhile isHeadingChar ≠ []) := by
    rintro ⟨_, e, _⟩
    exact absurd e (by decide)
  rw [searchHeadings, if_neg hsign]
  rfl

/-- Up to the end of a line the run of heading characters is the run up to a number sign. -/
theorem heading_run {s t : Text} (hs : '\n' ∉ s) (ht : t = [] ∨ t.head? = some '\n') :
    (s ++ t).takeWhile isHeadingChar = s.takeWhile (· != '#')
      ∧ (s ++ t).dropWhile isHeadingChar = s.dropWhile (· != '#') ++ t := by
  have hstop : t.takeWhile isHeadingChar = [] ∧ t.dropWhile isHeadingChar = t := by
    rcases ht with rfl | ht
    · exact ⟨rfl, rfl⟩
    · obtain ⟨rest, rfl⟩ := List.head?_eq_some_iff.1 ht
      exact ⟨rfl, rfl⟩
  induction s with
  | nil => exact hstop
  | cons c s ih =>
      rw [List.mem_cons, not_or] at hs
      obtain ⟨htake, hdrop⟩ := ih hs.2
      have hc : isHeadingChar c = (c != '#') := by
        rw [isHeadingChar, bne_iff_ne.2 (Ne.symm hs.1), Bool.and_true]
      constructor
      · simp only [List.cons_append, List.takeWhile_cons, hc, htake]
      · simp only [List.cons_append, List.dropWhile_cons, hc, hdrop]
        cases c != '#' <;> rfl

/-- A search finds in a line the heading that the line is. -/
theorem searchHeadings_line {line t : Text} (hline : '\n' ∉ line)
    (ht : t = [] ∨ t.head? = some '\n') :
    searchHeadings true (line ++ t) = (heading? line).toList ++ searchHeadings false t := by
  cases line with
  | nil =>
      rcases ht with rfl | ht
      · simp [heading?]
      · obtain ⟨rest, rfl⟩ := List.head?_eq_some_iff.1 ht
        rw [List.nil_append, searchHeadings_newline, searchHeadings_newline]
        rfl
  | cons c s =>
      rw [List.mem_cons, not_or] at hline
      have hc : (c == '\n') = false := beq_false_of_ne (Ne.symm hline.1)
      have hskip := searchHeadings_false_append hline.2 t
      rw [List.cons_append, searchHeadings]
      by_cases hsign : c = '#'
      · subst hsign
        obtain ⟨htake, hdrop⟩ := heading_run hline.2 ht
        have hbehind : '\n' ∉ s.dropWhile (· != '#') := fun hm =>
          hline.2 ((List.dropWhile_sublist _).mem hm)
        simp only [heading?, htake, hdrop, true_and]
        by_cases hrun : s.takeWhile (· != '#') = []
        · rw [if_neg (fun h => h hrun), if_pos hrun, hc, hskip]
          rfl
        · rw [if_pos hrun, if_neg hrun, searchHeadings_false_append hbehind]
          rfl
      · have hno : heading? (c :: s) = none := by simp [heading?, hsign]
        rw [if_neg (fun h => hsign h.2.1), hc, hskip, hno]
        rfl

/-- A search over a whole text finds the headings of its lines. -/
theorem searchHeadings_eq_filterMap (t : Text) :
    searchHeadings true t = (Text.splitOn '\n' t).filterMap heading? := by
  have hjoin : ∀ lines : List Text, (∀ line ∈ lines, '\n' ∉ line) →
      searchHeadings true (Text.joinWith ['\n'] lines) = lines.filterMap heading? := by
    intro lines hlines
    induction lines with
    | nil => exact searchHeadings_nil true
    | cons line lines ih =>
        have hline := hlines line List.mem_cons_self
        have hrest := ih fun other hm => hlines other (List.mem_cons_of_mem line hm)
        have hcons : (line :: lines).filterMap heading?
            = (heading? line).toList ++ lines.filterMap heading? := by
          rw [List.filterMap_cons]
          cases heading? line <;> rfl
        rw [hcons]
        cases lines with
        | nil =>
            have hlast := searchHeadings_line hline (Or.inl rfl)
            rw [List.append_nil, searchHeadings_nil] at hlast
            exact hlast
        | cons next lines =>
            rw [Text.joinWith_cons ['\n'] line (List.cons_ne_nil next lines), List.append_assoc,
              List.singleton_append, searchHeadings_line hline (Or.inr rfl),
              searchHeadings_newline, hrest]
  rw [← hjoin _ fun line hm => Text.notMem_of_mem_splitOn hm, Text.joinWith_splitOn]

/-- Behind a text without fences that ends with its line, the headings are those of either text. -/
theorem headings_append_newline {s : Text} (h : ¬ fence <:+: s) (t : Text) :
    headings (s ++ '\n' :: t) = headings s ++ headings t := by
  rw [headings, stripFenced_append_newline h, Text.splitOn_append_cons, List.filterMap_append,
    headings, stripFenced_of_not_infix h, headings]

end Markdown

end DocAudit
