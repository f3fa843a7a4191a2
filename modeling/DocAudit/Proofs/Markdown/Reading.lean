import DocAudit.Proofs.Markdown.Search

/-!
# Reading what was written

Each construct of a body has a written form, and reading the written form with
any text behind it gives the construct back and leaves that text.

**Results.**
* `readFenced?_write`, `readSpan?_write`: fenced code and code spans.
* `readInline?_angled`, `readInline?_bare`: the targets of inline links.
* `definition?_write`: reference definitions.
-/

namespace DocAudit

namespace Text

theorem readDelimited?_write {opening closing : Char} {inner : Char → Bool} {run : Text}
    (hrun : ∀ c ∈ run, inner c = true) (hclosing : inner closing = false) (rest : Text) :
    readDelimited? opening closing inner (opening :: (run ++ closing :: rest))
      = some (run, rest) := by
  rw [readDelimited?, if_pos rfl, takeWhile_run hrun hclosing, dropWhile_run hrun hclosing]
  simp [after?]

theorem readDelimited?_cons_of_ne {opening c : Char} (h : c ≠ opening) (closing : Char)
    (inner : Char → Bool) (t : Text) :
    readDelimited? opening closing inner (c :: t) = none := by
  rw [readDelimited?, if_neg h]

end Text

namespace Markdown

/-- A text that fenced code can hold, its first character aside: no fence stands in it, and none
starts at its end. -/
def IsFenceless (code : Text) : Prop := ¬ fence <:+: code ∧ code.getLast? ≠ some tick

theorem IsFenceless.tail {c : Char} {code : Text} (h : IsFenceless (c :: code)) :
    IsFenceless code where
  left := fun hin => h.1 (hin.trans (List.suffix_cons c code).isInfix)
  right := by
    intro he
    cases code with
    | nil => cases he
    | cons d code => exact h.2 (by rw [List.getLast?_cons_cons, he])

/-- No fence starts in a text without one, whatever stands behind the text. -/
theorem not_fence_prefix_of_isFenceless {c : Char} {code : Text} (h : IsFenceless (c :: code))
    (rest : Text) : ¬ fence <+: c :: code ++ rest := by
  rintro ⟨behind, hbehind⟩
  obtain ⟨hfence, hlast⟩ := h
  match code with
  | [] =>
      have hc : tick = c := (List.cons.inj hbehind).1
      exact hlast (by rw [← hc]; rfl)
  | [d] =>
      have hd : tick = d := (List.cons.inj (List.cons.inj hbehind).2).1
      exact hlast (by rw [← hd]; rfl)
  | d :: e :: code =>
      obtain ⟨hc, htail⟩ := List.cons.inj hbehind
      obtain ⟨hd, htail⟩ := List.cons.inj htail
      have he : tick = e := (List.cons.inj htail).1
      apply hfence
      rw [← hc, ← hd, ← he]
      exact List.IsPrefix.isInfix ⟨code, rfl⟩

theorem after?_fence_eq_none {t : Text} (h : ¬ fence <+: t) : Text.after? fence t = none := by
  rw [Option.eq_none_iff_forall_ne_some]
  intro rest hrest
  exact h ⟨rest, ((Text.after?_eq_some_iff fence t rest).1 hrest).symm⟩

/-- The first fence behind a text without one is the fence that follows it. -/
theorem afterFence?_write {code : Text} (h : IsFenceless code) (rest : Text) :
    afterFence? (code ++ fence ++ rest) = some rest := by
  induction code with
  | nil =>
      rw [List.nil_append, fence, List.cons_append, afterFence?]
      have hfound : Text.after? fence (fence ++ rest) = some rest := Text.after?_append fence rest
      rw [fence, List.cons_append] at hfound
      rw [fence, hfound]
  | cons c code ih =>
      have hstart := not_fence_prefix_of_isFenceless h (fence ++ rest)
      rw [← List.append_assoc] at hstart
      rw [List.cons_append, List.cons_append] at hstart ⊢
      rw [afterFence?, after?_fence_eq_none hstart]
      exact ih h.tail

/-- Fenced code is read up to its closing fence. -/
theorem readFenced?_write {code : Text} (hne : code ≠ []) (h : IsFenceless code) (rest : Text) :
    fenced.read? (fence ++ code ++ fence ++ rest) = some ((), rest) := by
  obtain ⟨c, code, rfl⟩ := List.exists_cons_of_ne_nil hne
  rw [fenced_read?, List.append_assoc, List.append_assoc, readFenced?, Text.after?_append,
    List.cons_append]
  simp only
  rw [← List.append_assoc, afterFence?_write h.tail]
  rfl

/-- A code span is read up to its closing backtick. -/
theorem readSpan?_write {code : Text} (hne : code ≠ [])
    (h : ∀ c ∈ code, isSpanChar c = true) (rest : Text) :
    span.read? (tick :: (code ++ tick :: rest)) = some ((), rest) := by
  obtain ⟨c, code, rfl⟩ := List.exists_cons_of_ne_nil hne
  rw [span_read?, readSpan?, Text.readDelimited?_write h (by decide)]

/-- A part of a bare target: one character, or a pair of parentheses. -/
inductive BarePart where
  | char (c : Char)
  | group (inner : Text)

namespace BarePart

/-- The written form of a part. -/
def write : BarePart → Text
  | char c => [c]
  | group inner => '(' :: (inner ++ [')'])

/-- A part that can stand in a bare target. -/
def IsReadable : BarePart → Prop
  | char c => isBareChar c = true
  | group inner => ∀ c ∈ inner, isGroupChar c = true

end BarePart

/-- A text that ends a bare target: neither a bare character nor a group opens it. -/
def EndsBare (rest : Text) : Prop :=
  rest = [] ∨ ∃ c t, rest = c :: t ∧ isBareChar c = false ∧ c ≠ '('

theorem bareRun_of_endsBare {rest : Text} (h : EndsBare rest) : bareRun rest = ([], rest) := by
  rcases h with rfl | ⟨c, t, rfl, hc, hparen⟩
  · rw [bareRun]
    rfl
  · have hgroup : readGroup? (c :: t) = none := Text.readDelimited?_cons_of_ne hparen _ _ t
    rw [bareRun]
    split
    · rename_i e
      rw [hgroup] at e
      cases e
    · simp [hc]

/-- The parts of a bare target are read one after the other. -/
theorem bareRun_write {parts : List BarePart} (h : ∀ part ∈ parts, part.IsReadable)
    {rest : Text} (hrest : EndsBare rest) :
    bareRun (parts.flatMap BarePart.write ++ rest) = (parts.flatMap BarePart.write, rest) := by
  induction parts with
  | nil => exact bareRun_of_endsBare hrest
  | cons part parts ih =>
      have hpart := h part List.mem_cons_self
      have hparts := ih fun p hp => h p (List.mem_cons_of_mem part hp)
      rw [List.flatMap_cons, List.append_assoc]
      cases part with
      | char c =>
          have hc : isBareChar c = true := hpart
          have hparen : c ≠ '(' := by
            rintro rfl
            exact absurd hc (by decide)
          have hgroup : ∀ t, readGroup? (c :: t) = none :=
            fun t => Text.readDelimited?_cons_of_ne hparen _ _ t
          rw [BarePart.write, List.singleton_append, bareRun]
          split
          · rename_i e
            rw [hgroup] at e
            cases e
          · simp [hc, hparts]
      | group inner =>
          have hgroup : readGroup? ('(' :: (inner ++ ')' :: (parts.flatMap BarePart.write ++ rest)))
              = some (inner, parts.flatMap BarePart.write ++ rest) :=
            Text.readDelimited?_write hpart (by decide) _
          have hwrite : (BarePart.group inner).write ++ (parts.flatMap BarePart.write ++ rest)
              = '(' :: (inner ++ ')' :: (parts.flatMap BarePart.write ++ rest)) := by
            simp [BarePart.write]
          rw [hwrite, bareRun]
          split
          · rename_i e
            rw [hgroup] at e
            cases e
            simp [hparts, BarePart.write]
          · rename_i e
            rw [hgroup] at e
            cases e

theorem afterLinkEnd?_parenthesis (rest : Text) : afterLinkEnd? (')' :: rest) = some rest := by
  have hspace : Text.isSpace ')' = false := by decide
  simp [afterLinkEnd?, hspace, Text.after?]

/-- A title in quotes or in apostrophes, with the space before it. -/
structure Title where
  mark : Char
  inner : Text

namespace Title

/-- The written form of a title. -/
def write (title : Title) : Text := ' ' :: title.mark :: (title.inner ++ [title.mark])

/-- A title that ends at its second mark. -/
structure IsReadable (title : Title) : Prop where
  mark : title.mark = '"' ∨ title.mark = '\''
  inner : ∀ c ∈ title.inner, c ≠ title.mark ∧ c ≠ '\n'

theorem readTitle?_write {title : Title} (h : title.IsReadable) (rest : Text) :
    readTitle? (title.mark :: (title.inner ++ title.mark :: rest)) = some (title.inner, rest) := by
  obtain ⟨mark, inner⟩ := title
  obtain ⟨hmark, hinner⟩ := h
  have hread : Text.readDelimited? mark mark (fun c => c != mark && c != '\n')
      (mark :: (inner ++ mark :: rest)) = some (inner, rest) := by
    apply Text.readDelimited?_write
    · intro c hc
      simpa using hinner c hc
    · simp
  rcases hmark with rfl | rfl
  · simp only [readTitle?, hread]
    rfl
  · have hquote : Text.readDelimited? '"' '"' (fun c => c != '"' && c != '\n')
        ('\'' :: (inner ++ '\'' :: rest)) = none :=
      Text.readDelimited?_cons_of_ne (by decide) _ _ _
    simp only [readTitle?, hread, hquote]
    rfl

theorem afterLinkEnd?_write {title : Title} (h : title.IsReadable) (rest : Text) :
    afterLinkEnd? (title.write ++ ')' :: rest) = some rest := by
  have hwrite : title.write ++ ')' :: rest
      = ' ' :: title.mark :: (title.inner ++ title.mark :: ')' :: rest) := by
    simp [write]
  have hmark : Text.isSpace title.mark = false := by
    rcases h.mark with e | e <;> rw [e] <;> decide
  have hread := readTitle?_write h (')' :: rest)
  have hblank : Text.isSpace ' ' = true := by decide
  have hparenthesis : Text.isSpace ')' = false := by decide
  simp [hwrite, afterLinkEnd?, hmark, hread, hblank, hparenthesis, Text.after?]

end Title

/-- The target between angle brackets of an inline link. -/
theorem readInline?_angled {target : Text} (h : ∀ c ∈ target, isAngledChar c = true)
    (rest : Text) :
    readInline? (text "](" ++ '<' :: (target ++ '>' :: rest))
      = (afterLinkEnd? rest).map ((3, target), ·) := by
  have hspace : Text.isSpace '<' = false := by decide
  have hread : readAngled? ('<' :: (target ++ '>' :: rest)) = some (target, rest) :=
    Text.readDelimited?_write h (by decide) rest
  rw [readInline?, Text.after?_append]
  simp [hspace, hread]

theorem exists_cons_of_isReadable {parts : List BarePart} (hne : parts ≠ [])
    (h : ∀ part ∈ parts, part.IsReadable) :
    ∃ c t, parts.flatMap BarePart.write = c :: t ∧ Text.isSpace c = false ∧ c ≠ '<' := by
  obtain ⟨part, parts, rfl⟩ := List.exists_cons_of_ne_nil hne
  have hpart := h part List.mem_cons_self
  rw [List.flatMap_cons]
  cases part with
  | char c =>
      have hc : isBareChar c = true := hpart
      simp only [isBareChar, Bool.and_eq_true, Bool.not_eq_true', bne_iff_ne] at hc
      exact ⟨c, _, rfl, hc.1.1.1.1, hc.1.2⟩
  | group inner => exact ⟨'(', _, rfl, by decide, by decide⟩

/-- The bare target of an inline link. -/
theorem readInline?_bare {parts : List BarePart} (hne : parts ≠ [])
    (h : ∀ part ∈ parts, part.IsReadable) {rest : Text} (hrest : EndsBare rest) :
    readInline? (text "](" ++ (parts.flatMap BarePart.write ++ rest))
      = (afterLinkEnd? rest).map ((2, parts.flatMap BarePart.write), ·) := by
  have hrun := bareRun_write h hrest
  obtain ⟨c, t, hwrite, hspace, hangle⟩ := exists_cons_of_isReadable hne h
  have hangled : readAngled? (c :: (t ++ rest)) = none :=
    Text.readDelimited?_cons_of_ne hangle _ _ _
  rw [hwrite, List.cons_append] at hrun ⊢
  have hbare : readBare? (c :: (t ++ rest)) = some (c :: t, rest) := by
    simp [readBare?, hrun]
  rw [readInline?, Text.after?_append]
  simp [hspace, hangled, hbare]

theorem isBlank_of_isSpace {c : Char} (h : Text.isSpace c = false) : isBlank c = false := by
  cases hb : isBlank c with
  | false => rfl
  | true =>
      simp only [isBlank, Bool.or_eq_true, beq_iff_eq] at hb
      rcases hb with rfl | rfl <;> exact absurd h (by decide)

/-- A reference definition that is a line of its own. -/
theorem definition?_write {label target : Text} (hlabel : label ≠ [])
    (hcaret : label.head? ≠ some '^') (hbracket : ']' ∉ label) (htarget : target ≠ [])
    (hangle : target.head? ≠ some '<') (hspace : ∀ c ∈ target, Text.isSpace c = false) :
    definition? ('[' :: (label ++ text "]: " ++ target)) = some (label.length + 4, target) := by
  obtain ⟨c, label, rfl⟩ := List.exists_cons_of_ne_nil hlabel
  obtain ⟨d, target, rfl⟩ := List.exists_cons_of_ne_nil htarget
  have hc : ¬ (c = '^' ∨ c = ']') := by
    rintro (rfl | rfl)
    · exact hcaret rfl
    · exact hbracket List.mem_cons_self
  have hinner := Text.bne_of_notMem fun hm => hbracket (List.mem_cons_of_mem c hm)
  have hd := isBlank_of_isSpace (hspace d List.mem_cons_self)
  have hangled : readAngled? (d :: target) = none := by
    refine Text.readDelimited?_cons_of_ne ?_ _ _ _
    rintro rfl
    exact hangle rfl
  have hrun : (d :: target).takeWhile (fun c => !Text.isSpace c) = d :: target := by
    apply List.takeWhile_eq_self_iff.2
    intro e he
    rw [hspace e he]
    rfl
  have hline : '[' :: (c :: label ++ text "]: " ++ d :: target)
      = '[' :: c :: (label ++ ']' :: ':' :: ' ' :: d :: target) := by
    rw [List.append_assoc, List.cons_append]
    rfl
  have htake : (label ++ ']' :: ':' :: ' ' :: d :: target).takeWhile (· != ']') = label :=
    Text.takeWhile_run hinner (by decide) (':' :: ' ' :: d :: target)
  have hdrop : (label ++ ']' :: ':' :: ' ' :: d :: target).dropWhile (· != ']')
      = text "]:" ++ ' ' :: d :: target :=
    Text.dropWhile_run hinner (by decide) (':' :: ' ' :: d :: target)
  have hblank : ∀ e ∈ [' '], isBlank e = true := by decide
  have hblanks := Text.takeWhile_run hblank hd target
  have hrest := Text.dropWhile_run hblank hd target
  rw [List.singleton_append] at hblanks hrest
  have hindent : ('[' :: c :: (label ++ ']' :: ':' :: ' ' :: d :: target)).takeWhile (· == ' ')
      = [] := List.takeWhile_cons_of_neg (by decide)
  rw [hline, definition?, hindent]
  simp only [List.length_nil, Nat.not_lt_zero, if_false, List.drop_zero, hc, htake, hdrop,
    Text.after?_append, hblanks, hrest, hangled, hrun, List.cons_ne_nil, List.length_cons]
  congr 2
  omega

theorem definition?_caret (t : Text) : definition? ('[' :: '^' :: t) = none := by
  simp [definition?]

end Markdown
end DocAudit
