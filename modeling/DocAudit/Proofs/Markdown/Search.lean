import DocAudit.Markdown.Target
import DocAudit.Proofs.Text.Cut

/-!
# Searching a text for a construct

Each construct of a body opens with one character: fenced code and code spans
with a backtick, and the target of an inline link with a closing bracket.  A
search therefore passes over a text without that character.

The definitions of a body are searched line by line instead.  What a line
defines is settled by its first closing bracket: a colon has to follow it.

**Results.**
* `erase_append`, `occurrences_append`: a search passes over a text without the
  opening character.
* `definition?_of_isUndefined`: a line whose first closing bracket has no colon
  behind it defines nothing.
* `definitionsFrom_append`: what a text without closing brackets does to the
  definitions that follow it.
-/

namespace DocAudit
namespace Markdown
namespace Construct

variable {α : Type}

theorem occurrences_of_read? {k : Construct α} {n : Nat} {t rest : Text} {a : α}
    (h : k.read? t = some (a, rest)) :
    k.occurrences n t = (n, a) :: k.occurrences (n + (t.length - rest.length)) rest := by
  rw [occurrences]
  split
  · rename_i b r e
    rw [h] at e
    cases e
    rfl
  · rename_i e
    rw [h] at e
    cases e

theorem occurrences_cons_of_read? {k : Construct α} {n : Nat} {c : Char} {t : Text}
    (h : k.read? (c :: t) = none) :
    k.occurrences n (c :: t) = k.occurrences (n + 1) t := by
  rw [occurrences]
  split
  · rename_i b r e
    rw [h] at e
    cases e
  · rfl

@[simp] theorem occurrences_nil (k : Construct α) (n : Nat) : k.occurrences n [] = [] := by
  rw [occurrences]
  split
  · rename_i a rest h
    exact absurd (k.shorter h) (Nat.not_lt_zero _)
  · rfl

/-- The construct is never read at another character than its opening one. -/
def OpensWith (k : Construct α) (opening : Char) : Prop :=
  ∀ (c : Char) (t : Text), c ≠ opening → k.read? (c :: t) = none

/-- Nothing is erased from a text at whose characters the construct is not read. -/
theorem erase_append_of_forall {k : Construct α} {s : Text}
    (h : ∀ c ∈ s, ∀ t, k.read? (c :: t) = none) (t : Text) :
    k.erase (s ++ t) = s ++ k.erase t := by
  induction s with
  | nil => rfl
  | cons c s ih =>
      obtain ⟨hc, hs⟩ := List.forall_mem_cons.1 h
      rw [List.cons_append, erase_cons_of_read? (hc _), ih hs, List.cons_append]

/-- Nothing is found in a text at whose characters the construct is not read. -/
theorem occurrences_append_of_forall {k : Construct α} {s : Text}
    (h : ∀ c ∈ s, ∀ t, k.read? (c :: t) = none) (n : Nat) (t : Text) :
    k.occurrences n (s ++ t) = k.occurrences (n + s.length) t := by
  induction s generalizing n with
  | nil => rfl
  | cons c s ih =>
      obtain ⟨hc, hs⟩ := List.forall_mem_cons.1 h
      rw [List.cons_append, occurrences_cons_of_read? (hc _), ih hs, List.length_cons]
      congr 1
      omega

theorem OpensWith.forall_read? {k : Construct α} {opening : Char} (hk : k.OpensWith opening)
    {s : Text} (hs : opening ∉ s) : ∀ c ∈ s, ∀ t, k.read? (c :: t) = none :=
  fun c hc t => hk c t fun e => hs (e ▸ hc)

/-- Nothing is erased from a text without the opening character. -/
theorem erase_append {k : Construct α} {opening : Char} (hk : k.OpensWith opening)
    {s : Text} (hs : opening ∉ s) (t : Text) :
    k.erase (s ++ t) = s ++ k.erase t :=
  erase_append_of_forall (hk.forall_read? hs) t

theorem erase_of_notMem {k : Construct α} {opening : Char} (hk : k.OpensWith opening) {s : Text}
    (hs : opening ∉ s) : k.erase s = s := by
  have herase := erase_append hk hs []
  rwa [List.append_nil, erase_nil, List.append_nil] at herase

/-- Nothing is found in a text without the opening character. -/
theorem occurrences_append {k : Construct α} {opening : Char} (hk : k.OpensWith opening)
    {s : Text} (hs : opening ∉ s) (n : Nat) (t : Text) :
    k.occurrences n (s ++ t) = k.occurrences (n + s.length) t :=
  occurrences_append_of_forall (hk.forall_read? hs) n t

end Construct

theorem after?_cons_of_ne {a c : Char} (h : a ≠ c) (lead t : Text) :
    Text.after? (a :: lead) (c :: t) = none := by
  rw [Text.after?, if_neg h]

theorem fenced_read? : fenced.read? = readFenced? := rfl

theorem span_read? : span.read? = readSpan? := rfl

theorem inlineLink_read? : inlineLink.read? = readInline? := rfl

theorem fenced_opensWith : fenced.OpensWith tick := by
  intro c t hc
  rw [fenced_read?, readFenced?, fence, after?_cons_of_ne hc.symm]

theorem span_opensWith : span.OpensWith tick := by
  intro c t hc
  rw [span_read?, readSpan?, Text.readDelimited?, if_neg hc]

theorem inlineLink_opensWith : inlineLink.OpensWith ']' := by
  intro c t hc
  have hafter : Text.after? (text "](") (c :: t) = none := after?_cons_of_ne hc.symm _ t
  rw [inlineLink_read?, readInline?, hafter]

/-- A body without backticks holds no code. -/
theorem stripCode_of_notMem {body : Text} (h : tick ∉ body) : stripCode body = body := by
  rw [stripCode, stripFenced, Construct.erase_of_notMem fenced_opensWith h,
    Construct.erase_of_notMem span_opensWith h]

/-- The first line of a text. -/
def firstLine (t : Text) : Text := t.takeWhile (· != '\n')

/-- The first closing bracket of the first line, if there is one, has no colon behind it. -/
def IsUndefined (t : Text) : Prop :=
  Text.after? (text "]:") ((firstLine t).dropWhile (· != ']')) = none

theorem isUndefined_nil : IsUndefined [] := rfl

theorem isUndefined_newline (t : Text) : IsUndefined ('\n' :: t) := rfl

theorem isUndefined_bracket {c : Char} (hc : c ≠ ':') (t : Text) :
    IsUndefined (']' :: c :: t) := by
  have hline : ∃ rest, (firstLine (']' :: c :: t)).dropWhile (· != ']') = ']' :: rest
      ∧ rest.head? ≠ some ':' := by
    by_cases hn : c = '\n'
    · exact ⟨[], by simp [firstLine, hn], by simp⟩
    · exact ⟨c :: t.takeWhile (· != '\n'), by simp [firstLine, hn], by simpa using hc⟩
  obtain ⟨rest, hrest, hhead⟩ := hline
  rw [IsUndefined, hrest]
  cases rest with
  | nil => rfl
  | cons d rest =>
      have hd : ':' ≠ d := fun e => hhead (by rw [e]; rfl)
      change Text.after? [':'] (d :: rest) = none
      exact after?_cons_of_ne hd [] rest

/-- A text without closing brackets leaves it to the text behind it, and only if there is no line
feed between them, whether a line defines something. -/
theorem isUndefined_append {s t : Text} (hs : ']' ∉ s) (h : '\n' ∉ s → IsUndefined t) :
    IsUndefined (s ++ t) := by
  induction s with
  | nil => exact h List.not_mem_nil
  | cons c s ih =>
      have hc : c ≠ ']' := fun e => hs (e ▸ List.mem_cons_self)
      have hrest : ']' ∉ s := fun hm => hs (List.mem_cons_of_mem c hm)
      by_cases hn : c = '\n'
      · rw [hn, List.cons_append]
        exact isUndefined_newline _
      · have hstep := ih hrest fun hm => h fun hm' =>
          (List.mem_cons.1 hm').elim (fun e => hn e.symm) hm
        have hline : firstLine (c :: s ++ t) = c :: firstLine (s ++ t) := by
          simp [firstLine, hn]
        rw [IsUndefined, hline, List.dropWhile_cons_of_pos (by simpa using hc)]
        exact hstep

theorem drop_length_takeWhile (p : Char → Bool) (t : Text) :
    t.drop (t.takeWhile p).length = t.dropWhile p := by
  calc t.drop (t.takeWhile p).length
      = (t.takeWhile p ++ t.dropWhile p).drop (t.takeWhile p).length := by
        rw [List.takeWhile_append_dropWhile]
    _ = t.dropWhile p := List.drop_left

theorem definition?_of_isUndefined {t : Text} (h : IsUndefined t) :
    definition? (firstLine t) = none := by
  unfold definition?
  simp only
  split
  · rfl
  · split
    · rename_i c rest hline
      split
      · rfl
      · rename_i hc
        rw [not_or] at hc
        have hindent : ∀ d ∈ (firstLine t).takeWhile (· == ' '), (d != ']') = true := by
          intro d hd
          have hblank : (d == ' ') = true := List.all_eq_true.1 List.all_takeWhile d hd
          rw [beq_iff_eq] at hblank
          simp [hblank]
        have hdrop : (firstLine t).dropWhile (· != ']') = rest.dropWhile (· != ']') := by
          rw [drop_length_takeWhile] at hline
          calc (firstLine t).dropWhile (· != ']')
              = ((firstLine t).takeWhile (· == ' ')
                  ++ (firstLine t).dropWhile (· == ' ')).dropWhile (· != ']') := by
                rw [List.takeWhile_append_dropWhile]
            _ = ('[' :: c :: rest).dropWhile (· != ']') := by
                rw [List.dropWhile_append_of_pos hindent, hline]
            _ = rest.dropWhile (· != ']') := by simp [hc.2]
        rw [IsUndefined, hdrop] at h
        rw [h]
    · rfl

/-- The definition of a placed line. -/
def placedDefinition? (line : Nat × Text) : Option (Nat × Text) :=
  (definition? line.2).map fun (k, target) => (line.1 + k, target)

/-- The targets that the lines of a text define, if the text stands at place `n`. -/
def definitionsFrom (n : Nat) (t : Text) : List (Nat × Text) :=
  (placedLines n (Text.splitOn '\n' t)).filterMap placedDefinition?

/-- The targets that the lines behind the first one define. -/
def laterDefinitions (n : Nat) (t : Text) : List (Nat × Text) :=
  (placedLines n (Text.splitOn '\n' t)).tail.filterMap placedDefinition?

theorem definitionTargets_eq (t : Text) : definitionTargets t = definitionsFrom 0 t := rfl

theorem definitionsFrom_eq (n : Nat) (t : Text) :
    definitionsFrom n t
      = (placedDefinition? (n, firstLine t)).toList ++ laterDefinitions n t := by
  have hhead := Text.head?_splitOn '\n' t
  unfold definitionsFrom laterDefinitions
  cases e : Text.splitOn '\n' t with
  | nil => exact absurd e (Text.splitOn_ne_nil '\n' t)
  | cons line lines =>
      rw [e, List.head?_cons, Option.some.injEq] at hhead
      rw [placedLines, hhead, List.tail_cons, List.filterMap_cons]
      change _ = (placedDefinition? (n, t.takeWhile (· != '\n'))).toList ++ _
      cases placedDefinition? (n, t.takeWhile (· != '\n')) <;> rfl

theorem definitionsFrom_of_isUndefined {t : Text} (h : IsUndefined t) (n : Nat) :
    definitionsFrom n t = laterDefinitions n t := by
  rw [definitionsFrom_eq, placedDefinition?, definition?_of_isUndefined h]
  rfl

theorem laterDefinitions_newline (n : Nat) (t : Text) :
    laterDefinitions n ('\n' :: t) = definitionsFrom (n + 1) t := by
  simp [laterDefinitions, definitionsFrom, Text.splitOn, placedLines]

theorem laterDefinitions_cons {c : Char} (hc : c ≠ '\n') (n : Nat) (t : Text) :
    laterDefinitions n (c :: t) = laterDefinitions (n + 1) t := by
  obtain ⟨line, lines, ht, hct⟩ := Text.splitOn_cons_of_ne hc t
  rw [laterDefinitions, laterDefinitions, ht, hct]
  have hplace : n + (c :: line).length + 1 = n + 1 + line.length + 1 := by
    rw [List.length_cons]
    omega
  rw [placedLines, placedLines, hplace, List.tail_cons, List.tail_cons]

theorem laterDefinitions_append {s : Text} (hs : '\n' ∉ s) (n : Nat) (t : Text) :
    laterDefinitions n (s ++ t) = laterDefinitions (n + s.length) t := by
  induction s generalizing n with
  | nil => rfl
  | cons c s ih =>
      have hc : c ≠ '\n' := fun e => hs (e ▸ List.mem_cons_self)
      have hrest : '\n' ∉ s := fun hm => hs (List.mem_cons_of_mem c hm)
      have hplace : n + 1 + s.length = n + (c :: s).length := by
        rw [List.length_cons]
        omega
      rw [List.cons_append, laterDefinitions_cons hc, ih hrest, hplace]

/-- A text that a line can start behind. -/
def OpensLine (t : Text) : Prop := t = [] ∨ t.getLast? = some '\n'

/-- A text without closing brackets defines nothing, and neither does the line that it leaves
unfinished, if the text behind it does not define something there. -/
theorem definitionsFrom_append {s t : Text} (hs : ']' ∉ s) (h : ¬ OpensLine s → IsUndefined t)
    (n : Nat) : definitionsFrom n (s ++ t) = definitionsFrom (n + s.length) t := by
  induction s generalizing n with
  | nil => rfl
  | cons c s ih =>
      have hrest : ']' ∉ s := fun hm => hs (List.mem_cons_of_mem c hm)
      have hplace : n + 1 + s.length = n + (c :: s).length := by
        rw [List.length_cons]
        omega
      have hlater : ¬ OpensLine s → IsUndefined t := by
        intro hopen
        apply h
        rintro (he | he)
        · cases he
        · cases s with
          | nil => exact hopen (Or.inl rfl)
          | cons d s => exact hopen (Or.inr (by rw [← he, List.getLast?_cons_cons]))
      have hstep := ih hrest hlater (n + 1)
      rw [hplace] at hstep
      by_cases hn : c = '\n'
      · rw [hn, List.cons_append, definitionsFrom_of_isUndefined (isUndefined_newline _),
          laterDefinitions_newline, hstep]
        rfl
      · have hunfinished : '\n' ∉ s → IsUndefined t := by
          intro hm
          apply h
          rintro (he | he)
          · cases he
          · have hlast := List.mem_of_getLast? he
            exact (List.mem_cons.1 hlast).elim (fun e => hn e.symm) hm
        have hundefined : IsUndefined (s ++ t) := isUndefined_append hrest hunfinished
        have hundefined' : IsUndefined (c :: s ++ t) :=
          isUndefined_append hs fun hm =>
            hunfinished fun hm' => hm (List.mem_cons_of_mem c hm')
        rw [definitionsFrom_of_isUndefined hundefined', List.cons_append,
          laterDefinitions_cons hn, ← definitionsFrom_of_isUndefined hundefined, hstep]

end Markdown
end DocAudit
