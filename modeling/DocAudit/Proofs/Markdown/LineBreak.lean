import DocAudit.Markdown.Heading
import DocAudit.Proofs.Markdown.Located
import DocAudit.Proofs.Markdown.Reading
import DocAudit.Proofs.Text.LineBreak
import Mathlib.Data.List.Basic

/-!
# Bodies with other line breaks

A body is searched for its code, its links and its headings.  Within a link,
white space can go over lines, and so can fenced code; everything else stays
within one line.  With a carriage return before every line feed, the searches
therefore find the same code and the same targets, at places that moved by the
line feeds before them.

A heading loses the carriage returns at its end.  It is the same heading then,
unless the line is a lone number sign, which is a heading only with a carriage
return behind it.

**Results.**
* `erase_crlf`, `occurrences_crlf`: a search, step by step.
* `stripCode_crlf`: the body without its code.
* `targets_crlf`: the targets of the body.
* `headings_eq_filter_crlf`, `headings_crlf_eq_iff`: the headings of the body.
-/

namespace DocAudit

namespace Markdown

namespace Construct

variable {α : Type} {k : Construct α} {adapt : Text → α → α} {opening : Char}

/-- With carriage returns before its line feeds a text starts with the same construct.  What the
construct gives is adapted to the text. -/
def IgnoresReturns (k : Construct α) (adapt : Text → α → α) : Prop :=
  ∀ t, k.read? (Text.crlf t) = (k.read? t).map fun (a, rest) => (adapt t a, Text.crlf rest)

/-- What follows a construct is the end of the text. -/
def LeavesSuffix (k : Construct α) : Prop :=
  ∀ {t : Text} {a : α} {rest : Text}, k.read? t = some (a, rest) → rest <:+ t

theorem read?_crlf_of_none (hk : k.IgnoresReturns adapt) {t : Text} (h : k.read? t = none) :
    k.read? (Text.crlf t) = none := by
  rw [hk, h]
  rfl

section

variable (hk : k.IgnoresReturns adapt) (hopens : k.OpensWith opening)
  (hopening : '\r' ≠ opening ∧ '\n' ≠ opening)
include hk hopens hopening

theorem erase_crlf (t : Text) : k.erase (Text.crlf t) = Text.crlf (k.erase t) := by
  fun_induction Construct.erase k t with
  | case1 t a rest h ih =>
      have hread : k.read? (Text.crlf t) = some (adapt t a, Text.crlf rest) := by
        rw [hk, h]
        rfl
      rw [erase_of_read? hread, ih]
  | case2 h => rw [Text.crlf_nil, erase_nil]
  | case3 c t h ih =>
      have hrest : k.erase (Text.crlf t) = Text.crlf (k.erase t) := ih
      by_cases hc : c = '\n'
      · subst hc
        rw [Text.crlf_newline, Text.crlf_newline, erase_cons_of_read? (hopens '\r' _ hopening.1),
          erase_cons_of_read? (hopens '\n' _ hopening.2), hrest]
      · have hread := read?_crlf_of_none hk h
        rw [Text.crlf_cons hc] at hread
        rw [Text.crlf_cons hc, erase_cons_of_read? hread, hrest, Text.crlf_cons hc]

/-- A search finds the same, at the places that the places became.  `s` is the text that the search
has passed. -/
theorem occurrences_crlf (hsuffix : k.LeavesSuffix) (s t : Text) :
    k.occurrences (Text.crlf s).length (Text.crlf t)
      = (k.occurrences s.length t).map fun found =>
          (Text.shift (s ++ t) found.1, adapt ((s ++ t).drop found.1) found.2) := by
  induction hlength : t.length using Nat.strongRecOn generalizing s t with
  | ind length ih =>
      subst hlength
      cases hread : k.read? t with
      | some found =>
          obtain ⟨a, rest⟩ := found
          obtain ⟨passed, rfl⟩ := hsuffix hread
          have hcrlf : k.read? (Text.crlf (passed ++ rest))
              = some (adapt (passed ++ rest) a, Text.crlf rest) := by
            rw [hk, hread]
            rfl
          have hplace : s.length + ((passed ++ rest).length - rest.length)
              = (s ++ passed).length := by
            rw [List.length_append, List.length_append]
            omega
          have hplaceCrlf : (Text.crlf s).length
                + ((Text.crlf (passed ++ rest)).length - (Text.crlf rest).length)
              = (Text.crlf (s ++ passed)).length := by
            rw [Text.crlf_append, Text.crlf_append, List.length_append, List.length_append]
            omega
          have hfound : Text.shift (s ++ (passed ++ rest)) s.length = (Text.crlf s).length :=
            Text.shift_append s (passed ++ rest) 0
          rw [occurrences_of_read? hcrlf, occurrences_of_read? hread, hplace, hplaceCrlf,
            ih rest.length (k.shorter hread) (s ++ passed) rest rfl]
          simp only [List.map_cons, hfound, List.drop_left, List.append_assoc]
      | none =>
          have hcrlf := read?_crlf_of_none hk hread
          cases t with
          | nil => rw [Text.crlf_nil, occurrences_nil, occurrences_nil, List.map_nil]
          | cons c t =>
              have hrest := ih t.length (Nat.lt_succ_self _) (s ++ [c]) t rfl
              rw [List.append_assoc, List.singleton_append, Text.crlf_append,
                List.length_append, List.length_append, List.length_singleton] at hrest
              rw [occurrences_cons_of_read? hread, ← hrest]
              by_cases hc : c = '\n'
              · subst hc
                rw [Text.crlf_newline, occurrences_cons_of_read? (hopens '\r' _ hopening.1),
                  occurrences_cons_of_read? (hopens '\n' _ hopening.2)]
                rfl
              · have hone : Text.crlf [c] = [c] := Text.crlf_cons hc []
                rw [Text.crlf_cons hc] at hcrlf ⊢
                rw [occurrences_cons_of_read? hcrlf, hone, List.length_singleton]

end

/-- A search only takes characters away. -/
theorem erase_sublist (hsuffix : k.LeavesSuffix) (t : Text) : (k.erase t).Sublist t := by
  fun_induction Construct.erase k t with
  | case1 t a rest h ih => exact ih.trans (hsuffix h).sublist
  | case2 h => exact List.nil_sublist []
  | case3 c t h ih => exact ih.cons_cons c

end Construct

section Code

theorem afterFence?_cons_of_ne {c : Char} (hc : tick ≠ c) (t : Text) :
    afterFence? (c :: t) = afterFence? t := by
  rw [afterFence?, fence, after?_cons_of_ne hc]

theorem after?_fence_crlf (t : Text) :
    Text.after? fence (Text.crlf t) = (Text.after? fence t).map Text.crlf :=
  Text.after?_crlf (by decide) t

theorem afterFence?_crlf (t : Text) :
    afterFence? (Text.crlf t) = (afterFence? t).map Text.crlf := by
  induction t with
  | nil => rfl
  | cons c t ih =>
      by_cases hc : c = '\n'
      · subst hc
        rw [Text.crlf_newline, afterFence?_cons_of_ne (by decide),
          afterFence?_cons_of_ne (by decide), afterFence?_cons_of_ne (by decide), ih]
      · have hfence := after?_fence_crlf (c :: t)
        rw [Text.crlf_cons hc] at hfence ⊢
        rw [afterFence?, afterFence?, hfence]
        cases Text.after? fence (c :: t) with
        | none => exact ih
        | some rest => rfl

theorem fenced_ignoresReturns : fenced.IgnoresReturns fun _ a => a := by
  intro t
  rw [fenced_read?, readFenced?, readFenced?, after?_fence_crlf]
  cases Text.after? fence t with
  | none => rfl
  | some inner =>
      cases inner with
      | nil => rfl
      | cons c inner =>
          rw [Option.map_some]
          by_cases hc : c = '\n'
          · subst hc
            rw [Text.crlf_newline]
            simp only [afterFence?_cons_of_ne (show tick ≠ '\n' by decide), afterFence?_crlf,
              Option.map_map, Function.comp_def]
          · rw [Text.crlf_cons hc]
            simp only [afterFence?_crlf, Option.map_map, Function.comp_def]

theorem span_ignoresReturns : span.IgnoresReturns fun _ a => a := by
  intro t
  have hrun := @Text.readDelimited?_crlf tick tick isSpanChar (by decide) t
  rw [span_read?, readSpan?, readSpan?, hrun]
  cases Text.readDelimited? tick tick isSpanChar t with
  | none => rfl
  | some found =>
      obtain ⟨run, rest⟩ := found
      cases run <;> rfl

theorem stripFenced_crlf (body : Text) :
    stripFenced (Text.crlf body) = Text.crlf (stripFenced body) :=
  Construct.erase_crlf fenced_ignoresReturns fenced_opensWith (by decide) body

/-- The same code is erased. -/
theorem stripCode_crlf (body : Text) :
    stripCode (Text.crlf body) = Text.crlf (stripCode body) := by
  rw [stripCode, stripFenced_crlf,
    Construct.erase_crlf span_ignoresReturns span_opensWith (by decide)]
  rfl

end Code

section InlineLink

theorem isSpace_return : Text.isSpace '\r' = Text.isSpace '\n' := rfl

theorem readAngled?_crlf (t : Text) :
    readAngled? (Text.crlf t)
      = (readAngled? t).map fun (target, rest) => (target, Text.crlf rest) :=
  Text.readDelimited?_crlf (by decide) t

theorem readGroup?_crlf (t : Text) :
    readGroup? (Text.crlf t)
      = (readGroup? t).map fun (group, rest) => (group, Text.crlf rest) :=
  Text.readDelimited?_crlf (by decide) t

theorem readTitle?_crlf (t : Text) :
    readTitle? (Text.crlf t)
      = (readTitle? t).map fun (title, rest) => (title, Text.crlf rest) := by
  have hquotes := @Text.readDelimited?_crlf '"' '"' (fun c => c != '"' && c != '\n') (by decide) t
  have hapostrophes := @Text.readDelimited?_crlf '\'' '\'' (fun c => c != '\'' && c != '\n')
    (by decide) t
  have hparentheses := @Text.readDelimited?_crlf '(' ')'
    (fun c => c != '(' && c != ')' && c != '\n') (by decide) t
  rw [readTitle?, readTitle?, hquotes, hapostrophes, hparentheses]
  simp only [Option.orElse_eq_orElse, Option.orElse_eq_or, Option.map_or]

theorem bareRun_of_readGroup? {t group rest : Text} (h : readGroup? t = some (group, rest)) :
    bareRun t = ('(' :: (group ++ ')' :: (bareRun rest).1), (bareRun rest).2) := by
  rw [bareRun]
  split
  · rename_i e
    rw [h] at e
    cases e
    rfl
  · rename_i e
    rw [h] at e
    cases e

theorem bareRun_cons {c : Char} {t : Text} (h : readGroup? (c :: t) = none) :
    bareRun (c :: t)
      = if isBareChar c then (c :: (bareRun t).1, (bareRun t).2) else ([], c :: t) := by
  rw [bareRun]
  split
  · rename_i e
    rw [h] at e
    cases e
  · rfl

theorem bareRun_crlf (t : Text) :
    bareRun (Text.crlf t) = ((bareRun t).1, Text.crlf (bareRun t).2) := by
  fun_induction bareRun t with
  | case1 t group rest h run ih =>
      have hgroup : readGroup? (Text.crlf t) = some (group, Text.crlf rest) := by
        rw [readGroup?_crlf, h]
        rfl
      rw [bareRun_of_readGroup? hgroup, ih]
  | case2 h => rw [Text.crlf_nil, bareRun]; rfl
  | case3 c t h hc run ih =>
      have hnewline : c ≠ '\n' := by
        rintro rfl
        exact absurd hc (by decide)
      have hgroup := readGroup?_crlf (c :: t)
      rw [h, Text.crlf_cons hnewline, Option.map_none] at hgroup
      rw [Text.crlf_cons hnewline, bareRun_cons hgroup, if_pos hc, ih]
  | case4 c t h hc =>
      by_cases hnewline : c = '\n'
      · subst hnewline
        have hgroup : readGroup? ('\r' :: '\n' :: Text.crlf t) = none :=
          Text.readDelimited?_cons_of_ne (by decide) _ _ _
        rw [Text.crlf_newline, bareRun_cons hgroup, if_neg (by decide)]
      · have hgroup := readGroup?_crlf (c :: t)
        rw [h, Text.crlf_cons hnewline, Option.map_none] at hgroup
        rw [Text.crlf_cons hnewline, bareRun_cons hgroup, if_neg hc]

theorem readBare?_crlf (t : Text) :
    readBare? (Text.crlf t) = (readBare? t).map fun (target, rest) => (target, Text.crlf rest) := by
  rw [readBare?, readBare?, bareRun_crlf]
  by_cases h : (bareRun t).1 = []
  · rw [if_pos h, if_pos h, Option.map_none]
  · rw [if_neg h, if_neg h, Option.map_some]

theorem after?_parenthesis_crlf (t : Text) :
    Text.after? [')'] ((Text.crlf t).dropWhile Text.isSpace)
      = (Text.after? [')'] (t.dropWhile Text.isSpace)).map Text.crlf := by
  rw [Text.dropWhile_crlf isSpace_return, Text.after?_crlf (by decide)]

theorem afterLinkEnd?_crlf (t : Text) :
    afterLinkEnd? (Text.crlf t) = (afterLinkEnd? t).map Text.crlf := by
  have htitle := readTitle?_crlf (t.dropWhile Text.isSpace)
  rw [← Text.dropWhile_crlf isSpace_return] at htitle
  unfold afterLinkEnd?
  simp only [Text.head?_crlf_any isSpace_return, htitle]
  cases t.head?.any Text.isSpace with
  | false => simp only [Bool.false_eq_true, if_false, after?_parenthesis_crlf]
  | true =>
      simp only [if_true]
      cases readTitle? (t.dropWhile Text.isSpace) with
      | none => simp only [Option.map_none, after?_parenthesis_crlf]
      | some found => simp only [Option.map_some, after?_parenthesis_crlf]

/-- The number of characters before a target grows by the line feeds among them. -/
def adaptGap (t : Text) (found : Nat × Text) : Nat × Text :=
  (found.1 + (t.take found.1).count '\n', found.2)

theorem inlineLink_ignoresReturns : inlineLink.IgnoresReturns adaptGap := by
  intro t
  rw [inlineLink_read?, readInline?, readInline?, Text.after?_crlf (by decide)]
  cases hlead : Text.after? (text "](") t with
  | none => rfl
  | some inner =>
      rw [Text.after?_eq_some_iff] at hlead
      have hgap := List.takeWhile_append_dropWhile (p := Text.isSpace) (l := inner)
      have hcount : (text "](").count '\n' = 0 := by decide
      have hlength : (text "](").length = 2 := rfl
      have htake : ∀ u, t = text "](" ++ (inner.takeWhile Text.isSpace ++ u) → ∀ m,
          (t.take (2 + (inner.takeWhile Text.isSpace).length + m)).count '\n'
            = (inner.takeWhile Text.isSpace).count '\n' + (u.take m).count '\n' := by
        intro u hu m
        rw [hu, ← hlength, Nat.add_assoc, List.take_length_add_append, List.take_length_add_append,
          List.count_append, List.count_append, hcount, Nat.zero_add]
      simp only [Option.map_some, Text.takeWhile_crlf isSpace_return,
        Text.dropWhile_crlf isSpace_return, readAngled?_crlf, readBare?_crlf, Text.length_crlf]
      cases hangled : readAngled? (inner.dropWhile Text.isSpace) with
      | some found =>
          obtain ⟨target, rest⟩ := found
          have hinner := Text.eq_of_readDelimited? hangled
          have hone := htake ('<' :: (target ++ '>' :: rest)) (by rw [hlead, ← hinner, hgap]) 1
          have hangle : ['<'].count '\n' = 0 := by decide
          simp only [Option.map_some, afterLinkEnd?_crlf, Option.map_map, Function.comp_def,
            adaptGap, hone]
          rw [List.take_succ_cons, List.take_zero, hangle]
          congr 1
          funext rest'
          congr 2
          omega
      | none =>
          simp only [Option.map_none]
          cases hbare : readBare? (inner.dropWhile Text.isSpace) with
          | none => rfl
          | some found =>
              obtain ⟨target, rest⟩ := found
              have hzero := htake (inner.dropWhile Text.isSpace) (by rw [hlead, hgap]) 0
              rw [List.take_zero, List.count_nil] at hzero
              simp only [Option.map_some, afterLinkEnd?_crlf, Option.map_map, Function.comp_def,
                adaptGap]
              rw [← Nat.add_zero (2 + (inner.takeWhile Text.isSpace).length), hzero]
              congr 1
              funext rest'
              congr 2
              omega

theorem inlineLink_leavesSuffix : inlineLink.LeavesSuffix := by
  rintro t ⟨n, target⟩ rest h
  obtain ⟨before, behind, rfl, _⟩ := exists_append_of_readInline? h
  exact ⟨before ++ (target ++ behind), by simp⟩

/-- The places of targets move with the text. -/
def shifted (t : Text) (found : Nat × Text) : Nat × Text := (Text.shift t found.1, found.2)

theorem inlineTargets_crlf (t : Text) :
    inlineTargets (Text.crlf t) = (inlineTargets t).map (shifted t) := by
  have h := Construct.occurrences_crlf inlineLink_ignoresReturns inlineLink_opensWith
    (by decide) inlineLink_leavesSuffix [] t
  rw [Text.crlf_nil, List.length_nil] at h
  rw [inlineTargets, inlineTargets, h, List.map_map, List.map_map]
  apply List.map_congr_left
  rintro ⟨n, k, target⟩ _
  simp only [Function.comp_apply, adaptGap, shifted, List.nil_append, Text.shift_add]

end InlineLink

section Definition

/-- A carriage return at the end of its line is no part of a definition. -/
theorem definition?_concat_return (line : Text) :
    definition? (line ++ ['\r']) = definition? line := by
  have hindent := Text.takeWhile_concat_return (p := (· == ' ')) (by decide) line
  have hbehind : (line ++ ['\r']).drop (line.takeWhile (· == ' ')).length
      = line.dropWhile (· == ' ') ++ ['\r'] := by
    rw [← hindent, drop_length_takeWhile, Text.dropWhile_concat_return (by decide)]
  unfold definition?
  simp only [hindent, hbehind, drop_length_takeWhile]
  split
  · rfl
  · rcases line.dropWhile (· == ' ') with _ | ⟨x, t⟩
    · rfl
    · by_cases hx : x = '['
      · subst hx
        rcases t with _ | ⟨c, t⟩
        · rfl
        · simp only [List.cons_append]
          -- The carriage return comes into the label only if no bracket ends the label, and then
          -- the line defines nothing.
          have hlabel := @Text.closed_run_concat_return (text "]:") (by decide) (by decide)
            (· != ']') t
          cases hcolon : Text.after? (text "]:") (t.dropWhile (· != ']')) with
          | none =>
              rw [hcolon, Option.map_none, Option.map_eq_none_iff] at hlabel
              simp only [hlabel]
          | some rest =>
              rw [hcolon, Option.map_some, Option.map_eq_some_iff] at hlabel
              obtain ⟨_, hcolonReturn, e⟩ := hlabel
              obtain ⟨hrun, rfl⟩ := Prod.mk.inj e
              have hblanks := Text.takeWhile_concat_return (p := isBlank) rfl rest
              have hbody := Text.dropWhile_concat_return (p := isBlank) rfl rest
              have hangled : readAngled? (rest.dropWhile isBlank ++ ['\r'])
                  = (readAngled? (rest.dropWhile isBlank)).map
                    fun (target, behind) => (target, behind ++ ['\r']) :=
                Text.readDelimited?_concat_return (by decide) (by decide) _ _
              have hbare := Text.takeWhile_concat_return (p := fun c => !Text.isSpace c) rfl
                (rest.dropWhile isBlank)
              simp only [hcolonReturn, hrun, hblanks, hbody, hangled, hbare]
              cases readAngled? (rest.dropWhile isBlank) <;> rfl
      · simp [hx]

/-- The place of a definition moves with the text before its line. -/
theorem placedDefinition?_crlf (s : Text) {line : Text} (h : '\n' ∉ line) (u : Text) :
    placedDefinition? ((Text.crlf s).length, line)
      = (placedDefinition? (s.length, line)).map (shifted (s ++ (line ++ u))) := by
  rw [placedDefinition?, placedDefinition?]
  cases hline : definition? line with
  | none => rfl
  | some found =>
      obtain ⟨k, target⟩ := found
      obtain ⟨before, behind, rfl, rfl, _⟩ := exists_append_of_definition? hline
      have hbefore : before.count '\n' = 0 :=
        List.count_eq_zero.2 fun hm => h (List.mem_append_left _ hm)
      simp only [Option.map_some, shifted, Text.shift_append, List.append_assoc,
        List.take_left, hbefore, Nat.add_zero]

theorem placedDefinitions_crlf {lines : List Text} (h : ∀ line ∈ lines, '\n' ∉ line) (s : Text) :
    (placedLines (Text.crlf s).length (Text.returned lines)).filterMap placedDefinition?
      = ((placedLines s.length lines).filterMap placedDefinition?).map
        (shifted (s ++ Text.joinWith ['\n'] lines)) := by
  induction lines generalizing s with
  | nil => rfl
  | cons line lines ih =>
      have hline := h line List.mem_cons_self
      have hlines : ∀ other ∈ lines, '\n' ∉ other := fun other hm =>
        h other (List.mem_cons_of_mem line hm)
      cases lines with
      | nil =>
          have hone := placedDefinition?_crlf s hline []
          rw [List.append_nil] at hone
          rw [List.map_filterMap]
          simp only [Text.returned, placedLines, Text.joinWith, List.filterMap_cons,
            List.filterMap_nil, hone]
      | cons next lines =>
          have hplace : s.length + line.length + 1 = (s ++ (line ++ ['\n'])).length := by
            simp only [List.length_append, List.length_cons, List.length_nil]
            omega
          have htext : s ++ Text.joinWith ['\n'] (line :: next :: lines)
              = s ++ (line ++ ['\n']) ++ Text.joinWith ['\n'] (next :: lines) := by
            simp only [Text.joinWith, List.append_assoc]
          have hfirst := placedDefinition?_crlf s hline
            (['\n'] ++ Text.joinWith ['\n'] (next :: lines))
          have hrest := ih hlines (s ++ (line ++ ['\n']))
          rw [List.map_filterMap, Text.length_crlf_append_line s hline, ← hplace, ← htext] at hrest
          rw [← List.append_assoc line, ← List.append_assoc s, ← htext] at hfirst
          rw [Text.returned_cons (List.cons_ne_nil next lines), List.map_filterMap, placedLines,
            placedLines, List.filterMap_cons, List.filterMap_cons, hrest]
          have hreturned : placedDefinition? ((Text.crlf s).length, line ++ ['\r'])
              = placedDefinition? ((Text.crlf s).length, line) := by
            rw [placedDefinition?, placedDefinition?, definition?_concat_return]
          rw [hreturned, hfirst]

theorem definitionTargets_crlf (t : Text) :
    definitionTargets (Text.crlf t) = (definitionTargets t).map (shifted t) := by
  have hlines : ∀ line ∈ Text.splitOn '\n' t, '\n' ∉ line := fun line hm =>
    Text.notMem_of_mem_splitOn hm
  have h := placedDefinitions_crlf hlines []
  rw [Text.joinWith_splitOn, ← Text.splitOn_crlf, List.nil_append] at h
  exact h

end Definition

section Targets

theorem placedTargets_crlf (t : Text) :
    placedTargets (Text.crlf t) = (placedTargets t).map (shifted t) := by
  rw [placedTargets, placedTargets, inlineTargets_crlf, definitionTargets_crlf]
  refine (List.map_merge fun a _ b _ => ?_).symm
  exact decide_eq_decide.2 (Text.shift_le_shift_iff t a.1 b.1).symm

/-- A body names the same targets. -/
theorem targets_crlf (body : Text) : targets (Text.crlf body) = targets body := by
  rw [targets, targets, stripCode_crlf, placedTargets_crlf, List.map_map]
  rfl

theorem links_crlf (marker body : Text) :
    links marker (Text.crlf body) = links marker body := by
  rw [links, links, targets_crlf]

end Targets

section Heading

theorem suffix_of_afterFence? {t rest : Text} (h : afterFence? t = some rest) : rest <:+ t := by
  induction t with
  | nil => cases h
  | cons c t ih =>
      rw [afterFence?] at h
      split at h
      · rename_i r hr
        cases h
        exact Text.suffix_of_after? hr
      · exact (ih h).trans (List.suffix_cons c t)

theorem fenced_leavesSuffix : fenced.LeavesSuffix := by
  intro t _ rest h
  rw [fenced_read?, readFenced?] at h
  split at h
  · rename_i c inner hinner
    obtain ⟨rest', hrest, he⟩ := Option.map_eq_some_iff.1 h
    cases he
    exact ((suffix_of_afterFence? hrest).trans (List.suffix_cons c inner)).trans
      (Text.suffix_of_after? hinner)
  · cases h

theorem stripFenced_sublist (body : Text) : (stripFenced body).Sublist body :=
  Construct.erase_sublist fenced_leavesSuffix body

/-- Without carriage returns no line is a lone number sign as a heading. -/
theorem heading?_ne_lone {line : Text} (h : '\r' ∉ line) : heading? line ≠ some ['#'] := by
  intro hlone
  unfold heading? at hlone
  split at hlone
  · rename_i t
    simp only at hlone
    split at hlone
    · cases hlone
    · rename_i hrun
      have hclean : ∀ c ∈ '#' :: t.takeWhile (· != '#'), (c == '\r') = false := by
        intro c hc
        rw [beq_eq_false_iff_ne]
        rintro rfl
        rcases List.mem_cons.1 hc with e | hc
        · exact absurd e (by decide)
        · exact h (List.mem_cons_of_mem _ (List.takeWhile_subset _ hc))
      rw [Text.dropEndWhile_of_forall hclean] at hlone
      exact hrun (List.cons.inj (Option.some.inj hlone)).2
  · cases hlone

/-- A carriage return makes a heading of a lone number sign, and changes no other heading. -/
theorem heading?_concat_return (line : Text) :
    heading? (line ++ ['\r']) = if line = ['#'] then some ['#'] else heading? line := by
  by_cases hlone : line = ['#']
  · rw [hlone, if_pos rfl]
    rfl
  · rw [if_neg hlone]
    rcases line with _ | ⟨c, t⟩
    · rfl
    · by_cases hc : c = '#'
      · subst hc
        have ht : t ≠ [] := fun e => hlone (e ▸ rfl)
        simp only [List.cons_append, heading?]
        by_cases hrun : t.dropWhile (· != '#') = []
        · have hwhole := List.takeWhile_append_dropWhile (p := (· != '#')) (l := t)
          rw [hrun, List.append_nil] at hwhole
          have hreturn : ['\r'].takeWhile (· != '#') = ['\r'] := rfl
          rw [List.takeWhile_append, hwhole, if_pos rfl, hreturn, if_neg ht,
            if_neg (List.append_ne_nil_of_left_ne_nil ht _), ← List.cons_append,
            Text.dropEndWhile_concat rfl]
        · rw [Text.takeWhile_append_of_dropWhile_ne_nil hrun]
      · simp [heading?, hc]

theorem filter_heading?_concat_return {line : Text} (h : heading? line ≠ some ['#']) :
    (heading? (line ++ ['\r'])).filter (· ≠ ['#']) = heading? line := by
  rw [heading?_concat_return]
  by_cases hlone : line = ['#']
  · rw [if_pos hlone, hlone]
    rfl
  · rw [if_neg hlone]
    cases hline : heading? line with
    | none => rfl
    | some heading =>
        have hne : heading ≠ ['#'] := fun e => h (hline.trans (congrArg some e))
        rw [Option.filter_some, if_pos (by simpa using hne)]

section

variable {body : Text} {lines : List Text} {last : Text}
  (hlines : Text.splitOn '\n' (stripFenced body) = lines ++ [last])
include hlines

theorem headings_of_lines :
    headings body = lines.filterMap heading? ++ [last].filterMap heading? := by
  rw [headings, hlines, List.filterMap_append]

theorem headings_crlf_of_lines :
    headings (Text.crlf body)
      = lines.filterMap (fun line => heading? (line ++ ['\r'])) ++ [last].filterMap heading? := by
  rw [headings, stripFenced_crlf, Text.splitOn_crlf, hlines, Text.returned_concat,
    List.filterMap_append, List.filterMap_map]
  rfl

end

section

variable {body : Text} (hreturn : '\r' ∉ body)
include hreturn

theorem lone_notMem_headings : ['#'] ∉ headings body := by
  intro hlone
  obtain ⟨line, hline, hheading⟩ := List.mem_filterMap.1 hlone
  refine heading?_ne_lone (fun hm => hreturn ?_) hheading
  exact (stripFenced_sublist body).subset (Text.mem_of_mem_splitOn hline hm)

/-- The headings are those that the body has with carriage returns, the lone number signs
excepted. -/
theorem headings_eq_filter_crlf :
    headings body = (headings (Text.crlf body)).filter (· ≠ ['#']) := by
  obtain ⟨lines, last, hlines⟩ := Text.exists_splitOn_eq_concat '\n' (stripFenced body)
  have hlone := lone_notMem_headings hreturn
  rw [headings_of_lines hlines] at hlone ⊢
  rw [List.mem_append, not_or] at hlone
  have hbefore : (lines.filterMap fun line => heading? (line ++ ['\r'])).filter (· ≠ ['#'])
      = lines.filterMap heading? := by
    rw [List.filter_filterMap]
    refine List.filterMap_congr fun line hline => filter_heading?_concat_return fun e => ?_
    exact hlone.1 (List.mem_filterMap.2 ⟨line, hline, e⟩)
  have hlast : ([last].filterMap heading?).filter (· ≠ ['#']) = [last].filterMap heading? := by
    refine List.filter_eq_self.2 fun heading hm => decide_eq_true ?_
    rintro rfl
    exact hlone.2 hm
  rw [headings_crlf_of_lines hlines, List.filter_append, hbefore, hlast]

theorem lone_mem_headings_crlf_iff :
    ['#'] ∈ headings (Text.crlf body)
      ↔ ['#'] ∈ (Text.splitOn '\n' (stripFenced body)).dropLast := by
  obtain ⟨lines, last, hlines⟩ := Text.exists_splitOn_eq_concat '\n' (stripFenced body)
  have hlone := lone_notMem_headings hreturn
  rw [headings_of_lines hlines, List.mem_append, not_or] at hlone
  rw [headings_crlf_of_lines hlines, hlines, List.dropLast_concat, List.mem_append]
  constructor
  · rintro (hm | hm)
    · obtain ⟨line, hline, hheading⟩ := List.mem_filterMap.1 hm
      rw [heading?_concat_return] at hheading
      split at hheading
      · rename_i he
        exact he ▸ hline
      · exact absurd (List.mem_filterMap.2 ⟨line, hline, hheading⟩) hlone.1
    · exact absurd hm hlone.2
  · intro hm
    exact Or.inl (List.mem_filterMap.2 ⟨['#'], hm, rfl⟩)

/-- The headings are the same if no line but the last is a lone number sign. -/
theorem headings_crlf_eq_iff :
    headings (Text.crlf body) = headings body
      ↔ ['#'] ∉ (Text.splitOn '\n' (stripFenced body)).dropLast := by
  rw [← lone_mem_headings_crlf_iff hreturn]
  constructor
  · intro heq
    rw [heq]
    exact lone_notMem_headings hreturn
  · intro hlone
    rw [headings_eq_filter_crlf hreturn]
    refine (List.filter_eq_self.2 fun heading hm => decide_eq_true ?_).symm
    rintro rfl
    exact hlone hm

end

end Heading

end Markdown

end DocAudit
