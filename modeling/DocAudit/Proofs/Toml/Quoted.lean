import DocAudit.Toml.Quoted

/-!
# Strings that are written and read

A text is written in one of five ways, and each of them is read back.  Between
double quotes every character has a written form of its own, and reading takes
one form after the other.  Between three quotes a quote that is kept must not
seem to close the string: at most two quotes are kept in a row, and those at the
end of the text are told from the closing ones by their number.

**Results.**
* `escaped_escape`: the written form of a character.
* `readBasic?_write`, `readLiteral?_write`: strings of one line.
* `readFolded?_write`, `readLines?_write`: strings of several lines.
* `read?_write`: a text is read back from the form that is chosen for it.
-/

namespace DocAudit
namespace Toml
namespace Quoted

/-! ## Escapes -/

/-- The written forms of a character between double quotes. -/
inductive Escaped (c : Char) : Text → Prop
  | letter {e : Char} : simpleEscape? e = some c → Escaped c ['\\', e]
  | plain : isPlain c = true → c ≠ '"' → c ≠ '\\' → c ≠ '\n' → Escaped c [c]
  | number {first second third fourth : Char} :
      ofHex? [first, second, third, fourth] = some c →
      Escaped c ['\\', 'u', first, second, third, fourth]

/-- No letter of an escape is a blank or belongs to a line break. -/
theorem not_isBlank_of_simpleEscape? {c e : Char} (h : simpleEscape? e = some c) :
    isBlank e = false ∧ e ≠ '\n' ∧ e ≠ '\r' := by
  have hne : ∀ d, simpleEscape? d = none → e ≠ d := by
    rintro d hd rfl
    rw [hd] at h
    cases h
  refine ⟨?_, hne '\n' rfl, hne '\r' rfl⟩
  simp [isBlank, hne ' ' rfl, hne '\t' rfl]

theorem ofHex?_of_lt :
    ∀ n < 128, ofHex? ['0', '0', hexDigit (n / 16), hexDigit (n % 16)] = some (Char.ofNat n) := by
  decide +kernel

theorem lt_of_not_isPlain {c : Char} (h : ¬ isPlain c = true) : c.toNat < 128 := by
  simp only [isPlain, Bool.or_eq_true, Bool.and_eq_true, decide_eq_true_eq, not_or] at h
  omega

theorem ne_return_of_isPlain {c : Char} (h : isPlain c = true) : c ≠ '\r' := by
  rintro rfl
  exact absurd h (by decide)

theorem eq_ofNat {c : Char} {n : Nat} (h : c.toNat = n) : c = Char.ofNat n := by
  rw [← h, Char.ofNat_toNat]

/-- What is written for a character is a written form of it. -/
theorem escaped_escape (c : Char) : Escaped c (escape c) := by
  unfold escape
  split
  · rename_i h
    rw [eq_ofNat h]
    exact .letter rfl
  split
  · rename_i h
    rw [h]
    exact .letter rfl
  split
  · rename_i h
    rw [h]
    exact .letter rfl
  split
  · rename_i h
    rw [eq_ofNat h]
    exact .letter rfl
  split
  · rename_i h
    rw [h]
    exact .letter rfl
  split
  · rename_i h
    rw [h]
    exact .letter rfl
  split
  · rename_i h
    rw [h]
    exact .letter rfl
  split
  · rename_i hnewline _ _ hquote hbackslash hplain
    exact .plain hplain hquote hbackslash hnewline
  · rename_i hplain
    have hdigits := ofHex?_of_lt c.toNat (lt_of_not_isPlain hplain)
    rw [Char.ofNat_toNat] at hdigits
    exact .number hdigits

/-- A written form starts with no double quote and no line break. -/
theorem Escaped.exists_cons {c : Char} {written : Text} (h : Escaped c written) :
    ∃ first more, written = first :: more ∧ first ≠ '"' ∧ first ≠ '\n' ∧ first ≠ '\r' := by
  cases h with
  | letter => exact ⟨_, _, rfl, by decide, by decide, by decide⟩
  | plain hplain hquote _ hnewline =>
      exact ⟨_, _, rfl, hquote, hnewline, ne_return_of_isPlain hplain⟩
  | number => exact ⟨_, _, rfl, by decide, by decide, by decide⟩

/-! ## Quotes that close and quotes that do not -/

section

variable {quote c : Char}

theorem closes_self (quote : Char) (t : Text) :
    closes quote (quote :: quote :: quote :: t) = true := by
  simp [closes, Text.startsWith, Text.after?]

theorem closes_of_ne (h : c ≠ quote) (t : Text) : closes quote (c :: t) = false := by
  simp [closes, Text.startsWith, Text.after?, h.symm]

theorem closes_cons_of_ne (h : c ≠ quote) (t : Text) :
    closes quote (quote :: c :: t) = false := by
  simp [closes, Text.startsWith, Text.after?, h.symm]

theorem closes_cons_cons_of_ne (h : c ≠ quote) (t : Text) :
    closes quote (quote :: quote :: c :: t) = false := by
  simp [closes, Text.startsWith, Text.after?, h.symm]

/-- Behind three quotes that close a string, up to two more belong to it. -/
theorem finish_replicate {rest : Text} (hrest : rest.head? ≠ some quote) {n : Nat} (hn : n ≤ 2) :
    finish quote (List.replicate n quote ++ rest) = (List.replicate n quote, rest) := by
  cases rest with
  | nil =>
      match n, hn with
      | 0, _ => rfl
      | 1, _ => simp [finish]
      | 2, _ => simp [finish]
  | cons c rest =>
      have hc : c ≠ quote := fun e => hrest (by rw [e]; rfl)
      match n, hn with
      | 0, _ => cases rest <;> simp [finish, hc]
      | 1, _ => simp [finish, hc]
      | 2, _ => simp [finish]

/-- In a row of quotes the closing ones can be taken for the first ones. -/
theorem replicate_append_fence (quote : Char) (n : Nat) (rest : Text) :
    List.replicate n quote ++ quote :: quote :: quote :: rest
      = quote :: quote :: quote :: (List.replicate n quote ++ rest) := by
  induction n with
  | zero => rfl
  | succ n ih => rw [List.replicate_succ, List.cons_append, ih, List.cons_append]

theorem le_longestRun (x : Char) (run : Nat) (t : Text) : run ≤ longestRun x run t := by
  induction t generalizing run with
  | nil => exact Nat.le_refl run
  | cons c t ih =>
      rw [longestRun]
      split
      · exact Nat.le_of_succ_le (ih (run + 1))
      · exact Nat.le_max_left _ _

theorem notMem_of_longestRun {x : Char} {t : Text} (h : longestRun x 0 t = 0) : x ∉ t := by
  induction t with
  | nil => exact List.not_mem_nil
  | cons c t ih =>
      rw [longestRun] at h
      split at h
      · have hlong := le_longestRun x (0 + 1) t
        omega
      · rename_i hc
        rw [List.mem_cons, not_or]
        exact ⟨Ne.symm hc, ih (by omega)⟩

/-- In a text with no long run of quotes a quote closes nothing, unless nothing but quotes
follows. -/
theorem closes_append {run : Nat} {t : Text} (hne : t ≠ []) (hlast : t ≠ [quote])
    (hrun : longestRun quote run (quote :: t) ≤ 2) (rest : Text) :
    closes quote (quote :: (t ++ rest)) = false := by
  obtain ⟨c, t, rfl⟩ := List.exists_cons_of_ne_nil hne
  by_cases hc : c = quote
  · subst hc
    obtain ⟨d, t, rfl⟩ := List.exists_cons_of_ne_nil fun h : t = [] => hlast (by rw [h])
    by_cases hd : d = c
    · subst hd
      simp only [longestRun, if_true] at hrun
      have hlong := le_longestRun d (run + 1 + 1 + 1) t
      omega
    · exact closes_cons_cons_of_ne hd _
  · exact closes_cons_of_ne hc _

/-- A text with its line feeds kept starts with a double quote only where one is kept. -/
theorem exists_escapeLines_cons {run : Nat} (h : ¬ (c = '"' ∧ run < 2)) (t : Text) :
    ∃ first more, escapeLines run (c :: t) = first :: more ∧ first ≠ '"' := by
  by_cases hnewline : c = '\n'
  · exact ⟨'\n', _, by rw [escapeLines, if_pos hnewline, hnewline], by decide⟩
  · obtain ⟨first, more, hwritten, hfirst, -⟩ := (escaped_escape c).exists_cons
    exact ⟨first, _, by rw [escapeLines, if_neg hnewline, if_neg h, hwritten, List.cons_append],
      hfirst⟩

/-- A double quote that is kept closes nothing, unless nothing but kept ones follows. -/
theorem closes_escapeLines {run : Nat} {t : Text} (hne : t ≠ []) (hlast : t ≠ ['"'] ∨ 1 ≤ run)
    (rest : Text) : closes '"' ('"' :: (escapeLines (run + 1) t ++ rest)) = false := by
  obtain ⟨c, t, rfl⟩ := List.exists_cons_of_ne_nil hne
  by_cases hkept : c = '"' ∧ run + 1 < 2
  · obtain ⟨rfl, hrun⟩ := hkept
    have hnewline : ¬ '"' = '\n' := by decide
    have htne : t ≠ [] := by
      rintro rfl
      rcases hlast with h | h
      · exact h rfl
      · omega
    obtain ⟨d, t, rfl⟩ := List.exists_cons_of_ne_nil htne
    have hnext : ¬ (d = '"' ∧ run + 1 + 1 < 2) := fun h => by omega
    obtain ⟨first, more, hwritten, hfirst⟩ := exists_escapeLines_cons hnext t
    rw [escapeLines, if_neg hnewline, if_pos ⟨rfl, hrun⟩, hwritten]
    exact closes_cons_cons_of_ne hfirst _
  · obtain ⟨first, more, hwritten, hfirst⟩ := exists_escapeLines_cons hkept t
    rw [hwritten]
    exact closes_cons_of_ne hfirst _

end

/-! ## The four readers -/

section

variable {rest : Text}

theorem readBasic?_of_escaped {c : Char} {written : Text} (h : Escaped c written) (t : Text) :
    readBasic? (written ++ t) = (readBasic? t).map fun r => (c :: r.1, r.2) := by
  rw [readBasic?.eq_def]
  cases h with
  | letter he => simp [he]
  | plain hplain hquote hbackslash => simp [hplain, hquote, hbackslash]
  | number hdigits =>
      have hletter : simpleEscape? 'u' = none := by decide
      simp [hletter, hdigits]

theorem readFolded?_of_escaped {c : Char} {written : Text} (h : Escaped c written) (t : Text) :
    readFolded? .off (written ++ t) = (readFolded? .off t).map fun r => (c :: r.1, r.2) := by
  rw [readFolded?.eq_def]
  cases h with
  | letter he =>
      obtain ⟨hblank, hnewline, hreturn⟩ := not_isBlank_of_simpleEscape? he
      have hcloses : ∀ t, closes '"' ('\\' :: t) = false := closes_of_ne (by decide)
      simp [he, hblank, hnewline, hreturn, hcloses]
  | plain hplain hquote hbackslash => simp [hplain, hbackslash, closes_of_ne hquote]
  | number hdigits =>
      have hcloses : ∀ t, closes '"' ('\\' :: t) = false := closes_of_ne (by decide)
      have hletter : simpleEscape? 'u' = none := by decide
      have hblank : isBlank 'u' = false := by decide
      simp [hletter, hdigits, hcloses, hblank]

theorem readBasic?_write (t rest : Text) :
    readBasic? (t.flatMap escape ++ '"' :: rest) = some (t, rest) := by
  induction t with
  | nil =>
      rw [readBasic?.eq_def]
      simp
  | cons c t ih =>
      rw [List.flatMap_cons, List.append_assoc, readBasic?_of_escaped (escaped_escape c), ih]
      rfl

theorem readLiteral?_write {t : Text} (h : ∀ c ∈ t, isPlain c = true ∧ c ≠ '\'') (rest : Text) :
    readLiteral? (t ++ '\'' :: rest) = some (t, rest) := by
  induction t with
  | nil => simp [readLiteral?]
  | cons c t ih =>
      obtain ⟨hplain, hquote⟩ := h c List.mem_cons_self
      have hrest := ih fun d hd => h d (List.mem_cons_of_mem c hd)
      simp [readLiteral?, hplain, hquote, hrest]

theorem readFolded?_closing (hrest : rest.head? ≠ some '"') {n : Nat} (hn : n ≤ 2) :
    readFolded? .off (List.replicate n '"' ++ '"' :: '"' :: '"' :: rest)
      = some (List.replicate n '"', rest) := by
  rw [replicate_append_fence, readFolded?.eq_def]
  simp [closes_self, finish_replicate hrest hn]

theorem readLines?_closing (hrest : rest.head? ≠ some '\'') {n : Nat} (hn : n ≤ 2) :
    readLines? (List.replicate n '\'' ++ '\'' :: '\'' :: '\'' :: rest)
      = some (List.replicate n '\'', rest) := by
  rw [replicate_append_fence, readLines?]
  simp [closes_self, finish_replicate hrest hn]

/-- Between three double quotes a text is read back, whatever number of quotes stands before it. -/
theorem readFolded?_write (run : Nat) (t : Text) (hrest : rest.head? ≠ some '"') :
    readFolded? .off (escapeLines run t ++ '"' :: '"' :: '"' :: rest) = some (t, rest) := by
  induction t generalizing run with
  | nil => exact readFolded?_closing hrest (Nat.zero_le 2)
  | cons c t ih =>
      by_cases hnewline : c = '\n'
      · rw [escapeLines, if_pos hnewline, hnewline, List.cons_append, readFolded?.eq_def]
        simp [closes_of_ne, ih]
      · by_cases hkept : c = '"' ∧ run < 2
        · obtain ⟨rfl, hrun⟩ := hkept
          rw [escapeLines, if_neg hnewline, if_pos ⟨rfl, hrun⟩]
          -- A quote that is kept is read for itself, unless only such quotes are left.
          by_cases hnil : t = []
          · subst hnil
            exact readFolded?_closing hrest (n := 1) (by decide)
          by_cases hlast : t = ['"'] ∧ run = 0
          · obtain ⟨rfl, rfl⟩ := hlast
            exact readFolded?_closing hrest (n := 2) (by decide)
          have hcloses : t ≠ ['"'] ∨ 1 ≤ run := by
            by_cases ht : t = ['"']
            · exact Or.inr (Nat.one_le_iff_ne_zero.2 fun h => hlast ⟨ht, h⟩)
            · exact Or.inl ht
          have hplain : isPlain '"' = true := by decide
          rw [List.cons_append, readFolded?.eq_def]
          simp [closes_escapeLines hnil hcloses, hplain, ih]
        · rw [escapeLines, if_neg hnewline, if_neg hkept, List.append_assoc,
            readFolded?_of_escaped (escaped_escape c), ih]
          rfl

/-- Between three apostrophes a text is read back, if it has no three of them in a row. -/
theorem readLines?_write {run : Nat} {t : Text} (hrest : rest.head? ≠ some '\'')
    (h : ∀ c ∈ t, c = '\n' ∨ isPlain c = true) (hrun : longestRun '\'' run t ≤ 2) :
    readLines? (t ++ '\'' :: '\'' :: '\'' :: rest) = some (t, rest) := by
  induction t generalizing run with
  | nil => exact readLines?_closing hrest (Nat.zero_le 2)
  | cons c t ih =>
      obtain ⟨hc, ht⟩ := List.forall_mem_cons.1 h
      have hread : c = '\n' ∨ isPlain c = true
          ∨ (c = '\r' ∧ (t ++ '\'' :: '\'' :: '\'' :: rest).head? = some '\n') :=
        hc.imp_right Or.inl
      by_cases hquote : c = '\''
      · subst hquote
        by_cases hnil : t = []
        · subst hnil
          exact readLines?_closing hrest (n := 1) (by decide)
        by_cases hlast : t = ['\'']
        · subst hlast
          exact readLines?_closing hrest (n := 2) (by decide)
        have hcloses := closes_append hnil hlast hrun ('\'' :: '\'' :: '\'' :: rest)
        rw [longestRun, if_pos rfl] at hrun
        rw [List.cons_append, readLines?, hcloses, if_neg Bool.false_ne_true, if_pos hread,
          ih ht hrun]
        rfl
      · rw [longestRun, if_neg hquote] at hrun
        have hlater : longestRun '\'' 0 t ≤ 2 := by omega
        rw [List.cons_append, readLines?, closes_of_ne hquote, if_neg Bool.false_ne_true,
          if_pos hread, ih ht hlater]
        rfl

end

/-! ## The line on which a text starts -/

/-- A text that starts with no line break. -/
def StartsInLine (t : Text) : Prop := t.head? ≠ some '\n' ∧ t.head? ≠ some '\r'

theorem startsInLine_cons {c : Char} (hnewline : c ≠ '\n') (hreturn : c ≠ '\r') (t : Text) :
    StartsInLine (c :: t) := by
  constructor
  · rw [List.head?_cons, ne_eq, Option.some.injEq]
    exact hnewline
  · rw [List.head?_cons, ne_eq, Option.some.injEq]
    exact hreturn

theorem afterBreak_of_startsInLine {t : Text} (h : StartsInLine t) : afterBreak t = t := by
  unfold afterBreak
  split
  · exact absurd rfl h.1
  · exact absurd rfl h.2
  · rfl

/-- The line break behind the opening of a string is not read, and no other one is left out. -/
theorem afterBreak_opening {t s : Text} (h : '\n' ∉ t → StartsInLine s) :
    afterBreak ((if t.contains '\n' then ['\n'] else []) ++ s) = s := by
  split
  · rfl
  · rename_i hline
    exact afterBreak_of_startsInLine (h (by simpa using hline))

theorem startsInLine_escapeLines {t : Text} (h : '\n' ∉ t) (rest : Text) :
    StartsInLine (escapeLines 0 t ++ '"' :: rest) := by
  cases t with
  | nil => exact startsInLine_cons (by decide) (by decide) _
  | cons c t =>
      have hnewline : ¬ c = '\n' := fun e => h (e ▸ List.mem_cons_self)
      rw [escapeLines, if_neg hnewline]
      split
      · rename_i hkept
        rw [hkept.1]
        exact startsInLine_cons (by decide) (by decide) _
      · obtain ⟨first, more, hwritten, -, hfirst⟩ := (escaped_escape c).exists_cons
        rw [hwritten]
        exact startsInLine_cons hfirst.1 hfirst.2 _

theorem startsInLine_append {t : Text} (hplain : ∀ c ∈ t, c = '\n' ∨ isPlain c = true)
    (h : '\n' ∉ t) (rest : Text) : StartsInLine (t ++ '\'' :: rest) := by
  cases t with
  | nil => exact startsInLine_cons (by decide) (by decide) _
  | cons c t =>
      have hnewline : c ≠ '\n' := fun e => h (e ▸ List.mem_cons_self)
      have hc := (hplain c List.mem_cons_self).resolve_left hnewline
      exact startsInLine_cons hnewline (ne_return_of_isPlain hc) _

theorem writeLines_append (quote : Char) (t content rest : Text) :
    writeLines quote t content ++ rest
      = quote :: quote :: quote :: ((if t.contains '\n' then ['\n'] else [])
        ++ (content ++ quote :: quote :: quote :: rest)) := by
  simp [writeLines]

/-! ## Reading what was written -/

section

variable {rest : Text}

theorem read?_writeBasic (t : Text) (hrest : rest.head? ≠ some '"') :
    read? (writeBasic t ++ rest) = some (t, rest) := by
  have hcloses : closes '"' (writeBasic t ++ rest) = false := by
    cases t with
    | nil =>
        cases rest with
        | nil => rfl
        | cons c rest => exact closes_cons_cons_of_ne (fun e => hrest (by rw [e]; rfl)) rest
    | cons c t =>
        obtain ⟨first, more, hwritten, hfirst, -⟩ := (escaped_escape c).exists_cons
        rw [writeBasic, List.flatMap_cons, hwritten]
        exact closes_cons_of_ne hfirst _
  have hcloses' : closes '\'' (writeBasic t ++ rest) = false := closes_of_ne (by decide) _
  rw [read?, hcloses, hcloses', if_neg Bool.false_ne_true, if_neg Bool.false_ne_true, writeBasic,
    List.cons_append, List.append_assoc, List.singleton_append, readLine?]
  exact readBasic?_write t rest

theorem read?_literal {t : Text} (hne : t ≠ []) (h : ∀ c ∈ t, isPlain c = true ∧ c ≠ '\'') :
    read? ('\'' :: (t ++ ['\'']) ++ rest) = some (t, rest) := by
  have hcloses : closes '"' ('\'' :: (t ++ '\'' :: rest)) = false := closes_of_ne (by decide) _
  have hcloses' : closes '\'' ('\'' :: (t ++ '\'' :: rest)) = false := by
    obtain ⟨c, t, rfl⟩ := List.exists_cons_of_ne_nil hne
    exact closes_cons_of_ne (h c List.mem_cons_self).2 _
  rw [List.cons_append, List.append_assoc, List.singleton_append, read?, hcloses, hcloses',
    if_neg Bool.false_ne_true, if_neg Bool.false_ne_true, readLine?]
  exact readLiteral?_write h rest

theorem read?_writeLines_escaped (t : Text) (hrest : rest.head? ≠ some '"') :
    read? (writeLines '"' t (escapeLines 0 t) ++ rest) = some (t, rest) := by
  have hbreak := afterBreak_opening (t := t) fun h =>
    startsInLine_escapeLines h ('"' :: '"' :: rest)
  rw [writeLines_append, read?, closes_self, if_pos rfl]
  simp only [List.drop_succ_cons, List.drop_zero, hbreak]
  exact readFolded?_write 0 t hrest

theorem read?_writeLines_literal {t : Text} (hrest : rest.head? ≠ some '\'')
    (h : ∀ c ∈ t, c = '\n' ∨ isPlain c = true) (hrun : longestRun '\'' 0 t ≤ 2) :
    read? (writeLines '\'' t t ++ rest) = some (t, rest) := by
  have hcloses : ∀ s, closes '"' ('\'' :: s) = false := closes_of_ne (by decide)
  have hbreak := afterBreak_opening (t := t) fun hline =>
    startsInLine_append h hline ('\'' :: '\'' :: rest)
  rw [writeLines_append, read?, hcloses, if_neg Bool.false_ne_true, closes_self, if_pos rfl]
  simp only [List.drop_succ_cons, List.drop_zero, hbreak]
  exact readLines?_write hrest h hrun

/-- A text that needs no escape is plain but for its line feeds. -/
theorem isPlain_of_not_needsEscape {t : Text} (h : t.any needsEscape = false) :
    ∀ c ∈ t, c = '\n' ∨ isPlain c = true := by
  intro c hc
  by_cases hnewline : c = '\n'
  · exact Or.inl hnewline
  · have hc' := List.any_eq_false.1 h c hc
    exact Or.inr (by simpa [needsEscape, hnewline] using hc')

/-- A text that is written as a string is read back from whatever form was chosen for it, and what
follows the string is left. -/
theorem read?_write (t : Text) (hquotation : rest.head? ≠ some '"')
    (hapostrophe : rest.head? ≠ some '\'') : read? (write t ++ rest) = some (t, rest) := by
  unfold write
  simp only []
  split
  · exact read?_writeBasic t hquotation
  · rename_i hbasic
    split
    · rename_i hliteral
      simp only [Bool.and_eq_true, Bool.not_eq_true', beq_iff_eq] at hliteral
      obtain ⟨⟨hescape, hrun⟩, hline⟩ := hliteral
      refine read?_literal ?_ ?_
      · rintro rfl
        exact hbasic rfl
      · intro c hc
        refine ⟨(isPlain_of_not_needsEscape hescape c hc).resolve_left ?_, ?_⟩
        · rintro rfl
          simp [hc] at hline
        · rintro rfl
          exact notMem_of_longestRun hrun hc
    · split
      · exact read?_writeLines_escaped t hquotation
      · split
        · rename_i hlines
          simp only [Bool.and_eq_true, Bool.not_eq_true', decide_eq_true_eq] at hlines
          exact read?_writeLines_literal hapostrophe (isPlain_of_not_needsEscape hlines.1) hlines.2
        · split
          · exact read?_writeLines_escaped t hquotation
          · exact read?_writeBasic t hquotation

end

end Quoted
end Toml
end DocAudit
