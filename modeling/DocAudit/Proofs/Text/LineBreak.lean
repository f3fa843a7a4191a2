import DocAudit.Proofs.Text.Cut

/-!
# Line breaks

A line ends with a line feed, before which many editors write a carriage return.
This module compares a text with the one that has a carriage return before every
line feed.  A run of a class that does not tell the two characters apart gets longer
by the carriage returns, and what ends before a line feed stays as it is.

Places move by the number of line feeds before them, so that they keep their
order.

**Results.**
* `takeWhile_crlf`, `dropWhile_crlf`: runs of a class.
* `readDelimited?_crlf`: what stands between delimiters within one line.
* `closed_run_concat_return`: a run in a line that a carriage return ends.
* `splitOn_crlf`: the lines, all but the last one with a carriage return.
* `shift_le_shift_iff`: places keep their order.
-/

namespace DocAudit

namespace Text

/-- The text with a carriage return before every line feed. -/
def crlf (t : Text) : Text := t.flatMap fun c => if c = '\n' then ['\r', '\n'] else [c]

@[simp] theorem crlf_nil : crlf [] = [] := rfl

@[simp] theorem crlf_newline (t : Text) : crlf ('\n' :: t) = '\r' :: '\n' :: crlf t := rfl

theorem crlf_cons {c : Char} (hc : c ≠ '\n') (t : Text) : crlf (c :: t) = c :: crlf t := by
  rw [crlf, List.flatMap_cons, if_neg hc]
  rfl

theorem crlf_append (s t : Text) : crlf (s ++ t) = crlf s ++ crlf t := List.flatMap_append

/-- A text within one line stays as it is. -/
theorem crlf_of_notMem {t : Text} (h : '\n' ∉ t) : crlf t = t := by
  induction t with
  | nil => rfl
  | cons c t ih =>
      have hc : c ≠ '\n' := fun e => h (e ▸ List.mem_cons_self)
      rw [crlf_cons hc, ih fun hm => h (List.mem_cons_of_mem c hm)]

theorem length_crlf (t : Text) : (crlf t).length = t.length + t.count '\n' := by
  induction t with
  | nil => rfl
  | cons c t ih =>
      by_cases hc : c = '\n'
      · subst hc
        rw [crlf_newline, List.length_cons, List.length_cons, ih, List.length_cons,
          List.count_cons_self]
        omega
      · rw [crlf_cons hc, List.length_cons, ih, List.length_cons, List.count_cons_of_ne hc]
        omega

theorem head?_crlf_any {p : Char → Bool} (hp : p '\r' = p '\n') (t : Text) :
    (crlf t).head?.any p = t.head?.any p := by
  cases t with
  | nil => rfl
  | cons c t =>
      by_cases hc : c = '\n'
      · subst hc
        exact hp
      · rw [crlf_cons hc]
        rfl

theorem after?_crlf {lead : Text} (h : '\r' ∉ lead ∧ '\n' ∉ lead) (t : Text) :
    after? lead (crlf t) = (after? lead t).map crlf := by
  induction lead generalizing t with
  | nil => rw [after?_nil, after?_nil, Option.map_some]
  | cons a lead ih =>
      have har : a ≠ '\r' := fun e => h.1 (e ▸ List.mem_cons_self)
      have han : a ≠ '\n' := fun e => h.2 (e ▸ List.mem_cons_self)
      have hlead := ih ⟨fun hm => h.1 (List.mem_cons_of_mem a hm),
        fun hm => h.2 (List.mem_cons_of_mem a hm)⟩
      cases t with
      | nil => rfl
      | cons c t =>
          by_cases hc : c = '\n'
          · subst hc
            rw [crlf_newline, after?, if_neg har, after?, if_neg han, Option.map_none]
          · rw [crlf_cons hc, after?, after?]
            by_cases hac : a = c
            · rw [if_pos hac, if_pos hac, hlead]
            · rw [if_neg hac, if_neg hac, Option.map_none]

section

variable {p : Char → Bool} (hp : p '\r' = p '\n')
include hp

/-- A run of a class to which both characters belong, or neither. -/
theorem takeWhile_crlf (t : Text) : (crlf t).takeWhile p = crlf (t.takeWhile p) := by
  induction t with
  | nil => rfl
  | cons c t ih =>
      by_cases hc : c = '\n'
      · subst hc
        rw [crlf_newline]
        cases hn : p '\n' with
        | true => simp [hp, hn, ih]
        | false => simp [hp, hn]
      · rw [crlf_cons hc]
        cases hpc : p c with
        | true =>
            rw [List.takeWhile_cons_of_pos hpc, List.takeWhile_cons_of_pos hpc, crlf_cons hc, ih]
        | false => simp [hpc]

theorem dropWhile_crlf (t : Text) : (crlf t).dropWhile p = crlf (t.dropWhile p) := by
  induction t with
  | nil => rfl
  | cons c t ih =>
      by_cases hc : c = '\n'
      · subst hc
        rw [crlf_newline]
        cases hn : p '\n' with
        | true => simp [hp, hn, ih]
        | false => simp [hp, hn]
      · rw [crlf_cons hc]
        cases hpc : p c with
        | true => rw [List.dropWhile_cons_of_pos hpc, List.dropWhile_cons_of_pos hpc, ih]
        | false => simp [hpc, crlf_cons hc]

end

/-- A run that no line feed belongs to, up to a closing character. -/
theorem closed_run_crlf {closing : Char} {inner : Char → Bool}
    (hclosing : closing ≠ '\r' ∧ closing ≠ '\n') (hinner : inner '\n' = false) (t : Text) :
    (after? [closing] ((crlf t).dropWhile inner)).map (fun rest => ((crlf t).takeWhile inner, rest))
      = (after? [closing] (t.dropWhile inner)).map fun rest => (t.takeWhile inner, crlf rest) := by
  induction t with
  | nil => rfl
  | cons c t ih =>
      by_cases hc : c = '\n'
      · subst hc
        cases hr : inner '\r' <;> simp [hr, hinner, after?, hclosing]
      · rw [crlf_cons hc]
        cases hi : inner c with
        | true =>
            simp only [List.dropWhile_cons_of_pos hi, List.takeWhile_cons_of_pos hi]
            have hcons := congrArg
              (Option.map fun found : Text × Text => (c :: found.1, found.2)) ih
            simpa only [Option.map_map, Function.comp_def] using hcons
        | false =>
            by_cases he : closing = c
            · simp [hi, after?, he]
            · simp [hi, after?, he]

/-- Delimiters that stand around a part of a line. -/
def StaysInLine (opening closing : Char) (inner : Char → Bool) : Prop :=
  (opening ≠ '\r' ∧ opening ≠ '\n') ∧ (closing ≠ '\r' ∧ closing ≠ '\n') ∧ inner '\n' = false

instance (opening closing : Char) (inner : Char → Bool) :
    Decidable (StaysInLine opening closing inner) :=
  inferInstanceAs (Decidable (_ ∧ _))

theorem readDelimited?_crlf {opening closing : Char} {inner : Char → Bool}
    (h : StaysInLine opening closing inner) (t : Text) :
    readDelimited? opening closing inner (crlf t)
      = (readDelimited? opening closing inner t).map fun (run, rest) => (run, crlf rest) := by
  obtain ⟨hopening, hclosing, hinner⟩ := h
  cases t with
  | nil => rfl
  | cons c t =>
      by_cases hc : c = '\n'
      · subst hc
        rw [crlf_newline, readDelimited?, if_neg hopening.1.symm, readDelimited?,
          if_neg hopening.2.symm]
        rfl
      · rw [crlf_cons hc, readDelimited?, readDelimited?]
        by_cases hco : c = opening
        · rw [if_pos hco, if_pos hco, closed_run_crlf hclosing hinner, Option.map_map]
          rfl
        · rw [if_neg hco, if_neg hco, Option.map_none]

/-! ### One carriage return at the end of a line -/

section

variable {p : Char → Bool} (hp : p '\r' = false)
include hp

theorem takeWhile_concat_return (t : Text) : (t ++ ['\r']).takeWhile p = t.takeWhile p := by
  rw [List.takeWhile_append, List.takeWhile_cons_of_neg (Bool.eq_false_iff.1 hp), List.append_nil]
  split
  · rename_i hall
    exact ((List.takeWhile_prefix p).eq_of_length hall).symm
  · rfl

theorem dropWhile_concat_return (t : Text) :
    (t ++ ['\r']).dropWhile p = t.dropWhile p ++ ['\r'] := by
  rw [List.dropWhile_append, List.dropWhile_cons_of_neg (Bool.eq_false_iff.1 hp)]
  split
  · rename_i hempty
    rw [List.isEmpty_iff.1 hempty, List.nil_append]
  · rfl

end

/-- A run that ends within a text does not depend on what is written behind the text. -/
theorem takeWhile_append_of_dropWhile_ne_nil {p : Char → Bool} {t : Text}
    (h : t.dropWhile p ≠ []) (u : Text) : (t ++ u).takeWhile p = t.takeWhile p := by
  have hlength : (t.takeWhile p).length ≠ t.length := by
    intro he
    have hwhole := List.takeWhile_append_dropWhile (p := p) (l := t)
    rw [(List.takeWhile_prefix p).eq_of_length he] at hwhole
    exact h (List.append_right_eq_self.1 hwhole)
  rw [List.takeWhile_append, if_neg hlength]

/-- A run up to what cannot start with a carriage return. -/
theorem closed_run_concat_return {lead : Text} (hlead : lead ≠ []) (h : '\r' ∉ lead)
    (p : Char → Bool) (t : Text) :
    (after? lead ((t ++ ['\r']).dropWhile p)).map (fun rest => ((t ++ ['\r']).takeWhile p, rest))
      = (after? lead (t.dropWhile p)).map fun rest => (t.takeWhile p, rest ++ ['\r']) := by
  by_cases hrun : t.dropWhile p = []
  · -- The run reaches the end of the line, with the carriage return or without it.
    obtain ⟨a, lead, rfl⟩ := List.exists_cons_of_ne_nil hlead
    have ha : a ≠ '\r' := fun e => h (e ▸ List.mem_cons_self)
    have hnone : after? (a :: lead) (['\r'].dropWhile p) = none := by
      cases hr : p '\r' <;> simp [hr, after?, ha]
    rw [List.dropWhile_append, hrun, List.isEmpty_nil, if_pos rfl, hnone]
    rfl
  · have hne : ¬ (t.dropWhile p).isEmpty = true := by rwa [List.isEmpty_iff]
    rw [List.dropWhile_append, if_neg hne, after?_append_cons h,
      takeWhile_append_of_dropWhile_ne_nil hrun, Option.map_map]
    rfl

theorem readDelimited?_concat_return {opening closing : Char} (hopening : opening ≠ '\r')
    (hclosing : closing ≠ '\r') (inner : Char → Bool) (t : Text) :
    readDelimited? opening closing inner (t ++ ['\r'])
      = (readDelimited? opening closing inner t).map fun (run, rest) => (run, rest ++ ['\r']) := by
  cases t with
  | nil =>
      have hnone : readDelimited? opening closing inner ['\r'] = none := if_neg hopening.symm
      exact hnone
  | cons c t =>
      have hreturn : '\r' ∉ [closing] := by simpa using hclosing.symm
      rw [List.cons_append, readDelimited?, readDelimited?]
      by_cases hc : c = opening
      · rw [if_pos hc, if_pos hc,
          closed_run_concat_return (List.cons_ne_nil _ _) hreturn, Option.map_map]
        rfl
      · rw [if_neg hc, if_neg hc, Option.map_none]

theorem dropEndWhile_concat {p : Char → Bool} {c : Char} (hc : p c = true) (t : Text) :
    dropEndWhile p (t ++ [c]) = dropEndWhile p t := by
  rw [dropEndWhile, List.reverse_concat, List.dropWhile_cons_of_pos hc, dropEndWhile]

theorem dropEndWhile_of_forall {p : Char → Bool} {t : Text} (h : ∀ c ∈ t, p c = false) :
    dropEndWhile p t = t := by
  have hnone : t.reverse.dropWhile p = t.reverse := by
    cases hr : t.reverse with
    | nil => rfl
    | cons c s =>
        have hc : c ∈ t := by rw [← List.mem_reverse, hr]; exact List.mem_cons_self
        exact List.dropWhile_cons_of_neg (Bool.eq_false_iff.1 (h c hc))
  rw [dropEndWhile, hnone, List.reverse_reverse]

/-! ### The lines of a text -/

/-- Lines with a carriage return at the end of each but the last. -/
def returned : List Text → List Text
  | [] => []
  | [line] => [line]
  | line :: next :: lines => (line ++ ['\r']) :: returned (next :: lines)

theorem returned_cons {lines : List Text} (h : lines ≠ []) (line : Text) :
    returned (line :: lines) = (line ++ ['\r']) :: returned lines := by
  obtain ⟨next, rest, rfl⟩ := List.exists_cons_of_ne_nil h
  rfl

theorem returned_cons_cons (c : Char) (line : Text) (lines : List Text) :
    ∃ first rest, returned (line :: lines) = first :: rest
      ∧ returned ((c :: line) :: lines) = (c :: first) :: rest := by
  cases lines with
  | nil => exact ⟨line, [], rfl, rfl⟩
  | cons next lines => exact ⟨line ++ ['\r'], returned (next :: lines), rfl, rfl⟩

theorem returned_concat (lines : List Text) (last : Text) :
    returned (lines ++ [last]) = lines.map (· ++ ['\r']) ++ [last] := by
  induction lines with
  | nil => rfl
  | cons line lines ih =>
      rw [List.cons_append,
        returned_cons (List.append_ne_nil_of_right_ne_nil _ (List.cons_ne_nil _ _)), ih,
        List.map_cons, List.cons_append]

/-- The lines of a text all get a carriage return, the last one excepted. -/
theorem splitOn_crlf (t : Text) : splitOn '\n' (crlf t) = returned (splitOn '\n' t) := by
  induction t with
  | nil => rfl
  | cons c t ih =>
      by_cases hc : c = '\n'
      · subst hc
        have hsplit : splitOn '\n' ('\n' :: t) = [] :: splitOn '\n' t := by
          rw [splitOn, if_pos rfl]
        rw [hsplit, returned_cons (splitOn_ne_nil '\n' t), ← ih]
        rfl
      · obtain ⟨piece, pieces, hpieces, hcons⟩ := splitOn_cons_of_ne hc t
        obtain ⟨first, rest, hfirst, hreturned⟩ := returned_cons_cons c piece pieces
        obtain ⟨piece', pieces', hpieces', hcons'⟩ := splitOn_cons_of_ne hc (crlf t)
        rw [ih, hpieces, hfirst, List.cons.injEq] at hpieces'
        rw [crlf_cons hc, hcons', hcons, hreturned, ← hpieces'.1, ← hpieces'.2]

/-! ### Places -/

/-- The place that a place of a text becomes. -/
def shift (t : Text) (n : Nat) : Nat := n + (t.take n).count '\n'

theorem shift_add (t : Text) (n k : Nat) :
    shift t (n + k) = shift t n + (k + ((t.drop n).take k).count '\n') := by
  rw [shift, shift, List.take_add, List.count_append]
  omega

/-- Behind a text that was written before, places go on. -/
theorem shift_append (s t : Text) (k : Nat) :
    shift (s ++ t) (s.length + k) = (crlf s).length + (k + (t.take k).count '\n') := by
  rw [shift_add, shift, List.take_left, List.drop_left, length_crlf]

theorem shift_lt_shift (t : Text) {m n : Nat} (h : m < n) : shift t m < shift t n := by
  obtain ⟨k, rfl⟩ := Nat.exists_eq_add_of_le (Nat.le_of_lt h)
  rw [shift_add]
  omega

/-- A line that a line feed ends, behind a text that was written before. -/
theorem length_crlf_append_line (s : Text) {line : Text} (h : '\n' ∉ line) :
    (crlf (s ++ (line ++ ['\n']))).length = (crlf s).length + (line ++ ['\r']).length + 1 := by
  rw [crlf_append, crlf_append, crlf_of_notMem h]
  simp only [crlf_newline, crlf_nil, List.length_append, List.length_cons, List.length_nil]
  omega

/-- Places keep their order. -/
theorem shift_le_shift_iff (t : Text) (m n : Nat) : shift t m ≤ shift t n ↔ m ≤ n := by
  constructor
  · intro h
    rcases Nat.lt_or_ge n m with hlt | hle
    · have := shift_lt_shift t hlt
      omega
    · exact hle
  · intro h
    rcases Nat.lt_or_eq_of_le h with hlt | rfl
    · exact Nat.le_of_lt (shift_lt_shift t hlt)
    · exact Nat.le_refl _

end Text

end DocAudit
