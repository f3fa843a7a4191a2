import DocAudit.Proofs.Text.Cut
import DocAudit.Proofs.Toml.Quoted
import DocAudit.Toml.Document

/-!
# Documents of keys and strings

Blanks, comments and line breaks are skipped between keys and values, and the
skipping ends at the first character that belongs to none of them.  So a key
without quotes, a written string and an array of written strings are each read
back up to the text that follows, and lines of such keys give the table of their
values.

**Results.**
* `skipGap_cons`, `skipGap_newline`: what is skipped.
* `readKey?_bare`: a key without quotes is read back.
* `readValue?_write`, `readItems?_write`: a string and the items of an array are
  read back.
* `add?_of_absent`: a key that is new to the root table comes last.
* `readLines?_keys`: the table of lines with different keys.
-/

namespace DocAudit
namespace Toml

/-! ## What is skipped -/

/-- A character at which nothing is skipped: no blank, and neither the start of a comment nor of a
line break. -/
def IsSolid (c : Char) : Prop := Quoted.isBlank c = false ∧ c ≠ '#' ∧ c ≠ '\n' ∧ c ≠ '\r'

instance (c : Char) : Decidable (IsSolid c) :=
  inferInstanceAs (Decidable (_ ∧ _))

section

variable {c : Char} {t rest : Text}

theorem skipBlanks_append {blanks : Text} (hblanks : ∀ b ∈ blanks, Quoted.isBlank b = true)
    (hc : Quoted.isBlank c = false) (t : Text) : skipBlanks (blanks ++ c :: t) = c :: t :=
  Text.dropWhile_run hblanks hc t

theorem skipBlanks_cons (hc : Quoted.isBlank c = false) (t : Text) :
    skipBlanks (c :: t) = c :: t := by
  simp [skipBlanks, hc]

theorem skipComment_cons (hc : c ≠ '#') (t : Text) : skipComment (c :: t) = c :: t := by
  unfold skipComment
  split
  · rename_i h
    exact absurd (List.cons.inj h).1 hc
  · rfl

theorem skipTrivia_append {blanks : Text} (hblanks : ∀ b ∈ blanks, Quoted.isBlank b = true)
    (hc : IsSolid c) (n : Nat) (t : Text) : skipTrivia (n + 1) (blanks ++ c :: t) = c :: t := by
  obtain ⟨hblank, hcomment, hnewline, hreturn⟩ := hc
  rw [skipTrivia, skipBlanks_append hblanks hblank, skipComment_cons hcomment]
  split
  · rename_i h
    exact absurd (List.cons.inj h).1 hnewline
  · rename_i h
    exact absurd (List.cons.inj h).1 hreturn
  · rfl

theorem skipGap_cons (hc : IsSolid c) (t : Text) : skipGap (c :: t) = c :: t :=
  skipTrivia_append (fun _ h => absurd h List.not_mem_nil) hc _ t

/-- A line break and the blanks on the next line are skipped. -/
theorem skipGap_newline {blanks : Text} (hblanks : ∀ b ∈ blanks, Quoted.isBlank b = true)
    (hc : IsSolid c) (t : Text) : skipGap ('\n' :: (blanks ++ c :: t)) = c :: t := by
  rw [skipGap, List.length_cons, skipTrivia, skipBlanks_cons (by decide),
    skipComment_cons (by decide)]
  exact skipTrivia_append hblanks hc _ t

end

/-! ## Keys -/

/-- A key that is written without quotes. -/
def IsBareKey (key : Text) : Prop := key ≠ [] ∧ ∀ c ∈ key, isKeyChar c = true

theorem ne_of_isKeyChar {c d : Char} (hc : isKeyChar c = true) (hd : isKeyChar d = false) :
    c ≠ d := by
  rintro rfl
  rw [hc] at hd
  cases hd

theorem isSolid_of_isKeyChar {c : Char} (h : isKeyChar c = true) : IsSolid c := by
  have hspace : c ≠ ' ' := ne_of_isKeyChar h (by decide)
  have htab : c ≠ '\t' := ne_of_isKeyChar h (by decide)
  refine ⟨by simp [Quoted.isBlank, hspace, htab], ?_, ?_, ?_⟩
  · exact ne_of_isKeyChar h (by decide)
  · exact ne_of_isKeyChar h (by decide)
  · exact ne_of_isKeyChar h (by decide)

theorem readSimpleKey?_bare {key : Text} (hkey : IsBareKey key) {stop : Char}
    (hstop : isKeyChar stop = false) (rest : Text) :
    readSimpleKey? (key ++ stop :: rest) = some (key, stop :: rest) := by
  have htake := Text.takeWhile_run hkey.2 hstop rest
  have hdrop := Text.dropWhile_run hkey.2 hstop rest
  obtain ⟨c, more, rfl⟩ := List.exists_cons_of_ne_nil hkey.1
  have hc : isKeyChar c = true := hkey.2 c List.mem_cons_self
  unfold readSimpleKey?
  split
  · rename_i h
    exact absurd (List.cons.inj h).1 (ne_of_isKeyChar hc (by decide))
  · rename_i h
    exact absurd (List.cons.inj h).1 (ne_of_isKeyChar hc (by decide))
  · simp only [htake, hdrop, if_neg hkey.1]

/-- A key without quotes is read up to the sign behind it. -/
theorem readKey?_bare {key : Text} (hkey : IsBareKey key) (rest : Text) :
    readKey? (key ++ ' ' :: '=' :: rest) = some ([], key, '=' :: rest) := by
  obtain ⟨c, more, rfl⟩ := List.exists_cons_of_ne_nil hkey.1
  have hc : isKeyChar c = true := hkey.2 c List.mem_cons_self
  have hblank : isKeyChar ' ' = false := by decide
  have hread := readSimpleKey?_bare hkey hblank ('=' :: rest)
  rw [List.cons_append] at hread ⊢
  have hskip := skipBlanks_cons (isSolid_of_isKeyChar hc).1 (more ++ ' ' :: '=' :: rest)
  have hbehind : skipBlanks (' ' :: '=' :: rest) = '=' :: rest := rfl
  simp [readKey?, readParts?, hskip, hread, hbehind]

/-! ## Strings and arrays of strings -/

/-- A written string starts with a quote. -/
theorem exists_write_cons (t : Text) :
    ∃ quote more, Quoted.write t = quote :: more ∧ (quote = '"' ∨ quote = '\'') := by
  unfold Quoted.write
  simp only []
  split
  · exact ⟨_, _, rfl, Or.inl rfl⟩
  split
  · exact ⟨_, _, rfl, Or.inr rfl⟩
  split
  · exact ⟨_, _, rfl, Or.inl rfl⟩
  split
  · exact ⟨_, _, rfl, Or.inr rfl⟩
  split
  · exact ⟨_, _, rfl, Or.inl rfl⟩
  · exact ⟨_, _, rfl, Or.inl rfl⟩

section

variable {n depth : Nat} {rest : Text}

theorem readValue?_write (t : Text) (hquotation : rest.head? ≠ some '"')
    (hapostrophe : rest.head? ≠ some '\'') :
    readValue? (n + 1) depth (Quoted.write t ++ rest) = some (.string t, rest) := by
  have hread := Quoted.read?_write t hquotation hapostrophe
  obtain ⟨quote, more, hwrite, hquote⟩ := exists_write_cons t
  rw [hwrite, List.cons_append] at hread ⊢
  rcases hquote with rfl | rfl
  · simp [readValue?, hread]
  · simp [readValue?, hread]

theorem isSolid_of_isQuote {quote : Char} (h : quote = '"' ∨ quote = '\'') : IsSolid quote := by
  rcases h with rfl | rfl <;> decide

theorem skipGap_write (item rest : Text) :
    skipGap (Quoted.write item ++ rest) = Quoted.write item ++ rest := by
  obtain ⟨quote, more, hwrite, hquote⟩ := exists_write_cons item
  rw [hwrite]
  exact skipGap_cons (isSolid_of_isQuote hquote) _

theorem skipGap_indented (item rest : Text) :
    skipGap ('\n' :: (text "    " ++ (Quoted.write item ++ rest))) = Quoted.write item ++ rest := by
  obtain ⟨quote, more, hwrite, hquote⟩ := exists_write_cons item
  rw [hwrite]
  exact skipGap_newline (by decide) (isSolid_of_isQuote hquote) _

/-- The closing bracket can stand behind a gap. -/
theorem readItems?_closing {t : Text} (hgap : skipGap t = ']' :: rest) :
    readItems? (n + 1) depth t = some ([], rest) := by
  rw [readItems?, hgap]
  rfl

/-- An item behind a gap is read, and after a comma the items that follow. -/
theorem readItems?_item {t : Text} (item : Text) (hgap : skipGap t = Quoted.write item ++ rest)
    (hquotation : rest.head? ≠ some '"') (hapostrophe : rest.head? ≠ some '\'') :
    readItems? (n + 2) depth t =
      match skipGap rest with
      | ',' :: rest =>
          (readItems? (n + 1) depth rest).bind fun r => some (.string item :: r.1, r.2)
      | ']' :: rest => some ([.string item], rest)
      | _ => none := by
  have hread : readValue? (n + 1) depth (Quoted.write item ++ rest) = some (.string item, rest) :=
    readValue?_write item hquotation hapostrophe
  rw [readItems?, hgap]
  split
  · rename_i h
    obtain ⟨quote, more, hwrite, hquote⟩ := exists_write_cons item
    rw [hwrite] at h
    rcases hquote with rfl | rfl
    · cases h
    · cases h
  · rw [hread]
    rfl

/-- The items of an array that takes a line for each of them are read back. -/
theorem readItems?_write (items : List Text) (hn : items.length < n) :
    readItems? n depth
        ('\n' :: (items.flatMap (fun item => text "    " ++ Quoted.write item ++ text ",\n")
          ++ ']' :: rest))
      = some (items.map .string, rest) := by
  induction items generalizing n with
  | nil =>
      obtain ⟨m, rfl⟩ := Nat.exists_eq_add_of_lt hn
      have hnone : ∀ b ∈ ([] : Text), Quoted.isBlank b = true := by simp
      exact readItems?_closing (skipGap_newline hnone (by decide) rest)
  | cons item items ih =>
      rw [List.length_cons] at hn
      obtain ⟨m, rfl⟩ : ∃ m, n = m + 2 := ⟨n - 2, by omega⟩
      have hline : (item :: items).flatMap
            (fun item => text "    " ++ Quoted.write item ++ text ",\n") ++ ']' :: rest
          = text "    " ++ (Quoted.write item ++ ',' :: '\n' ::
              (items.flatMap (fun item => text "    " ++ Quoted.write item ++ text ",\n")
                ++ ']' :: rest)) := by
        have hend : text ",\n" = [',', '\n'] := rfl
        simp [hend]
      rw [hline, readItems?_item item (skipGap_indented item _) (by simp) (by simp),
        skipGap_cons (by decide)]
      simp only [ih (n := m + 1) (by omega), Option.bind_some, List.map_cons]

theorem readValue?_bracket (t : Text) :
    readValue? (n + 1) (depth + 1) ('[' :: t)
      = (readItems? n depth t).map fun r => (.array r.1, r.2) := by
  rw [readValue?]

end

/-! ## Lines of keys -/

/-- A text that is written for a value: nothing of it is skipped, and the value is read back where
the line ends behind it. -/
structure Writes (written : Text) (value : Value) : Prop where
  starts : ∃ c more, written = c :: more ∧ IsSolid c
  read? : ∀ rest, Value.read? (written ++ '\n' :: rest) = some (value, '\n' :: rest)

theorem writes_string (t : Text) : Writes (Quoted.write t) (.string t) where
  starts := by
    obtain ⟨quote, more, hwrite, hquote⟩ := exists_write_cons t
    exact ⟨quote, more, hwrite, isSolid_of_isQuote hquote⟩
  read? := fun _ => readValue?_write t (by simp) (by simp)

/-- An array of strings is read back if its items are, up to its closing bracket. -/
theorem writes_array {body : Text} {items : List Value}
    (h : ∀ n depth rest, body.length < n → readItems? n depth (body ++ rest) = some (items, rest)) :
    Writes ('[' :: body) (.array items) where
  starts := ⟨'[', body, rfl, by decide⟩
  read? := by
    intro rest
    refine (readValue?_bracket (body ++ '\n' :: rest)).trans ?_
    rw [h]
    · rfl
    · simp
      omega

theorem length_le_length_flatMap {α : Type} {f : α → Text} (h : ∀ a, f a ≠ []) (as : List α) :
    as.length ≤ (as.flatMap f).length := by
  induction as with
  | nil => exact Nat.le_refl 0
  | cons a as ih =>
      have hlength := List.length_pos_iff.2 (h a)
      rw [List.flatMap_cons, List.length_append, List.length_cons]
      omega

section

variable {entries : Entries} {key : Text} {value : Value}

theorem get?_cons (k : Text) (v : Value) (entries : Entries) (key : Text) :
    Entries.get? key ((k, v) :: entries) = if k = key then some v else entries.get? key := by
  rw [Entries.get?, Entries.get?, List.lookup_cons]
  by_cases hk : k = key
  · simp [hk]
  · have hk' : (key == k) = false := by simpa using fun e => hk e.symm
    rw [hk', if_neg hk]

theorem get?_concat (h : entries.get? key = none) {k : Text} (hk : k ≠ key) (v : Value) :
    Entries.get? key (entries ++ [(k, v)]) = none := by
  have hlast : Entries.get? key [(k, v)] = none := by
    rw [get?_cons, if_neg hk]
    rfl
  rw [Entries.get?] at h hlast ⊢
  rw [List.lookup_append, h, hlast]
  rfl

theorem insert?_of_absent (h : entries.get? key = none) (value : Value) :
    entries.insert? key value = some (entries ++ [(key, value)]) := by
  unfold Entries.insert?
  induction entries with
  | nil => simp [Entries.alter?]
  | cons entry entries ih =>
      rw [get?_cons] at h
      split at h
      · cases h
      · rename_i hne
        rw [Entries.alter?, if_neg hne, ih h]
        rfl

/-- A key that is new to the root table comes last. -/
theorem add?_of_absent (h : entries.get? key = none) (value : Value) :
    Draft.add? [] key value ⟨entries, []⟩ = some ⟨entries ++ [(key, value)], []⟩ := by
  have hadd : entries.addDotted? [] key value = some (entries ++ [(key, value)]) := by
    simp [Entries.addDotted?, Entries.descend?, insert?_of_absent h]
  rw [Draft.add?, Entries.descend?, hadd]
  rfl

/-- The line of a key without quotes adds its value to the root table. -/
theorem readLine?_key (hkey : IsBareKey key) {written : Text} (hwritten : Writes written value)
    (h : entries.get? key = none) (rest : Text) :
    Draft.readLine? ⟨entries, []⟩ (key ++ ' ' :: '=' :: ' ' :: (written ++ '\n' :: rest))
      = some (⟨entries ++ [(key, value)], []⟩, '\n' :: rest) := by
  obtain ⟨c, more, rfl⟩ := List.exists_cons_of_ne_nil hkey.1
  have hc : isKeyChar c = true := hkey.2 c List.mem_cons_self
  have hbracket : c ≠ '[' := ne_of_isKeyChar hc (by decide)
  obtain ⟨first, others, hwrite, hfirst⟩ := hwritten.starts
  have hskip : skipBlanks (' ' :: (written ++ '\n' :: rest)) = written ++ '\n' :: rest := by
    have hblanks : ∀ b ∈ [' '], Quoted.isBlank b = true := by decide
    rw [hwrite]
    exact skipBlanks_append hblanks hfirst.1 _
  unfold Draft.readLine?
  split
  · rename_i hopening
    exact absurd (List.cons.inj hopening).1 hbracket
  · rename_i hopening
    exact absurd (List.cons.inj hopening).1 hbracket
  · rw [readKey?_bare hkey]
    simp [Text.after?, hskip, hwritten.read?, add?_of_absent h]

theorem readLines?_key (hkey : IsBareKey key) {written : Text} (hwritten : Writes written value)
    (h : entries.get? key = none) (n : Nat) (rest : Text) :
    Draft.readLines? (n + 1) ⟨entries, []⟩ (key ++ text " = " ++ written ++ ['\n'] ++ rest)
      = Draft.readLines? n ⟨entries ++ [(key, value)], []⟩ rest := by
  have hline : key ++ text " = " ++ written ++ ['\n'] ++ rest
      = key ++ ' ' :: '=' :: ' ' :: (written ++ '\n' :: rest) := by
    have hsign : text " = " = [' ', '=', ' '] := rfl
    simp [hsign]
  have hread := readLine?_key hkey hwritten h rest
  have hfinish : finishLine? ('\n' :: rest) = some rest := rfl
  obtain ⟨c, more, rfl⟩ := List.exists_cons_of_ne_nil hkey.1
  have hc : isKeyChar c = true := hkey.2 c List.mem_cons_self
  rw [hline, Draft.readLines?]
  rw [List.cons_append] at hread ⊢
  rw [skipGap_cons (isSolid_of_isKeyChar hc)]
  simp only [hread]
  simp [hfinish]

/-- Lines of different keys without quotes give a table of their values, in the same order. -/
theorem readLines?_keys {α : Type} {key written : α → Text} {value : α → Value} {lines : List α}
    (hkey : ∀ a, IsBareKey (key a)) (hwritten : ∀ a, Writes (written a) (value a))
    (hnodup : (lines.map key).Nodup) (habsent : ∀ a ∈ lines, entries.get? (key a) = none)
    {n : Nat} (hn : lines.length < n) :
    Draft.readLines? n ⟨entries, []⟩
        (lines.flatMap fun a => key a ++ text " = " ++ written a ++ ['\n'])
      = some ⟨entries ++ lines.map fun a => (key a, value a), []⟩ := by
  induction lines generalizing entries n with
  | nil =>
      obtain ⟨m, rfl⟩ := Nat.exists_eq_add_of_lt hn
      rw [List.map_nil, List.append_nil]
      rfl
  | cons a lines ih =>
      rw [List.length_cons] at hn
      obtain ⟨m, rfl⟩ : ∃ m, n = m + 1 := ⟨n - 1, by omega⟩
      rw [List.map_cons, List.nodup_cons] at hnodup
      obtain ⟨hthis, habsent⟩ := List.forall_mem_cons.1 habsent
      have hlater : ∀ b ∈ lines,
          Entries.get? (key b) (entries ++ [(key a, value a)]) = none := by
        intro b hb
        refine get?_concat (habsent b hb) ?_ _
        intro he
        exact hnodup.1 (he ▸ List.mem_map_of_mem hb)
      rw [List.flatMap_cons, readLines?_key (hkey a) (hwritten a) hthis,
        ih hnodup.2 hlater (by omega), List.append_assoc]
      rfl

end

end Toml
end DocAudit
