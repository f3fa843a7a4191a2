/-!
# Text

A text is a list of characters.  This module holds the few operations on texts
that every other module uses: the Unicode class of white space, trimming,
taking a known opening off a text, cutting a text at a separator, and cutting
a text into lines that keep their line feed.

The small lemmas say that no operation loses a character: joining what
`splitOn` cuts gives the text back, and so does appending the lines.
-/

namespace DocAudit

/-- A text is a list of characters. -/
abbrev Text := List Char

/-- The characters of a literal. -/
abbrev text (s : String) : Text := s.toList

namespace Text

/-- The characters with the Unicode property `White_Space`. -/
def isSpace (c : Char) : Bool :=
  let n := c.toNat
  (0x09 ≤ n && n ≤ 0x0D) || n == 0x20 || n == 0x85 || n == 0xA0 || n == 0x1680
    || (0x2000 ≤ n && n ≤ 0x200A) || n == 0x2028 || n == 0x2029 || n == 0x202F
    || n == 0x205F || n == 0x3000

/-- The text without the characters of a class that it ends with. -/
def dropEndWhile (p : Char → Bool) (t : Text) : Text := (t.reverse.dropWhile p).reverse

/-- The text without the white space it ends with. -/
def trimEnd (t : Text) : Text := dropEndWhile isSpace t

/-- What follows `lead` in a text that starts with it. -/
def after? : (lead t : Text) → Option Text
  | [], t => some t
  | _ :: _, [] => none
  | a :: lead, c :: t => if a = c then after? lead t else none

/-- Whether a text starts with `lead`. -/
def startsWith (lead t : Text) : Bool := (after? lead t).isSome

@[simp] theorem after?_nil (t : Text) : after? [] t = some t := by
  cases t <;> rfl

/-- A text starts with `lead` exactly when it is `lead` followed by the rest. -/
theorem after?_eq_some_iff (lead t rest : Text) :
    after? lead t = some rest ↔ t = lead ++ rest := by
  induction lead generalizing t with
  | nil => simp [eq_comm]
  | cons a lead ih =>
      cases t with
      | nil => simp [after?]
      | cons c t =>
          by_cases h : a = c
          · simp [after?, h, ih]
          · have h' : ¬ c = a := fun e => h e.symm
            simp [after?, h, h']

theorem after?_append (lead rest : Text) : after? lead (lead ++ rest) = some rest :=
  (after?_eq_some_iff lead _ rest).2 rfl

/-- Reads an opening, the longest run of characters of a class, and a closing.  Gives the run and
what follows the closing. -/
def readDelimited? (opening closing : Char) (inner : Char → Bool) : Text → Option (Text × Text)
  | [] => none
  | c :: t =>
      if c = opening then
        (after? [closing] (t.dropWhile inner)).map fun rest => (t.takeWhile inner, rest)
      else none

/-- What is read between delimiters is all of the text up to the rest. -/
theorem eq_of_readDelimited? {opening closing : Char} {inner : Char → Bool} {t run rest : Text}
    (h : readDelimited? opening closing inner t = some (run, rest)) :
    t = opening :: (run ++ closing :: rest) := by
  cases t with
  | nil => simp [readDelimited?] at h
  | cons c t =>
      simp only [readDelimited?] at h
      split at h
      · rename_i hc
        obtain ⟨r, hr, he⟩ := Option.map_eq_some_iff.1 h
        rw [after?_eq_some_iff] at hr
        obtain ⟨rfl, rfl⟩ := Prod.mk.inj he
        have key := List.takeWhile_append_dropWhile (p := inner) (l := t)
        rw [hr] at key
        simp only [List.singleton_append] at key
        rw [hc, key]
      · cases h

/-- What is read between delimiters is of the class. -/
theorem all_of_readDelimited? {opening closing : Char} {inner : Char → Bool} {t run rest : Text}
    (h : readDelimited? opening closing inner t = some (run, rest)) : run.all inner := by
  cases t with
  | nil => simp [readDelimited?] at h
  | cons c t =>
      simp only [readDelimited?] at h
      split at h
      · obtain ⟨r, _, he⟩ := Option.map_eq_some_iff.1 h
        obtain ⟨rfl, rfl⟩ := Prod.mk.inj he
        exact List.all_takeWhile
      · cases h

theorem length_of_readDelimited? {opening closing : Char} {inner : Char → Bool}
    {t run rest : Text} (h : readDelimited? opening closing inner t = some (run, rest)) :
    rest.length < t.length := by
  rw [eq_of_readDelimited? h]
  simp
  omega

theorem length_of_after? {lead t rest : Text} (h : after? lead t = some rest) :
    t.length = lead.length + rest.length := by
  rw [after?_eq_some_iff] at h
  simp [h]

theorem length_dropWhile_le (p : Char → Bool) (t : Text) : (t.dropWhile p).length ≤ t.length :=
  (List.dropWhile_sublist p).length_le

/-- The pieces of a text between the separators. -/
def splitOn (sep : Char) : Text → List Text
  | [] => [[]]
  | c :: t =>
      if c = sep then [] :: splitOn sep t
      else
        match splitOn sep t with
        | [] => [[c]]
        | piece :: pieces => (c :: piece) :: pieces

/-- The texts with a separator between them. -/
def joinWith (sep : Text) : List Text → Text
  | [] => []
  | [piece] => piece
  | piece :: pieces => piece ++ sep ++ joinWith sep pieces

theorem splitOn_ne_nil (sep : Char) (t : Text) : splitOn sep t ≠ [] := by
  cases t with
  | nil => simp [splitOn]
  | cons c t =>
      by_cases h : c = sep
      · simp [splitOn, h]
      · simp only [splitOn, h, if_false]
        split <;> simp

/-- Putting the separators back gives the text. -/
theorem joinWith_splitOn (sep : Char) (t : Text) : joinWith [sep] (splitOn sep t) = t := by
  induction t with
  | nil => rfl
  | cons c t ih =>
      by_cases h : c = sep
      · subst h
        simp only [splitOn, if_true]
        cases e : splitOn c t with
        | nil => exact absurd e (splitOn_ne_nil c t)
        | cons piece pieces => rw [e] at ih; simp [joinWith, ih]
      · simp only [splitOn, h, if_false]
        cases e : splitOn sep t with
        | nil => exact absurd e (splitOn_ne_nil sep t)
        | cons piece pieces =>
            rw [e] at ih
            cases pieces with
            | nil => simpa [joinWith] using ih
            | cons q qs => simpa [joinWith] using ih

/-- The lines of a text, each with the line feed that ends it.  Only the last line can be without
one, and the empty text has no line. -/
def lines : Text → List Text
  | [] => []
  | c :: t =>
      if c = '\n' then ['\n'] :: lines t
      else
        match lines t with
        | [] => [[c]]
        | line :: rest => (c :: line) :: rest

/-- The lines of a text are the whole text. -/
theorem flatten_lines (t : Text) : (lines t).flatten = t := by
  induction t with
  | nil => rfl
  | cons c t ih =>
      by_cases h : c = '\n'
      · simp [lines, h, ih]
      · simp only [lines, h, if_false]
        cases e : lines t with
        | nil => rw [e] at ih; simpa using ih
        | cons line rest => rw [e] at ih; simpa using ih

/-- The decimal digits of a number. -/
def ofNat (n : Nat) : Text := Nat.toDigits 10 n

/-- The value of a hexadecimal digit. -/
def hexValue? (c : Char) : Option Nat :=
  if '0' ≤ c ∧ c ≤ '9' then some (c.toNat - '0'.toNat)
  else if 'a' ≤ c ∧ c ≤ 'f' then some (c.toNat - 'a'.toNat + 10)
  else if 'A' ≤ c ∧ c ≤ 'F' then some (c.toNat - 'A'.toNat + 10)
  else none

/-- The value of hexadecimal digits. -/
def hexNumber? (digits : Text) : Option Nat :=
  digits.foldlM (fun n c => (hexValue? c).map (n * 16 + ·)) 0

/-- The value of a decimal digit, and zero for any other character. -/
def digitValue (c : Char) : Nat := if c.isDigit then c.toNat - '0'.toNat else 0

/-- The value of decimal digits. -/
def decimalNumber (digits : Text) : Nat := digits.foldl (fun n c => n * 10 + digitValue c) 0

/-- The order of texts by their characters, the earlier character deciding. -/
def le (s t : Text) : Bool :=
  match s, t with
  | [], _ => true
  | _ :: _, [] => false
  | a :: s, b :: t => if a = b then le s t else decide (a.toNat < b.toNat)

end Text

end DocAudit
