import DocAudit.Markdown.Construct

/-!
# Code in a body

Fenced code is three backticks, at least one character, and all up to the next
three backticks, whatever lines they stand on.  A code span is a single
backtick, a run of characters that holds neither backtick nor line feed, and a
backtick.  Both are erased before a body is searched for anything else, and
fenced code is erased first.
-/

namespace DocAudit

namespace Markdown

/-- The character that delimits code. -/
def tick : Char := '\x60'

/-- The delimiter of fenced code. -/
def fence : Text := [tick, tick, tick]

/-- What follows the first fence of a text. -/
def afterFence? : Text → Option Text
  | [] => none
  | c :: t =>
      match Text.after? fence (c :: t) with
      | some rest => some rest
      | none => afterFence? t

theorem length_of_afterFence? {t rest : Text} (h : afterFence? t = some rest) :
    rest.length < t.length := by
  induction t with
  | nil => simp [afterFence?] at h
  | cons c t ih =>
      rw [afterFence?] at h
      split at h
      · rename_i rest' e
        have := Text.length_of_after? e
        cases h
        simp [fence] at this ⊢
        omega
      · have := ih h
        simp
        omega

/-- Reads fenced code. -/
def readFenced? (t : Text) : Option (Unit × Text) :=
  match Text.after? fence t with
  | some (_ :: inner) => (afterFence? inner).map ((), ·)
  | _ => none

/-- Fenced code. -/
def fenced : Construct Unit where
  read? := readFenced?
  shorter := by
    intro t _ rest h
    unfold readFenced? at h
    split at h
    · rename_i c inner e
      obtain ⟨rest', hr, he⟩ := Option.map_eq_some_iff.1 h
      cases he
      have h1 := Text.length_of_after? e
      have h2 := length_of_afterFence? hr
      simp at h1
      omega
    · cases h

/-- Whether a character can stand within a code span. -/
def isSpanChar (c : Char) : Bool := c != tick && c != '\n'

/-- Reads a code span. -/
def readSpan? (t : Text) : Option (Unit × Text) :=
  match Text.readDelimited? tick tick isSpanChar t with
  | some (_ :: _, rest) => some ((), rest)
  | _ => none

/-- A code span. -/
def span : Construct Unit where
  read? := readSpan?
  shorter := by
    intro t _ rest h
    unfold readSpan? at h
    split at h
    · rename_i e
      cases h
      exact Text.length_of_readDelimited? e
    · cases h

/-- A body without its fenced code. -/
def stripFenced (body : Text) : Text := fenced.erase body

/-- A body without its code. -/
def stripCode (body : Text) : Text := span.erase (stripFenced body)

end Markdown

end DocAudit
