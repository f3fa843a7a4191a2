import DocAudit.Text

/-!
# Constructs of a text

A construct is something that a text can start with, such as a code span.  It
says what it reads off the start of a text and what follows it, and it always
reads at least one character.  A text is searched for a construct from left to
right: where the construct stands it is taken whole and the search goes on
behind it, and anywhere else the search moves on by one character.

`occurrences` lists what a search finds and where, and `erase` is the text
that a search leaves over.
-/

namespace DocAudit

namespace Markdown

/-- A construct that a text can start with. -/
structure Construct (α : Type) where
  /-- What the construct reads off the start of a text, and what follows it. -/
  read? : Text → Option (α × Text)
  /-- The construct is never empty. -/
  shorter : ∀ {t : Text} {a : α} {rest : Text}, read? t = some (a, rest) → rest.length < t.length

namespace Construct

variable {α : Type}

/-- What a search finds, each with its place, in a text that starts at place `n`. -/
def occurrences (k : Construct α) (n : Nat) (t : Text) : List (Nat × α) :=
  match h : k.read? t with
  | some (a, rest) => (n, a) :: occurrences k (n + (t.length - rest.length)) rest
  | none =>
      match t with
      | [] => []
      | _ :: t' => occurrences k (n + 1) t'
termination_by t.length
decreasing_by
  · exact k.shorter h
  · exact Nat.lt_succ_self _

/-- The text without the constructs that a search finds. -/
def erase (k : Construct α) (t : Text) : Text :=
  match _h : k.read? t with
  | some (_, rest) => erase k rest
  | none =>
      match t with
      | [] => []
      | c :: t' => c :: erase k t'
termination_by t.length
decreasing_by
  · exact k.shorter _h
  · exact Nat.lt_succ_self _

theorem erase_of_read? {k : Construct α} {t rest : Text} {a : α}
    (h : k.read? t = some (a, rest)) : k.erase t = k.erase rest := by
  rw [erase]
  split
  · rename_i b r e
    rw [h] at e
    cases e
    rfl
  · rename_i e
    rw [h] at e
    cases e

theorem erase_cons_of_read? {k : Construct α} {c : Char} {t : Text}
    (h : k.read? (c :: t) = none) : k.erase (c :: t) = c :: k.erase t := by
  rw [erase]
  split
  · rename_i b r e
    rw [h] at e
    cases e
  · rfl

@[simp] theorem erase_nil (k : Construct α) : k.erase [] = [] := by
  rw [erase]
  split
  · rename_i a rest h
    exact absurd (k.shorter h) (Nat.not_lt_zero _)
  · rfl

end Construct

end Markdown

end DocAudit
