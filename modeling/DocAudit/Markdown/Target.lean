import DocAudit.Link
import DocAudit.Markdown.Code

/-!
# Link targets of a body

Two constructs name a target: an inline link or image, `](target "title")`,
and a reference definition, `[label]: target`, that opens a line.  The search
runs over the body without its code.  Every target is listed with its place in
that text, the targets stand in the order of their places, and empty targets
are left out.

In both constructs a target can stand between angle brackets.  A bare target
of an inline link holds no white space and no angle bracket, and parentheses
only as pairs that hold no parenthesis themselves.
-/

namespace DocAudit

namespace Markdown

/-- Whether a character can stand in a target between angle brackets. -/
def isAngledChar (c : Char) : Bool := c != '<' && c != '>' && c != '\n'

/-- Reads a target between angle brackets. -/
def readAngled? (t : Text) : Option (Text × Text) := Text.readDelimited? '<' '>' isAngledChar t

/-- Whether a character can stand in a bare target outside parentheses. -/
def isBareChar (c : Char) : Bool :=
  !Text.isSpace c && c != '(' && c != ')' && c != '<' && c != '>'

/-- Whether a character can stand within the parentheses of a bare target. -/
def isGroupChar (c : Char) : Bool := !Text.isSpace c && c != '(' && c != ')'

/-- Reads a pair of parentheses.  Gives what stands between them. -/
def readGroup? (t : Text) : Option (Text × Text) := Text.readDelimited? '(' ')' isGroupChar t

/-- The longest bare target that a text starts with, and what follows it. -/
def bareRun (t : Text) : Text × Text :=
  match _h : readGroup? t with
  | some (group, rest) =>
      let run := bareRun rest
      ('(' :: (group ++ ')' :: run.1), run.2)
  | none =>
      match t with
      | [] => ([], [])
      | c :: t' =>
          if isBareChar c then
            let run := bareRun t'
            (c :: run.1, run.2)
          else ([], c :: t')
termination_by t.length
decreasing_by
  · exact Text.length_of_readDelimited? _h
  · exact Nat.lt_succ_self _

/-- A bare target and what follows it are the whole text. -/
theorem bareRun_append (t : Text) : (bareRun t).1 ++ (bareRun t).2 = t := by
  fun_induction bareRun t with
  | case1 t group rest h run ih =>
      rw [Text.eq_of_readDelimited? h]
      simpa [run] using ih
  | case2 h => rfl
  | case3 c t h hc run ih => simpa [run] using ih
  | case4 c t h hc => rfl

/-- Reads a bare target. -/
def readBare? (t : Text) : Option (Text × Text) :=
  if (bareRun t).1 = [] then none else some (bareRun t)

/-- Reads a title in quotes, in apostrophes or in parentheses. -/
def readTitle? (t : Text) : Option (Text × Text) :=
  Text.readDelimited? '"' '"' (fun c => c != '"' && c != '\n') t
    <|> Text.readDelimited? '\'' '\'' (fun c => c != '\'' && c != '\n') t
    <|> Text.readDelimited? '(' ')' (fun c => c != '(' && c != ')' && c != '\n') t

/-- What follows the end of an inline link: white space, a title if there is one after white
space, white space, and the closing parenthesis. -/
def afterLinkEnd? (t : Text) : Option Text :=
  let t' := t.dropWhile Text.isSpace
  let title := if t.head?.any Text.isSpace then readTitle? t' else none
  match title with
  | some (_, rest) => Text.after? [')'] (rest.dropWhile Text.isSpace)
  | none => Text.after? [')'] t'

/-- Reads the part of an inline link that holds its target.  The target comes with the number of
characters before it. -/
def readInline? (t : Text) : Option ((Nat × Text) × Text) :=
  match Text.after? (text "](") t with
  | none => none
  | some inner =>
      let gap := 2 + (inner.takeWhile Text.isSpace).length
      let inner := inner.dropWhile Text.isSpace
      match readAngled? inner with
      | some (target, rest) => (afterLinkEnd? rest).map ((gap + 1, target), ·)
      | none =>
          match readBare? inner with
          | some (target, rest) => (afterLinkEnd? rest).map ((gap, target), ·)
          | none => none

theorem length_of_after?_singleton {c : Char} {t rest : Text}
    (h : Text.after? [c] t = some rest) : rest.length < t.length := by
  have := Text.length_of_after? h
  simp at this
  omega

theorem length_of_readTitle? {t title rest : Text} (h : readTitle? t = some (title, rest)) :
    rest.length < t.length := by
  unfold readTitle? at h
  simp only [Option.orElse_eq_orElse, Option.orElse_eq_or, Option.or_eq_some_iff] at h
  rcases h with h | ⟨_, h | ⟨_, h⟩⟩ <;> exact Text.length_of_readDelimited? h

theorem length_of_afterLinkEnd? {t rest : Text} (h : afterLinkEnd? t = some rest) :
    rest.length < t.length := by
  have hle := Text.length_dropWhile_le Text.isSpace t
  unfold afterLinkEnd? at h
  simp only at h
  split at h
  · rename_i title r hr
    have h1 := length_of_after?_singleton h
    have h2 := Text.length_dropWhile_le Text.isSpace r
    split at hr
    · have h3 := length_of_readTitle? hr
      omega
    · cases hr
  · have h1 := length_of_after?_singleton h
    omega

theorem length_of_readBare? {t target rest : Text} (h : readBare? t = some (target, rest)) :
    rest.length ≤ t.length := by
  unfold readBare? at h
  split at h
  · cases h
  · have key := congrArg List.length (bareRun_append t)
    have he := Option.some.inj h
    rw [he] at key
    simp at key
    omega

/-- The part of an inline link or image that holds its target. -/
def inlineLink : Construct (Nat × Text) where
  read? := readInline?
  shorter := by
    intro t a rest h
    unfold readInline? at h
    split at h
    · cases h
    · rename_i inner e
      have h0 := Text.length_of_after? e
      have h1 := Text.length_dropWhile_le Text.isSpace inner
      simp only at h
      split at h
      · rename_i target r hr
        obtain ⟨r', hr', he⟩ := Option.map_eq_some_iff.1 h
        cases he
        have h2 := Text.length_of_readDelimited? hr
        have h3 := length_of_afterLinkEnd? hr'
        omega
      · split at h
        · rename_i target r hr
          obtain ⟨r', hr', he⟩ := Option.map_eq_some_iff.1 h
          cases he
          have h2 := length_of_readBare? hr
          have h3 := length_of_afterLinkEnd? hr'
          omega
        · cases h

/-- The targets of inline links and images, each with its place. -/
def inlineTargets (t : Text) : List (Nat × Text) :=
  (inlineLink.occurrences 0 t).map fun (n, k, target) => (n + k, target)

/-- Whether a character can stand between the colon of a definition and its target. -/
def isBlank (c : Char) : Bool := c == ' ' || c == '\t'

/-- The target of the reference definition that a line starts with, and its place in the line.  A
definition is indented by at most three blanks, and its label is not empty and does not start
with a caret, which would make it a footnote. -/
def definition? (line : Text) : Option (Nat × Text) :=
  let indent := (line.takeWhile (· == ' ')).length
  if 3 < indent then none
  else
    match line.drop indent with
    | '[' :: c :: t =>
        if c = '^' ∨ c = ']' then none
        else
          let label := t.takeWhile (· != ']')
          match Text.after? (text "]:") (t.dropWhile (· != ']')) with
          | none => none
          | some rest =>
              let gap := indent + 2 + label.length + 2 + (rest.takeWhile isBlank).length
              let rest := rest.dropWhile isBlank
              match readAngled? rest with
              | some (target, _) => some (gap + 1, target)
              | none =>
                  let target := rest.takeWhile fun c => !Text.isSpace c
                  if target = [] then none else some (gap, target)
    | _ => none

/-- The lines of a text, without their line feeds, each with its place. -/
def placedLines (n : Nat) : List Text → List (Nat × Text)
  | [] => []
  | line :: rest => (n, line) :: placedLines (n + line.length + 1) rest

/-- The targets of reference definitions, each with its place. -/
def definitionTargets (t : Text) : List (Nat × Text) :=
  (placedLines 0 (Text.splitOn '\n' t)).filterMap fun (n, line) =>
    (definition? line).map fun (k, target) => (n + k, target)

/-- The targets of a text without code, each with its place, in the order of their places. -/
def placedTargets (t : Text) : List (Nat × Text) :=
  (inlineTargets t).merge (definitionTargets t) fun a b => a.1 ≤ b.1

/-- The targets of a body. -/
def targets (body : Text) : List Text :=
  ((placedTargets (stripCode body)).map (·.2)).filter fun target => target ≠ []

/-- The links of a body. -/
def links (marker body : Text) : List Link := (targets body).map (Link.ofTarget marker)

end Markdown

end DocAudit
