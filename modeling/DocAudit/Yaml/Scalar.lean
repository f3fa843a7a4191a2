import DocAudit.Binary64
import DocAudit.Utf8
import DocAudit.Yaml.Token

/-!
# Values and scalars

The values that YAML can hold, and the value that a scalar stands for.  A
plain scalar is read by its form: null, a truth value, an integer, a number,
or else a string.  The tags of the core types ask for a type, and further tags
make a scalar a string, unless they start with an exclamation mark.
-/

namespace DocAudit

namespace Yaml

/-- A value. -/
inductive Value where
  | null
  | bool (b : Bool)
  | int (n : Int)
  /-- A binary64 number by its bits. -/
  | float (bits : Nat)
  | str (s : Text)
  | seq (items : List Value)
  /-- The entries of a mapping, in the order of the stream. -/
  | map (entries : List (Value × Value))
  /-- A value with a tag, of which the exclamation mark is left out. -/
  | tagged (tag : Text) (value : Value)

namespace Scalar

/-- The text without a plus sign at its start. -/
def withoutPlus (s : Text) : Text := (Text.after? ['+'] s).getD s

/-- Whether a text starts with a sign. -/
def startsWithSign : Text → Bool
  | [] => false
  | c :: _ => c == '+' || c == '-'

/-- The value of a digit in a base up to sixteen. -/
def digit? (base : Nat) (c : Char) : Option Nat :=
  (Text.hexValue? c).filter (· < base)

/-- The value of digits, of which there is at least one. -/
def digits? (base : Nat) (s : Text) : Option Nat :=
  if s = [] then none else s.foldlM (fun n c => (digit? base c).map (n * base + ·)) 0

/-- The value of digits in the base that their opening tells. -/
def based? (s : Text) : Option Nat :=
  ((Text.after? (text "0x") s).bind (digits? 16))
    <|> ((Text.after? (text "0o") s).bind (digits? 8))
    <|> ((Text.after? (text "0b") s).bind (digits? 2))

/-- Whether a text is a zero with further digits, which is no number. -/
def hasLeadingZero (s : Text) : Bool :=
  let s := if startsWithSign s then s.drop 1 else s
  1 < s.length && s.head? == some '0' && s.all Char.isDigit

/-- The natural number of a text, a plus sign before it allowed. -/
def nat? (s : Text) : Option Nat :=
  let s := withoutPlus s
  based? s <|> (if hasLeadingZero s then none else digits? 10 s)

/-- The number after a minus sign. -/
def negative? (s : Text) : Option Nat := do
  let s ← Text.after? ['-'] s
  based? s <|> (if hasLeadingZero s then none else digits? 10 s)

/-- What a text is when it is an integer. -/
inductive Integer where
  /-- An integer of 64 bits, with or without a sign. -/
  | fits (n : Int)
  /-- An integer of up to 128 bits. -/
  | tooWide
deriving DecidableEq

/-- The integer of a text.  One that 128 bits do not hold is none. -/
def integer? (s : Text) : Option Integer :=
  match nat? s with
  | some n =>
      if n < Nat.pow 2 64 then some (.fits n)
      else if n < Nat.pow 2 128 then some .tooWide
      else none
  | none =>
      match negative? s with
      | some n =>
          if n ≤ Nat.pow 2 63 then some (.fits (-n))
          else if n ≤ Nat.pow 2 127 then some .tooWide
          else none
      | none => none

/-- The exponent after a decimal number, zero where there is none. -/
def exponent? : Text → Option Int
  | [] => some 0
  | e :: s =>
      if e = 'e' ∨ e = 'E' then
        match Text.after? ['-'] s with
        | some s => (digits? 10 s).map fun n => -(n : Int)
        | none => (digits? 10 (withoutPlus s)).map fun n => (n : Int)
      else none

/-- The bits of a decimal number without a sign. -/
def decimal? (s : Text) : Option Nat := do
  let whole := s.takeWhile Char.isDigit
  let rest := s.dropWhile Char.isDigit
  let (part, rest) :=
    match Text.after? ['.'] rest with
    | some rest => (rest.takeWhile Char.isDigit, rest.dropWhile Char.isDigit)
    | none => ([], rest)
  let m ← digits? 10 (whole ++ part)
  let e ← exponent? rest
  some (Binary64.ofDecimal m (e - part.length))

/-- The bits of the finite decimal number of a text. -/
def finite? (s : Text) : Option Nat :=
  let bits :=
    match Text.after? ['-'] s with
    | some s => (decimal? s).map fun bits => (bits, Binary64.sign)
    | none => (decimal? s).map fun bits => (bits, 0)
  bits.bind fun (bits, sign) => if bits < Binary64.infinity then some (bits + sign) else none

/-- The bits of the number of a text. -/
def float? (s : Text) : Option Nat :=
  let unsigned := withoutPlus s
  if unsigned ≠ s ∧ startsWithSign unsigned then none
  else if [text ".inf", text ".Inf", text ".INF"].contains unsigned then some Binary64.infinity
  else if [text "-.inf", text "-.Inf", text "-.INF"].contains s then
    some (Binary64.infinity + Binary64.sign)
  else if [text ".nan", text ".NaN", text ".NAN"].contains s then some Binary64.nan
  else finite? unsigned

/-- Whether a text stands for nothing. -/
def isNull (s : Text) : Bool := [text "null", text "Null", text "NULL", text "~"].contains s

/-- The truth value of a text. -/
def bool? (s : Text) : Option Bool :=
  if [text "true", text "True", text "TRUE"].contains s then some true
  else if [text "false", text "False", text "FALSE"].contains s then some false
  else none

/-- The value of an integer, unless it is too wide. -/
def ofInteger? : Integer → Option Value
  | .fits n => some (.int n)
  | .tooWide => none

/-- The value of a plain scalar. -/
def plain? (s : Text) : Option Value :=
  if s = [] ∨ isNull s then some .null
  else
    match bool? s with
    | some b => some (.bool b)
    | none =>
        match integer? s with
        | some n => ofInteger? n
        | none =>
            if hasLeadingZero s then some (.str s)
            else
              match float? s with
              | some bits => some (.float bits)
              | none => some (.str s)

/-- The tag of a core type. -/
def coreTag (name : String) : Octets := octetsOf (text "tag:yaml.org,2002:" ++ text name)

/-- The value of a scalar that is plain or not, by its tag.  A tag that was kept beside the value
already says nothing of it. -/
def value? (plain tagged : Bool) (tag : Option Octets) (s : Text) : Option Value :=
  match (if tagged then none else tag) with
  | none => if plain then plain? s else some (.str s)
  | some tag =>
      if tag = coreTag "bool" then (bool? s).map .bool
      else if tag = coreTag "int" then (integer? s).bind ofInteger?
      else if tag = coreTag "float" then (float? s).map .float
      else if tag = coreTag "null" then (if isNull s then some .null else none)
      else if tag.head? = (octetsOf ['!']).head? ∧ plain then plain? s
      else some (.str s)

end Scalar

end Yaml

end DocAudit
