import DocAudit.Binary64
import DocAudit.Toml.Value

/-!
# TOML scalars without quotes

Truth values, integers, floats, dates and times.  A scalar is a run of word
characters, and it is one of these as a whole or not at all.  Digits can be
grouped by single underscores.  An integer fits into 64 bits, with or without
a sign, and a float that is not named infinite is finite.
-/

namespace DocAudit

namespace Toml

namespace Scalar

/-- The characters of a scalar without quotes. -/
def isWord (c : Char) : Bool :=
  c.isAlphanum || c == '_' || c == '-' || c == '+' || c == '.' || c == ':'

/-- The digits of a run in which single underscores can stand between digits. -/
def digits? (isDigit : Char → Bool) (t : Text) : Option Text :=
  let groups := Text.splitOn '_' t
  if groups.all fun group => group ≠ [] && group.all isDigit then some groups.flatten else none

/-- The digits of a number that does not start with a superfluous zero. -/
def whole? (t : Text) : Option Text :=
  (digits? Char.isDigit t).filter fun ds => ds.length = 1 || ds.head? ≠ some '0'

/-- Whether a digit belongs to a base up to sixteen. -/
def isDigitOf (base : Nat) (c : Char) : Bool := (Text.hexValue? c).any (· < base)

/-- The value of digits in a base. -/
def valueIn (base : Nat) (ds : Text) : Nat :=
  ds.foldl (fun n c => n * base + (Text.hexValue? c).getD 0) 0

/-- A sign and what follows it. -/
def signed (t : Text) : Bool × Text :=
  match t with
  | '-' :: rest => (true, rest)
  | '+' :: rest => (false, rest)
  | _ => (false, t)

/-- The value of digits in the base that their opening tells. -/
def based? (t : Text) : Option Nat :=
  let read (lead : Text) (base : Nat) : Option Nat :=
    (Text.after? lead t).bind fun ds => (digits? (isDigitOf base) ds).map (valueIn base)
  read (text "0x") 16 <|> read (text "0o") 8 <|> read (text "0b") 2

/-- The integer that a scalar is. -/
def integer? (t : Text) : Option Int :=
  match based? t with
  | some n => some n
  | none =>
      let (negative, ds) := signed t
      (whole? ds).map fun ds =>
        let n := Text.decimalNumber ds
        if negative then -(n : Int) else n

/-- Whether an integer fits into 64 bits, with or without a sign. -/
def fits (n : Int) : Bool := -(Nat.pow 2 63 : Int) ≤ n && n < (Nat.pow 2 64 : Int)

/-- Whether a scalar is a float: infinite or no number by name, or a whole part with a fraction,
an exponent, or both. -/
def isFloat (t : Text) : Bool :=
  let (_, t) := signed t
  if t = text "inf" ∨ t = text "nan" then true
  else
    let isMantissa (c : Char) : Bool := c != 'e' && c != 'E'
    let mantissa := t.takeWhile isMantissa
    let exponent := t.dropWhile isMantissa
    let whole := mantissa.takeWhile (· != '.')
    let fraction := mantissa.dropWhile (· != '.')
    let read : Option (Text × Text × Int) := do
      let ds ← whole? whole
      let part ← if fraction = [] then some [] else digits? Char.isDigit (fraction.drop 1)
      let e ←
        if exponent = [] then some 0
        else
          let (negative, es) := signed (exponent.drop 1)
          (digits? Char.isDigit es).map fun es =>
            let n : Int := Text.decimalNumber es
            if negative then -n else n
      if fraction = [] ∧ exponent = [] then none
      some (ds, part, e)
    read.any fun (ds, part, e) =>
      Binary64.ofDecimal (Text.decimalNumber (ds ++ part)) (e - part.length) < Binary64.infinity

/-! ## Dates and times -/

/-- Reads two digits whose value lies in a range. -/
def readTwo? (low high : Nat) : Text → Option (Nat × Text)
  | a :: b :: rest =>
      let n := Text.decimalNumber [a, b]
      if a.isDigit && b.isDigit && decide (low ≤ n ∧ n ≤ high) then some (n, rest) else none
  | _ => none

/-- The number of days of a month. -/
def daysOf (year month : Nat) : Nat :=
  if month = 2 then
    if year % 4 = 0 ∧ (year % 100 ≠ 0 ∨ year % 400 = 0) then 29 else 28
  else if month = 4 ∨ month = 6 ∨ month = 9 ∨ month = 11 then 30
  else 31

/-- Passes a date. -/
def afterDate? (t : Text) : Option Text := do
  let (century, t) ← readTwo? 0 99 t
  let (year, t) ← readTwo? 0 99 t
  let (month, t) ← readTwo? 1 12 (← Text.after? ['-'] t)
  let (_, t) ← readTwo? 1 (daysOf (century * 100 + year) month) (← Text.after? ['-'] t)
  some t

/-- Passes a fraction of a second, if there is one. -/
def afterFraction? (t : Text) : Option Text :=
  match Text.after? ['.'] t with
  | none => some t
  | some t => if t.head?.any Char.isDigit then some (t.dropWhile Char.isDigit) else none

/-- Passes a time of day, of which the seconds can be left out. -/
def afterTime? (t : Text) : Option Text := do
  let (_, t) ← readTwo? 0 23 t
  let (_, t) ← readTwo? 0 59 (← Text.after? [':'] t)
  match Text.after? [':'] t with
  | none => some t
  | some t =>
      let (_, t) ← readTwo? 0 60 t
      afterFraction? t

/-- Passes an offset from universal time, if there is one. -/
def afterOffset? (t : Text) : Option Text :=
  match t with
  | 'Z' :: t => some t
  | 'z' :: t => some t
  | c :: rest =>
      if c = '+' ∨ c = '-' then do
        let (_, rest) ← readTwo? 0 23 rest
        let (_, rest) ← readTwo? 0 59 (← Text.after? [':'] rest)
        some rest
      else some t
  | [] => some []

/-- Whether a text is a date as a whole. -/
def isDate (t : Text) : Bool := afterDate? t == some []

/-- Whether a text is a date, a time, or both with an offset or without one. -/
def isDateTime (t : Text) : Bool :=
  afterTime? t == some [] ||
    (afterDate? t).any fun rest =>
      match rest with
      | [] => true
      | c :: rest =>
          (c == 'T' || c == 't' || c == ' ') && (afterTime? rest).bind afterOffset? == some []

/-- The value of a scalar. -/
def value? (t : Text) : Option Value :=
  if t = text "true" then some (.boolean true)
  else if t = text "false" then some (.boolean false)
  else
    match integer? t with
    | some n => if fits n then some (.integer n) else none
    | none =>
        if isFloat t then some .float
        else if isDateTime t then some (.dateTime t)
        else none

/-- Takes a scalar off the start of a text.  A date and a time can have a blank between them. -/
def take (t : Text) : Text × Text :=
  let word := t.takeWhile isWord
  let rest := t.dropWhile isWord
  if isDate word then
    match rest with
    | ' ' :: d :: rest' =>
        if d.isDigit then
          (word ++ ' ' :: (d :: rest').takeWhile isWord, (d :: rest').dropWhile isWord)
        else (word, rest)
    | _ => (word, rest)
  else (word, rest)

/-- Reads a scalar. -/
def read? (t : Text) : Option (Value × Text) :=
  (value? (take t).1).map fun value => (value, (take t).2)

end Scalar

end Toml

end DocAudit
