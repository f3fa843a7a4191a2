import DocAudit.Text

/-!
# Binary64

The bits of the binary64 number that is nearest to a decimal number, a tie
going to the even significand.  All arithmetic is exact: the decimal number is
a quotient of natural numbers, and a significand is a quotient of them too.

A finite number with significand `s` and unit `2 ^ (q - 1074)` has the bits
`q * 2 ^ 52 + s` when `s` has 53 bits or `q` is zero, and a significand that
rounding raises to `2 ^ 53` gives the right bits as well.
-/

namespace DocAudit

namespace Binary64

/-- The bits of infinity. -/
def infinity : Nat := 0x7FF0000000000000

/-- The bits of the only number that is not a number. -/
def nan : Nat := 0x7FF8000000000000

/-- The bit of the sign. -/
def sign : Nat := Nat.pow 2 63

/-- The quotient of two numbers, rounded to the nearest, a tie to the even one. -/
def roundDiv (n d : Nat) : Nat :=
  let s := n / d
  let r := n % d
  if 2 * r > d || (2 * r == d && s % 2 == 1) then s + 1 else s

/-- The exponent `q` of the unit in which the positive quotient `n / d` has a significand of 53
bits, or zero where that unit would be too small. -/
def unitOf (n d : Nat) : Nat :=
  let q := n.log2 + 1074 - 52 - d.log2
  if q = 0 then 0
  else if n * Nat.pow 2 1074 < d * Nat.pow 2 (q + 52) then q - 1
  else q

/-- The bits of the positive quotient `n / d`. -/
def ofQuotient (n d : Nat) : Nat :=
  let q := unitOf n d
  min infinity (q * Nat.pow 2 52 + roundDiv (n * Nat.pow 2 1074) (d * Nat.pow 2 q))

/-- The number of decimal digits of a number that is not zero. -/
def digitCount (n : Nat) : Nat := (Nat.toDigits 10 n).length

/-- The bits of `m * 10 ^ e`.  Exponents that are out of reach are settled without the power. -/
def ofDecimal (m : Nat) (e : Int) : Nat :=
  if m = 0 then 0
  else
    let magnitude := (digitCount m : Int) + e
    if 310 < magnitude then infinity
    else if magnitude < -330 then 0
    else if 0 ≤ e then ofQuotient (m * Nat.pow 10 e.toNat) 1
    else ofQuotient m (Nat.pow 10 (-e).toNat)

end Binary64

end DocAudit
