import DocAudit.Utf8
import Mathlib.Tactic.SplitIfs

/-!
# Reading what was encoded

Octets that are no text are read with replacements for their malformed pieces.
Octets that are a text have no such piece: the lead octet of a character tells
how many continuations follow it, and these are the digits of its code to the
base of 64.  Each character is therefore read as itself, whatever follows it.

**Results.**
* `decodeLossy_utf8EncodeChar_append`: a character is read as itself.
* `decodeLossy_encode`: a text is read as itself.
-/

namespace DocAudit
namespace Utf8

section

variable {n : Nat} (rest : Octets)

theorem readBody_continuation {bits low high count : Nat} (hlow : low ≤ n % 64 + 0x80)
    (hhigh : n % 64 + 0x80 ≤ high) :
    readBody bits low high count (UInt8.ofNat (n % 64 + 0x80) :: rest)
      = readTail (bits * 64 + n % 64) count rest := by
  have hoctet : (UInt8.ofNat (n % 64 + 0x80)).toNat = n % 64 + 0x80 := by
    rw [UInt8.toNat_ofNat']
    omega
  have hwithin : within low high (UInt8.ofNat (n % 64 + 0x80)) = true := by
    rw [within, hoctet, Bool.and_eq_true, decide_eq_true_iff, decide_eq_true_iff]
    exact ⟨hlow, hhigh⟩
  have hdigit : (n % 64 + 0x80) % 64 = n % 64 := by omega
  rw [readBody, if_pos hwithin, hoctet, hdigit]

theorem readTail_continuation (bits count : Nat) :
    readTail bits (count + 1) (UInt8.ofNat (n % 64 + 0x80) :: rest)
      = readTail (bits * 64 + n % 64) count rest :=
  readBody_continuation rest (by omega) (by omega)

theorem readChar_one (hhigh : n ≤ 0x7F) :
    readChar (UInt8.ofNat n) rest = (Char.ofNat n, rest) := by
  have hlead : (UInt8.ofNat n).toNat = n := by
    rw [UInt8.toNat_ofNat']
    omega
  rw [readChar, hlead]
  exact if_pos (Nat.lt_succ_of_le hhigh)

theorem readChar_two (hlow : ¬ n ≤ 0x7F) (hhigh : n ≤ 0x7FF) :
    readChar (UInt8.ofNat (n / 64 % 32 + 0xC0)) (UInt8.ofNat (n % 64 + 0x80) :: rest)
      = (Char.ofNat n, rest) := by
  have hlead : (UInt8.ofNat (n / 64 % 32 + 0xC0)).toNat = n / 64 % 32 + 0xC0 := by
    rw [UInt8.toNat_ofNat']
    omega
  have hcode : (n / 64 % 32 + 0xC0) % 32 * 64 + n % 64 = n := by omega
  rw [readChar, hlead]
  simp (disch := omega) only [if_neg, if_pos]
  rw [readBody_continuation _ (by omega) (by omega), hcode, readTail]

theorem readChar_three (hvalid : n < 0xD800 ∨ 0xDFFF < n) (hlow : ¬ n ≤ 0x7FF)
    (hhigh : n ≤ 0xFFFF) :
    readChar (UInt8.ofNat (n / 4096 % 16 + 0xE0))
        (UInt8.ofNat (n / 64 % 64 + 0x80) :: UInt8.ofNat (n % 64 + 0x80) :: rest)
      = (Char.ofNat n, rest) := by
  have hlead : (UInt8.ofNat (n / 4096 % 16 + 0xE0)).toNat = n / 4096 % 16 + 0xE0 := by
    rw [UInt8.toNat_ofNat']
    omega
  have hcode : ((n / 4096 % 16 + 0xE0) % 16 * 64 + n / 64 % 64) * 64 + n % 64 = n := by omega
  rw [readChar, hlead]
  simp (disch := omega) only [if_neg, if_pos]
  rw [readBody_continuation _ (by split <;> omega) (by split <;> omega), readTail_continuation,
    hcode, readTail]

theorem readChar_four (hlow : ¬ n ≤ 0xFFFF) (hhigh : n < 0x110000) :
    readChar (UInt8.ofNat (n / 262144 % 8 + 0xF0))
        (UInt8.ofNat (n / 4096 % 64 + 0x80) :: UInt8.ofNat (n / 64 % 64 + 0x80)
          :: UInt8.ofNat (n % 64 + 0x80) :: rest)
      = (Char.ofNat n, rest) := by
  have hlead : (UInt8.ofNat (n / 262144 % 8 + 0xF0)).toNat = n / 262144 % 8 + 0xF0 := by
    rw [UInt8.toNat_ofNat']
    omega
  have hcode : (((n / 262144 % 8 + 0xF0) % 8 * 64 + n / 4096 % 64) * 64 + n / 64 % 64) * 64
      + n % 64 = n := by
    omega
  rw [readChar, hlead]
  simp (disch := omega) only [if_neg, if_pos]
  rw [readBody_continuation _ (by split <;> omega) (by split <;> omega), readTail_continuation,
    readTail_continuation, hcode, readTail]

end

/-- A character is read as itself, whatever follows it. -/
theorem decodeLossy_utf8EncodeChar_append (c : Char) (rest : Octets) :
    decodeLossy (String.utf8EncodeChar c ++ rest) = c :: decodeLossy rest := by
  have hvalid : c.val.toNat < 0xD800 ∨ 0xDFFF < c.val.toNat ∧ c.val.toNat < 0x110000 := c.valid
  have hcode : Char.ofNat c.val.toNat = c := Char.ofNat_toNat c
  simp only [String.utf8EncodeChar]
  split_ifs with hone htwo hthree
  · rw [List.singleton_append, decodeLossy, readChar_one rest hone, hcode]
  · rw [List.cons_append, List.singleton_append, decodeLossy, readChar_two rest hone htwo, hcode]
  · simp only [List.cons_append, List.nil_append]
    rw [decodeLossy, readChar_three rest (by omega) htwo hthree, hcode]
  · simp only [List.cons_append, List.nil_append]
    rw [decodeLossy, readChar_four rest hthree (by omega), hcode]

/-- A text is read as itself. -/
theorem decodeLossy_encode (t : Text) : decodeLossy (encode t) = t := by
  induction t with
  | nil =>
      rw [encode, List.flatMap_nil, decodeLossy]
  | cons c t ih => rw [encode_cons, decodeLossy_utf8EncodeChar_append, ih]

end Utf8
end DocAudit
