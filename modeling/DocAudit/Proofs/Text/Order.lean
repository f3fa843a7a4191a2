import DocAudit.Utf8
import Mathlib.Tactic.SplitIfs

/-!
# The order of texts is the order of their octets

Texts are ordered by their characters, and files are named by octets.  UTF-8
keeps the order: of two characters the smaller one has the smaller octets, the
first octet that differs deciding, and neither form is the start of the other.

**Results.**
* `utf8EncodeChar_append_lt`: the order of two characters, whatever follows.
* `encode_lt_of_le`, `encode_lt_of_not_le`: the order of two texts.
-/

namespace DocAudit
namespace Utf8

theorem digit_lt {m n : Nat} (h : m < n) :
    m / 64 < n / 64 ∨ m / 64 = n / 64 ∧ m % 64 < n % 64 := by
  omega

/-- Of two numbers the smaller one has the smaller digits to the base of 64, the highest digit that
differs deciding. -/
theorem digits_lt {m n : Nat} (h : m < n) :
    m / 262144 < n / 262144 ∨ m / 262144 = n / 262144 ∧
      (m / 4096 % 64 < n / 4096 % 64 ∨ m / 4096 % 64 = n / 4096 % 64 ∧
        (m / 64 % 64 < n / 64 % 64 ∨ m / 64 % 64 = n / 64 % 64 ∧ m % 64 < n % 64)) := by
  have key : m / 64 / 64 / 64 < n / 64 / 64 / 64 ∨ m / 64 / 64 / 64 = n / 64 / 64 / 64 ∧
      (m / 64 / 64 % 64 < n / 64 / 64 % 64 ∨ m / 64 / 64 % 64 = n / 64 / 64 % 64 ∧
        (m / 64 % 64 < n / 64 % 64 ∨ m / 64 % 64 = n / 64 % 64 ∧ m % 64 < n % 64)) := by
    rcases digit_lt h with h | ⟨h, hdigit⟩
    · rcases digit_lt h with h | ⟨h, hdigit⟩
      · rcases digit_lt h with h | ⟨h, hdigit⟩
        · exact Or.inl h
        · exact Or.inr ⟨h, Or.inl hdigit⟩
      · rw [h]
        exact Or.inr ⟨rfl, Or.inr ⟨rfl, Or.inl hdigit⟩⟩
    · rw [h]
      exact Or.inr ⟨rfl, Or.inr ⟨rfl, Or.inr ⟨rfl, hdigit⟩⟩⟩
  simpa only [Nat.div_div_eq_div_mul, Nat.reduceMul] using key

/-- Of two characters the smaller one has the smaller octets, whatever follows them. -/
theorem utf8EncodeChar_append_lt {c d : Char} (h : c.toNat < d.toNat) (s t : Octets) :
    String.utf8EncodeChar c ++ s < String.utf8EncodeChar d ++ t := by
  have hbound : d.toNat < 0x110000 := by
    have hvalid := d.valid
    simp only [UInt32.isValidChar, Nat.isValidChar] at hvalid
    simp only [Char.toNat]
    omega
  have hdigits := digits_lt h
  simp only [String.utf8EncodeChar]
  simp only [Char.toNat] at h hbound hdigits
  generalize c.val.toNat = m at *
  generalize d.val.toNat = n at *
  -- One case for each pair of lengths: the lead octets of different lengths differ, and the octets
  -- of the same length are the digits.
  split_ifs <;>
    simp (disch := omega) only [List.cons_append, List.nil_append, List.cons_lt_cons_iff,
      UInt8.lt_iff_toNat_lt, ← UInt8.toNat_inj, UInt8.toNat_ofNat', Nat.reducePow,
      Nat.mod_eq_of_lt] <;>
    omega

theorem nil_lt_encode_cons (c : Char) (t : Text) : [] < encode (c :: t) := by
  obtain ⟨octet, rest, h⟩ := List.exists_cons_of_ne_nil (String.utf8EncodeChar_ne_nil (c := c))
  rw [encode_cons, h]
  exact List.nil_lt_cons _ _

/-- An earlier text has smaller octets. -/
theorem encode_lt_of_le {s t : Text} (h : Text.le s t = true) (hne : s ≠ t) :
    encode s < encode t := by
  fun_induction Text.le s t with
  | case1 t =>
      obtain ⟨c, t, rfl⟩ := List.exists_cons_of_ne_nil (Ne.symm hne)
      exact nil_lt_encode_cons c t
  | case2 => cases h
  | case3 s b t ih =>
      rw [encode_cons, encode_cons]
      exact List.append_left_lt (ih h fun e => hne (by rw [e]))
  | case4 a s b t hab =>
      rw [encode_cons, encode_cons]
      exact utf8EncodeChar_append_lt (of_decide_eq_true h) _ _

/-- A text that is not earlier has greater octets. -/
theorem encode_lt_of_not_le {s t : Text} (h : Text.le s t = false) : encode t < encode s := by
  fun_induction Text.le s t with
  | case1 => cases h
  | case2 a s => exact nil_lt_encode_cons a s
  | case3 s b t ih =>
      rw [encode_cons, encode_cons]
      exact List.append_left_lt (ih h)
  | case4 a s b t hab =>
      have hne : a.toNat ≠ b.toNat := fun e => hab (Char.toNat_inj.1 e)
      have hlt : b.toNat < a.toNat := by
        have := of_decide_eq_false h
        omega
      rw [encode_cons, encode_cons]
      exact utf8EncodeChar_append_lt hlt _ _

end Utf8
end DocAudit
