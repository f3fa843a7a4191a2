import DocAudit.Proofs.Text.Cut

/-!
# Numbers in a text

A number is written with its decimal digits.  Where no digit follows, the text
tells where the number ends, and so it tells the number.

**Results.**
* `ofNat_append_inj`: numbers that open the same text are the same.
-/

namespace DocAudit

namespace Text

/-- A number ends before the text. -/
def EndsNumber (t : Text) : Prop := ∀ c ∈ t.head?, c.isDigit = false

theorem endsNumber_cons {c : Char} (hc : c.isDigit = false) (t : Text) : EndsNumber (c :: t) := by
  intro d hd
  cases hd
  exact hc

theorem isDigit_of_mem_ofNat {n : Nat} {c : Char} (h : c ∈ ofNat n) : c.isDigit = true :=
  @Nat.isDigit_of_mem_toDigits 10 n c (by omega) (by omega) h

theorem exists_ofNat_cons (n : Nat) : ∃ d ds, ofNat n = d :: ds ∧ d.isDigit = true := by
  have hne : ofNat n ≠ [] := Nat.toDigits_ne_nil
  obtain ⟨d, ds, h⟩ := List.exists_cons_of_ne_nil hne
  exact ⟨d, ds, h, isDigit_of_mem_ofNat (h ▸ List.mem_cons_self)⟩

theorem takeWhile_ofNat_append (n : Nat) {t : Text} (ht : EndsNumber t) :
    (ofNat n ++ t).takeWhile Char.isDigit = ofNat n := by
  cases t with
  | nil => rw [List.append_nil, List.takeWhile_eq_self_iff.2 fun _ => isDigit_of_mem_ofNat]
  | cons c t => exact takeWhile_run (fun _ => isDigit_of_mem_ofNat) (ht c rfl) t

theorem ofNat_injective {m n : Nat} (h : ofNat m = ofNat n) : m = n := by
  calc m = Nat.ofDigitChars 10 (ofNat m) 0 := Nat.ofDigitChars_ten_toDigits.symm
    _ = Nat.ofDigitChars 10 (ofNat n) 0 := by rw [h]
    _ = n := Nat.ofDigitChars_ten_toDigits

/-- Numbers that open the same text are the same. -/
theorem ofNat_append_inj {m n : Nat} {s t : Text} (hs : EndsNumber s) (ht : EndsNumber t)
    (h : ofNat m ++ s = ofNat n ++ t) : m = n ∧ s = t := by
  have hdigits : ofNat m = ofNat n := by
    rw [← takeWhile_ofNat_append m hs, h, takeWhile_ofNat_append n ht]
  refine ⟨ofNat_injective hdigits, ?_⟩
  rw [hdigits] at h
  exact List.append_cancel_left h

end Text

end DocAudit
