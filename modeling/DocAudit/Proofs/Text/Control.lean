import DocAudit.Proofs.Text.Number

/-!
# Control characters

The characters with codes below that of a blank steer a terminal and are no part of
words and numbers.

**Results.**
* `notMem_of_lacksControls`: a text of other characters has none of them.
* `notMem_text`: the same of a literal, of which only the characters are looked at.
* `lacksControls_ofNat`: no number has one.
-/

namespace DocAudit

namespace Text

/-- A text has no control characters. -/
def lacksControls (t : Text) : Bool := t.all fun c => 32 ≤ c.toNat

theorem lacksControls_iff {t : Text} : lacksControls t = true ↔ ∀ c ∈ t, 32 ≤ c.toNat := by
  rw [lacksControls, List.all_eq_true]
  exact forall₂_congr fun _ _ => decide_eq_true_iff

theorem notMem_of_lacksControls {c : Char} (hc : c.toNat < 32) {t : Text}
    (h : lacksControls t = true) : c ∉ t := by
  intro hmem
  have hle := lacksControls_iff.1 h c hmem
  omega

/-- The characters of a literal decide what it does not have. -/
theorem notMem_text {c : Char} (hc : c.toNat < 32) {cs : Text} (h : lacksControls cs = true) :
    c ∉ text (String.ofList cs) := by
  rw [text, String.toList_ofList]
  exact notMem_of_lacksControls hc h

theorem lacksControls_ofNat (n : Nat) : lacksControls (ofNat n) = true := by
  refine lacksControls_iff.2 fun d hd => ?_
  have hdigit := isDigit_of_mem_ofNat hd
  rw [Char.isDigit, Bool.and_eq_true, decide_eq_true_iff, ge_iff_le, UInt32.le_iff_toNat_le]
    at hdigit
  exact Nat.le_trans (by decide) hdigit.1

end Text

end DocAudit
