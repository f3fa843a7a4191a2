import DocAudit.Utf8

/-!
# Offsets in octets

A place in a text can be told by the number of octets in front of it.  Not every
such number is a place: a character of two or more octets has offsets within it,
and a text is cut only between its characters.

**Results.**
* `sliceFrom?_eq_some_iff`: what a text has from an offset on.
* `isBoundary_iff_isSome`: a text can be cut exactly at its boundaries.
* `lastOffset?_append`: the offset of a character is that of its last place.
-/

namespace DocAudit
namespace Text

@[simp] theorem octetCount_nil : octetCount [] = 0 := rfl

@[simp] theorem octetCount_cons (c : Char) (t : Text) :
    octetCount (c :: t) = c.utf8Size + octetCount t := by
  rw [octetCount, Utf8.encode_cons, List.length_append, String.length_utf8EncodeChar]
  rfl

@[simp] theorem octetCount_append (s t : Text) :
    octetCount (s ++ t) = octetCount s + octetCount t := by
  simp only [octetCount, Utf8.encode_append, List.length_append]

/-- An offset between two characters of a text, at its start or at its end. -/
def IsBoundary (t : Text) (offset : Nat) : Prop :=
  ∃ front rest, t = front ++ rest ∧ octetCount front = offset

/-- The offset of the last place where a text has a character. -/
def lastOffset? (sought : Char) : Text → Option Nat
  | [] => none
  | c :: t =>
      match lastOffset? sought t with
      | some offset => some (c.utf8Size + offset)
      | none => if c = sought then some 0 else none

/-- A text is cut at the octets that its front takes up. -/
theorem sliceFrom?_octetCount (front rest : Text) :
    sliceFrom? (front ++ rest) (octetCount front) = some rest := by
  induction front with
  | nil => cases rest <;> rfl
  | cons c front ih =>
      have hpos := c.utf8Size_pos
      obtain ⟨offset, hoffset⟩ : ∃ offset, octetCount (c :: front) = offset + 1 :=
        Nat.exists_eq_succ_of_ne_zero (by rw [octetCount_cons]; omega)
      have hrest : offset + 1 - c.utf8Size = octetCount front := by
        rw [← hoffset, octetCount_cons, Nat.add_sub_cancel_left]
      have hle : c.utf8Size ≤ offset + 1 := by
        rw [← hoffset, octetCount_cons]
        exact Nat.le_add_right _ _
      rw [hoffset, List.cons_append, sliceFrom?, if_pos hle, hrest, ih]

/-- What a text has from an offset on stands behind as many octets. -/
theorem sliceFrom?_eq_some_iff {t rest : Text} {offset : Nat} :
    sliceFrom? t offset = some rest ↔ ∃ front, t = front ++ rest ∧ octetCount front = offset := by
  constructor
  · intro h
    fun_induction sliceFrom? t offset with
    | case1 t =>
        cases h
        exact ⟨[], rfl, rfl⟩
    | case2 => cases h
    | case3 c t offset hle ih =>
        obtain ⟨front, rfl, hfront⟩ := ih h
        refine ⟨c :: front, rfl, ?_⟩
        rw [octetCount_cons, hfront]
        omega
    | case4 => cases h
  · rintro ⟨front, rfl, rfl⟩
    exact sliceFrom?_octetCount front rest

/-- A text can be cut exactly at its boundaries. -/
theorem isBoundary_iff_isSome {t : Text} {offset : Nat} :
    IsBoundary t offset ↔ (sliceFrom? t offset).isSome := by
  rw [Option.isSome_iff_exists]
  simp only [sliceFrom?_eq_some_iff]
  exact exists_comm

theorem lastOffset?_of_notMem {sought : Char} {t : Text} (h : sought ∉ t) :
    lastOffset? sought t = none := by
  induction t with
  | nil => rfl
  | cons c t ih =>
      rw [List.mem_cons, not_or] at h
      rw [lastOffset?, ih h.2]
      exact if_neg (Ne.symm h.1)

/-- The last place where a text has a character lies behind all that stands in front of it. -/
theorem lastOffset?_append {sought : Char} {rest : Text} (hrest : sought ∉ rest) (front : Text) :
    lastOffset? sought (front ++ sought :: rest) = some (octetCount front) := by
  induction front with
  | nil =>
      rw [List.nil_append, lastOffset?, lastOffset?_of_notMem hrest]
      exact if_pos rfl
  | cons c front ih => rw [List.cons_append, lastOffset?, ih, octetCount_cons]

end Text
end DocAudit
