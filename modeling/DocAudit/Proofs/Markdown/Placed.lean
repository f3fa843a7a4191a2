import DocAudit.Proofs.Markdown.Pieces

/-!
# Where the targets of pieces stand

Each target of a body stands at a place of the text without code, and a search
gives its targets with their places.  Since the places grow from piece to
piece, merging what two searches found by place gives the targets in the order
in which they were written.

**Results.**
* `bounds_of_place?`: a target stands within its piece.
* `merge_placed`: merging the targets of some pieces with those of the others.
-/

namespace DocAudit
namespace Markdown

/-- The number of characters between the end of a label and the target of its link. -/
def Destination.gap : Destination → Nat
  | angled _ => 3
  | bare _ => 2

namespace Piece

/-- The target of a piece and its place within the piece. -/
def place? : Piece → Option (Nat × Text)
  | link label destination _ => some (label.length + 1 + destination.gap, destination.target)
  | definition label target => some (label.length + 4, target)
  | _ => none

/-- Whether a piece is an inline link. -/
def isLink : Piece → Bool
  | link _ _ _ => true
  | _ => false

/-- The targets of those pieces that `keep` keeps, each with its place, if the pieces stand at place
`n` of a text without code. -/
def placed (keep : Piece → Bool) (n : Nat) : List Piece → List (Nat × Text)
  | [] => []
  | piece :: pieces =>
      ((piece.place?.filter fun _ => keep piece).map fun (k, target) => (n + k, target)).toList
        ++ placed keep (n + piece.visible.length) pieces

variable {keep : Piece → Bool} {piece : Piece} {pieces : List Piece} {n k : Nat} {target : Text}

theorem placed_cons_of_none (h : piece.place? = none) :
    placed keep n (piece :: pieces) = placed keep (n + piece.visible.length) pieces := by
  rw [placed, h]
  rfl

theorem placed_cons_of_keep (h : piece.place? = some (k, target)) (hkeep : keep piece = true) :
    placed keep n (piece :: pieces)
      = (n + k, target) :: placed keep (n + piece.visible.length) pieces := by
  rw [placed, h, Option.filter_some, hkeep]
  rfl

theorem placed_cons_of_not_keep (hkeep : keep piece = false) :
    placed keep n (piece :: pieces) = placed keep (n + piece.visible.length) pieces := by
  have hnone : piece.place?.filter (fun _ => keep piece) = none := by
    rw [hkeep]
    cases piece.place? <;> rfl
  rw [placed, hnone]
  rfl

theorem length_visible_link (label : Text) (destination : Destination) (title : Option Title) :
    (link label destination title).visible.length
      = label.length + destination.write.length + (writeTitle title).length + 4 := by
  have h := congrArg List.length (visible_link_append label destination title [])
  simp only [List.append_nil, List.length_append, List.length_cons, List.length_nil] at h
  omega

theorem length_visible_definition (label target : Text) :
    (definition label target).visible.length = label.length + target.length + 4 := by
  have h := congrArg List.length (visible_definition_append label target [])
  simp only [List.append_nil, List.length_append, List.length_cons] at h
  omega

/-- A target stands behind the start of its piece, and not behind its end. -/
theorem bounds_of_place? (h : piece.place? = some (k, target)) :
    0 < k ∧ k ≤ piece.visible.length := by
  cases piece with
  | link label destination title =>
      obtain ⟨rfl, rfl⟩ := Prod.mk.inj (Option.some.inj h)
      have hgap : destination.gap ≤ 3 := by
        cases destination with
        | angled _ => exact Nat.le_refl 3
        | bare _ => exact Nat.le_succ 2
      rw [length_visible_link]
      omega
  | definition label target =>
      obtain ⟨rfl, rfl⟩ := Prod.mk.inj (Option.some.inj h)
      rw [length_visible_definition]
      omega
  | _ => cases h

theorem lt_of_mem_placed {found : Nat × Text} (h : found ∈ placed keep n pieces) :
    n < found.1 := by
  induction pieces generalizing n with
  | nil => cases h
  | cons piece pieces ih =>
      rw [placed, List.mem_append] at h
      rcases h with h | h
      · rw [Option.mem_toList, Option.map_eq_some_iff] at h
        obtain ⟨⟨k, target⟩, hplace, rfl⟩ := h
        have := (bounds_of_place? (Option.filter_eq_some_iff.1 hplace).1).1
        exact Nat.lt_add_of_pos_right this
      · exact Nat.lt_of_le_of_lt (Nat.le_add_right _ _) (ih h)

theorem merge_cons_of_forall_le {α : Type} {le : α → α → Bool} {a : α} {xs ys : List α}
    (h : ∀ y ∈ ys, le a y = true) : (a :: xs).merge ys le = a :: xs.merge ys le := by
  cases ys with
  | nil => rw [List.merge_right, List.merge_right]
  | cons y ys => exact List.cons_merge_cons_pos _ _ _ (h y List.mem_cons_self)

theorem merge_cons_of_forall_not_le {α : Type} {le : α → α → Bool} {b : α} {xs ys : List α}
    (h : ∀ x ∈ xs, le x b = false) : xs.merge (b :: ys) le = b :: xs.merge ys le := by
  cases xs with
  | nil => rw [List.nil_merge, List.nil_merge]
  | cons x xs =>
      refine List.cons_merge_cons_neg _ _ _ ?_
      rw [h x List.mem_cons_self]
      exact Bool.false_ne_true

/-- Merging the targets that `keep` keeps with the others by place gives all targets. -/
theorem merge_placed (keep : Piece → Bool) (n : Nat) (pieces : List Piece) :
    (placed keep n pieces).merge (placed (fun piece => !keep piece) n pieces) (fun a b => a.1 ≤ b.1)
      = placed (fun _ => true) n pieces := by
  induction pieces generalizing n with
  | nil => exact List.nil_merge []
  | cons piece pieces ih =>
      cases hplace : piece.place? with
      | none =>
          rw [placed_cons_of_none hplace, placed_cons_of_none hplace, placed_cons_of_none hplace,
            ih]
      | some found =>
          obtain ⟨k, target⟩ := found
          have hk := bounds_of_place? hplace
          have hall : placed (fun _ => true) n (piece :: pieces)
              = (n + k, target) :: placed (fun _ => true) (n + piece.visible.length) pieces :=
            placed_cons_of_keep hplace rfl
          rw [hall]
          cases hkeep : keep piece with
          | true =>
              rw [placed_cons_of_keep hplace hkeep, placed_cons_of_not_keep (by simp [hkeep]),
                merge_cons_of_forall_le, ih]
              intro other hother
              have := lt_of_mem_placed hother
              rw [decide_eq_true_iff]
              omega
          | false =>
              rw [placed_cons_of_not_keep hkeep, placed_cons_of_keep hplace (by simp [hkeep]),
                merge_cons_of_forall_not_le, ih]
              intro other hother
              have := lt_of_mem_placed hother
              rw [decide_eq_false_iff_not]
              omega

theorem map_snd_placed (n : Nat) (pieces : List Piece) :
    (placed (fun _ => true) n pieces).map (·.2) = targets pieces := by
  induction pieces generalizing n with
  | nil => rfl
  | cons piece pieces ih =>
      rw [targets, List.filterMap_cons]
      cases piece with
      | link label destination title =>
          rw [placed_cons_of_keep rfl rfl, List.map_cons, ih]
          rfl
      | definition label target =>
          rw [placed_cons_of_keep rfl rfl, List.map_cons, ih]
          rfl
      | _ =>
          rw [placed_cons_of_none rfl, ih]
          rfl

end Piece
end Markdown
end DocAudit
