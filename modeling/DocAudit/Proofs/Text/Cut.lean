import DocAudit.Text
import Mathlib.Data.List.TakeWhile

/-!
# Cutting and joining texts

A text that is cut at a separator gives pieces without it, and joining such
pieces and cutting them again gives them back.  The lemmas here let a later
proof pass from a written path or a body to the list of its pieces.

**Results.**
* `startsWith_iff`, `after?_append_cons`: the opening of a text, and of a longer
  one.
* `splitOn_append_cons`: a separator within a text cuts it in two.
* `splitOn_joinWith`: pieces without the separator survive joining.
-/

namespace DocAudit
namespace Text

/-- A condition on the characters of a text is decided character by character of the text, and not
for all characters that there are. -/
instance decidableForallMem (p : Char → Prop) [DecidablePred p] (t : Text) :
    Decidable (∀ c ∈ t, p c) :=
  List.decidableBAll p t

theorem startsWith_iff {lead t : Text} : startsWith lead t = true ↔ lead <+: t := by
  rw [startsWith, Option.isSome_iff_exists]
  constructor
  · rintro ⟨rest, h⟩
    exact ⟨rest, ((after?_eq_some_iff lead t rest).1 h).symm⟩
  · rintro ⟨rest, rfl⟩
    exact ⟨rest, after?_append lead rest⟩

/-- What stands behind a character that an opening does not have is not looked at. -/
theorem after?_append_cons {c : Char} {lead : Text} (h : c ∉ lead) (t s : Text) :
    after? lead (t ++ c :: s) = (after? lead t).map (· ++ c :: s) := by
  induction lead generalizing t with
  | nil => rw [after?_nil, after?_nil, Option.map_some]
  | cons a lead ih =>
      have ha : a ≠ c := fun e => h (e ▸ List.mem_cons_self)
      have hlead := ih fun hm => h (List.mem_cons_of_mem a hm)
      cases t with
      | nil =>
          have hnone : after? (a :: lead) (c :: s) = none := if_neg ha
          exact hnone
      | cons d t =>
          rw [List.cons_append, after?, after?]
          by_cases had : a = d
          · rw [if_pos had, if_pos had, hlead]
          · rw [if_neg had, if_neg had, Option.map_none]

/-- A text without the separator is one piece. -/
theorem splitOn_of_notMem {sep : Char} {t : Text} (h : sep ∉ t) : splitOn sep t = [t] := by
  induction t with
  | nil => rfl
  | cons c t ih =>
      have hc : ¬ c = sep := fun e => h (e ▸ List.mem_cons_self)
      have ht : sep ∉ t := fun hm => h (List.mem_cons_of_mem c hm)
      simp [splitOn, hc, ih ht]

/-- A character that is no separator joins the first piece. -/
theorem splitOn_cons_of_ne {sep c : Char} (hc : c ≠ sep) (t : Text) :
    ∃ piece pieces,
      splitOn sep t = piece :: pieces ∧
      splitOn sep (c :: t) = (c :: piece) :: pieces := by
  cases e : splitOn sep t with
  | nil => exact absurd e (splitOn_ne_nil sep t)
  | cons piece pieces =>
      exact ⟨piece, pieces, rfl, by simp [splitOn, hc, e]⟩

/-- A separator cuts the text before it from the text behind it. -/
theorem splitOn_append_cons (sep : Char) (s t : Text) :
    splitOn sep (s ++ sep :: t) = splitOn sep s ++ splitOn sep t := by
  induction s with
  | nil => simp [splitOn]
  | cons c s ih =>
      by_cases hc : c = sep
      · simp [splitOn, hc, ih]
      · obtain ⟨piece, pieces, hs, hcs⟩ := splitOn_cons_of_ne hc s
        obtain ⟨piece', pieces', hst, hcst⟩ := splitOn_cons_of_ne hc (s ++ sep :: t)
        rw [ih, hs, List.cons_append, List.cons.injEq] at hst
        obtain ⟨rfl, rfl⟩ := hst
        rw [List.cons_append, hcst, hcs, List.cons_append]

/-- No piece holds the separator. -/
theorem notMem_of_mem_splitOn {sep : Char} {t piece : Text} (h : piece ∈ splitOn sep t) :
    sep ∉ piece := by
  induction t generalizing piece with
  | nil =>
      rw [splitOn, List.mem_singleton] at h
      simp [h]
  | cons c t ih =>
      by_cases hc : c = sep
      · rw [splitOn, if_pos hc] at h
        rcases List.mem_cons.1 h with rfl | h
        · exact List.not_mem_nil
        · exact ih h
      · obtain ⟨first, pieces, ht, hct⟩ := splitOn_cons_of_ne hc t
        rw [hct] at h
        rcases List.mem_cons.1 h with rfl | h
        · have hfirst : sep ∉ first := ih (by rw [ht]; exact List.mem_cons_self)
          exact fun hm => (List.mem_cons.1 hm).elim (fun e => hc e.symm) hfirst
        · exact ih (by rw [ht]; exact List.mem_cons_of_mem first h)

/-- A piece holds only what the text holds. -/
theorem mem_of_mem_splitOn {sep c : Char} {t piece : Text} (h : piece ∈ splitOn sep t)
    (hc : c ∈ piece) : c ∈ t := by
  induction t generalizing piece with
  | nil =>
      rw [splitOn, List.mem_singleton] at h
      rwa [h] at hc
  | cons d t ih =>
      by_cases hd : d = sep
      · rw [splitOn, if_pos hd] at h
        rcases List.mem_cons.1 h with rfl | h
        · cases hc
        · exact List.mem_cons_of_mem d (ih h hc)
      · obtain ⟨first, pieces, ht, hdt⟩ := splitOn_cons_of_ne hd t
        rw [hdt] at h
        rcases List.mem_cons.1 h with rfl | h
        · rcases List.mem_cons.1 hc with rfl | hc
          · exact List.mem_cons_self
          · exact List.mem_cons_of_mem d (ih (by rw [ht]; exact List.mem_cons_self) hc)
        · exact List.mem_cons_of_mem d (ih (by rw [ht]; exact List.mem_cons_of_mem first h) hc)

theorem joinWith_cons (sep : Text) (piece : Text) {pieces : List Text} (h : pieces ≠ []) :
    joinWith sep (piece :: pieces) = piece ++ sep ++ joinWith sep pieces := by
  cases pieces with
  | nil => exact absurd rfl h
  | cons second pieces => rfl

/-- Joining two rows of texts puts one separator between them. -/
theorem joinWith_append (sep : Text) {first second : List Text}
    (hfirst : first ≠ []) (hsecond : second ≠ []) :
    joinWith sep (first ++ second) = joinWith sep first ++ sep ++ joinWith sep second := by
  induction first with
  | nil => exact absurd rfl hfirst
  | cons piece pieces ih =>
      cases pieces with
      | nil => exact joinWith_cons sep piece hsecond
      | cons next pieces =>
          have hne : (next :: pieces) ++ second ≠ [] := by simp
          rw [List.cons_append, joinWith_cons sep piece hne, ih (by simp),
            joinWith_cons sep piece (by simp)]
          simp only [List.append_assoc]

/-- A character of joined texts belongs to the separator or to one of the texts. -/
theorem mem_joinWith {sep : Text} {pieces : List Text} {c : Char} (h : c ∈ joinWith sep pieces) :
    c ∈ sep ∨ ∃ piece ∈ pieces, c ∈ piece := by
  induction pieces with
  | nil => cases h
  | cons piece pieces ih =>
      by_cases hpieces : pieces = []
      · rw [hpieces] at h
        exact Or.inr ⟨piece, List.mem_cons_self, h⟩
      · rw [joinWith_cons sep piece hpieces, List.mem_append, List.mem_append] at h
        rcases h with (h | h) | h
        · exact Or.inr ⟨piece, List.mem_cons_self, h⟩
        · exact Or.inl h
        · rcases ih h with h | ⟨other, hother, h⟩
          · exact Or.inl h
          · exact Or.inr ⟨other, List.mem_cons_of_mem piece hother, h⟩

theorem head?_joinWith {sep piece : Text} (hpiece : piece ≠ []) (pieces : List Text) :
    (joinWith sep (piece :: pieces)).head? = piece.head? := by
  obtain ⟨c, t, rfl⟩ := List.exists_cons_of_ne_nil hpiece
  cases pieces with
  | nil => rfl
  | cons next pieces => rfl

/-- Pieces without the separator come back from the text that joins them. -/
theorem splitOn_joinWith {sep : Char} {pieces : List Text} (hne : pieces ≠ [])
    (h : ∀ piece ∈ pieces, sep ∉ piece) :
    splitOn sep (joinWith [sep] pieces) = pieces := by
  induction pieces with
  | nil => exact absurd rfl hne
  | cons piece pieces ih =>
      have hpiece : sep ∉ piece := h piece List.mem_cons_self
      cases pieces with
      | nil => exact splitOn_of_notMem hpiece
      | cons next pieces =>
          have hrest := ih (by simp) fun p hp => h p (List.mem_cons_of_mem piece hp)
          rw [joinWith_cons [sep] piece (by simp), List.append_assoc, List.singleton_append,
            splitOn_append_cons, splitOn_of_notMem hpiece, hrest, List.singleton_append]

theorem exists_splitOn_eq_concat (sep : Char) (t : Text) :
    ∃ pieces last, splitOn sep t = pieces ++ [last] :=
  ⟨_, _, (List.dropLast_concat_getLast (splitOn_ne_nil sep t)).symm⟩

/-- A text without the separator goes to the last piece. -/
theorem splitOn_append {sep : Char} {s : Text} (hs : sep ∉ s) (t : Text) :
    ∃ pieces last, sep ∉ last ∧ splitOn sep (t ++ s) = pieces ++ [last ++ s] := by
  obtain ⟨pieces, last, hsplit⟩ := exists_splitOn_eq_concat sep t
  have hslash : ∀ piece ∈ pieces ++ [last], sep ∉ piece := by
    intro piece hpiece
    rw [← hsplit] at hpiece
    exact notMem_of_mem_splitOn hpiece
  have hlast : sep ∉ last := hslash last (List.mem_append_right _ (List.mem_singleton_self _))
  have hjoin : t ++ s = joinWith [sep] (pieces ++ [last ++ s]) := by
    have ht := joinWith_splitOn sep t
    rw [hsplit] at ht
    by_cases hpieces : pieces = []
    · rw [← ht, hpieces]
      rfl
    · rw [← ht, joinWith_append _ hpieces (List.cons_ne_nil _ _),
        joinWith_append _ hpieces (List.cons_ne_nil _ _)]
      simp [joinWith]
  refine ⟨pieces, last, hlast, ?_⟩
  rw [hjoin]
  apply splitOn_joinWith
  · simp
  · intro piece hpiece
    rcases List.mem_append.1 hpiece with hpiece | hpiece
    · exact hslash piece (List.mem_append_left _ hpiece)
    · rw [List.mem_singleton.1 hpiece, List.mem_append, not_or]
      exact ⟨hlast, hs⟩

/-- The first piece is the text up to the first separator. -/
theorem head?_splitOn (sep : Char) (t : Text) :
    (splitOn sep t).head? = some (t.takeWhile (· != sep)) := by
  induction t with
  | nil => rfl
  | cons c t ih =>
      by_cases hc : c = sep
      · simp [splitOn, hc]
      · obtain ⟨piece, pieces, ht, hct⟩ := splitOn_cons_of_ne hc t
        rw [ht, List.head?_cons, Option.some.injEq] at ih
        simp [hct, hc, ih]

theorem bne_of_notMem {sep : Char} {t : Text} (h : sep ∉ t) : ∀ c ∈ t, (c != sep) = true := by
  intro c hc
  rw [bne_iff_ne]
  rintro rfl
  exact h hc

/-- A run of characters of a class ends at the first character outside of it. -/
theorem takeWhile_run {p : Char → Bool} {run : Text} {stop : Char}
    (hrun : ∀ c ∈ run, p c = true) (hstop : p stop = false) (rest : Text) :
    (run ++ stop :: rest).takeWhile p = run := by
  rw [List.takeWhile_append_of_pos hrun, List.takeWhile_cons_of_neg (by simp [hstop]),
    List.append_nil]

theorem dropWhile_run {p : Char → Bool} {run : Text} {stop : Char}
    (hrun : ∀ c ∈ run, p c = true) (hstop : p stop = false) (rest : Text) :
    (run ++ stop :: rest).dropWhile p = stop :: rest := by
  rw [List.dropWhile_append_of_pos hrun, List.dropWhile_cons_of_neg (by simp [hstop])]

/-- A run does not go on behind a character outside of its class. -/
theorem dropWhile_append_of_mem {p : Char → Bool} {c : Char} {s : Text} (hc : c ∈ s)
    (hp : p c = false) (t : Text) : (s ++ t).dropWhile p = s.dropWhile p ++ t := by
  have hne : ¬ (s.dropWhile p).isEmpty = true := by
    intro hempty
    have hwhole := List.takeWhile_append_dropWhile (p := p) (l := s)
    rw [List.isEmpty_iff.1 hempty, List.append_nil] at hwhole
    rw [← hwhole] at hc
    exact Bool.eq_false_iff.1 hp (List.all_eq_true.1 List.all_takeWhile c hc)
  rw [List.dropWhile_append, if_neg hne]

end Text
end DocAudit
