import DocAudit.Proofs.Markdown.LineBreak
import DocAudit.Proofs.Markdown.Located
import Mathlib.Data.List.Sort

/-!
# The places of targets

A body without its code is searched twice, for inline links and for reference
definitions.  What the two searches find can overlap: a definition can hold an
inline link, and an inline link can go on over a definition.  But each target
has a place of its own.  Inline links follow one another and so do lines, and
between the two a place is told by what leads its target in, which is a
parenthesis before the target of an inline link and a colon before the target
of a definition.

Sorting targets by their places therefore meets no ties, and it does not matter
in which order they are collected or how they are sorted.

**Results.**
* `exists_append_of_mem_placedTargets`: targets stand where their places say.
* `pairwise_inlineTargets`, `pairwise_definitionTargets`: the places that one
  search finds ascend.
* `nodup_places`: no place is found twice.
* `links_inPlaceOrder`: the links of a body in the order of their places.
-/

namespace DocAudit

namespace Markdown

/-! ### Where targets stand -/

/-- What a search finds was read behind as many characters as its place says. -/
theorem Construct.exists_append_of_mem_occurrences {α : Type} {k : Construct α}
    (hk : k.LeavesSuffix) {n : Nat} {t : Text} {found : Nat × α} (h : found ∈ k.occurrences n t) :
    ∃ passed s rest, t = passed ++ s ∧ found.1 = n + passed.length
      ∧ k.read? s = some (found.2, rest) := by
  fun_induction Construct.occurrences k n t with
  | case1 n t a rest hread ih =>
      rcases List.mem_cons.1 h with rfl | hlater
      · exact ⟨[], t, rest, rfl, rfl, hread⟩
      · obtain ⟨piece, rfl⟩ := hk hread
        obtain ⟨passed, s, behind, rfl, hplace, hs⟩ := ih hlater
        refine ⟨piece ++ passed, s, behind, (List.append_assoc _ _ _).symm, ?_, hs⟩
        simp only [List.length_append] at hplace ⊢
        omega
  | case2 => cases h
  | case3 n c t hread ih =>
      obtain ⟨passed, s, behind, rfl, hplace, hs⟩ := ih h
      refine ⟨c :: passed, s, behind, rfl, ?_, hs⟩
      rw [hplace, List.length_cons]
      omega

theorem exists_append_of_mem_placedLines {lines : List Text} {n : Nat} {placed : Nat × Text}
    (h : placed ∈ placedLines n lines) :
    ∃ before behind, Text.joinWith ['\n'] lines = before ++ (placed.2 ++ behind)
      ∧ placed.1 = n + before.length := by
  induction lines generalizing n with
  | nil => cases h
  | cons line lines ih =>
      rw [placedLines, List.mem_cons] at h
      rcases h with rfl | h
      · cases lines with
        | nil => exact ⟨[], [], (List.append_nil line).symm, rfl⟩
        | cons next lines =>
            exact ⟨[], ['\n'] ++ Text.joinWith ['\n'] (next :: lines),
              List.append_assoc _ _ _, rfl⟩
      · obtain ⟨before, behind, hjoin, hplace⟩ := ih h
        have hne : lines ≠ [] := by
          rintro rfl
          cases h
        refine ⟨line ++ ['\n'] ++ before, behind, ?_, ?_⟩
        · rw [Text.joinWith_cons ['\n'] line hne, hjoin]
          simp only [List.append_assoc]
        · rw [hplace]
          simp only [List.length_append, List.length_singleton]
          omega

/-- A target that stands in a text where its place says, behind a mark. -/
def StandsBehind (mark : Char) (t : Text) (found : Nat × Text) : Prop :=
  ∃ before behind, t = before ++ (found.2 ++ behind) ∧ before.length = found.1
    ∧ LeadsIn mark before

theorem StandsBehind.leadsIn_take {mark : Char} {t : Text} {found : Nat × Text}
    (h : StandsBehind mark t found) : LeadsIn mark (t.take found.1) := by
  obtain ⟨before, behind, rfl, hplace, hlead⟩ := h
  rwa [← hplace, List.take_left]

/-- Inline targets stand behind a parenthesis. -/
theorem standsBehind_of_mem_inlineTargets {t : Text} {found : Nat × Text}
    (h : found ∈ inlineTargets t) : StandsBehind '(' t found := by
  obtain ⟨⟨n, k, target⟩, hfound, rfl⟩ := List.mem_map.1 h
  obtain ⟨passed, s, rest, rfl, hplace, hread⟩ :=
    Construct.exists_append_of_mem_occurrences inlineLink_leavesSuffix hfound
  obtain ⟨before, behind, rfl, hlength, hlead⟩ := exists_append_of_readInline? hread
  refine ⟨passed ++ before, behind ++ rest, by simp, ?_, hlead.append_left passed⟩
  simp only [List.length_append] at hplace ⊢
  omega

/-- Targets of definitions stand behind a colon. -/
theorem standsBehind_of_mem_definitionTargets {t : Text} {found : Nat × Text}
    (h : found ∈ definitionTargets t) : StandsBehind ':' t found := by
  obtain ⟨⟨n, line⟩, hline, hfound⟩ := List.mem_filterMap.1 h
  obtain ⟨⟨k, target⟩, hread, rfl⟩ := Option.map_eq_some_iff.1 hfound
  obtain ⟨passed, rest, hjoin, hplace⟩ := exists_append_of_mem_placedLines hline
  obtain ⟨before, behind, rfl, hlength, hlead⟩ := exists_append_of_definition? hread
  rw [Text.joinWith_splitOn] at hjoin
  refine ⟨passed ++ before, behind ++ rest, by rw [hjoin]; simp, ?_, hlead.append_left passed⟩
  simp only [List.length_append] at hplace ⊢
  omega

/-- Every target of a text without code stands where its place says. -/
theorem exists_append_of_mem_placedTargets {t : Text} {found : Nat × Text}
    (h : found ∈ placedTargets t) :
    ∃ before behind, t = before ++ (found.2 ++ behind) ∧ before.length = found.1 := by
  rcases List.mem_merge.1 h with hinline | hdefinition
  · obtain ⟨before, behind, ht, hplace, _⟩ := standsBehind_of_mem_inlineTargets hinline
    exact ⟨before, behind, ht, hplace⟩
  · obtain ⟨before, behind, ht, hplace, _⟩ := standsBehind_of_mem_definitionTargets hdefinition
    exact ⟨before, behind, ht, hplace⟩

/-- A parenthesis and a colon do not stand in one place. -/
theorem place_ne {t : Text} {inline definition : Nat × Text} (hinline : inline ∈ inlineTargets t)
    (hdefinition : definition ∈ definitionTargets t) : inline.1 ≠ definition.1 := by
  intro he
  have hcolon := (standsBehind_of_mem_definitionTargets hdefinition).leadsIn_take
  rw [← he] at hcolon
  have hparenthesis := (standsBehind_of_mem_inlineTargets hinline).leadsIn_take
  exact absurd (hparenthesis.eq hcolon rfl rfl) (by decide)

/-! ### The order of one search -/

/-- Places within what is read ascend from one reading to the next, if none of them lies at the
start of its reading. -/
theorem Construct.pairwise_occurrences {α : Type} {k : Construct α} (hk : k.LeavesSuffix)
    {offset : α → Nat} (hoffset : ∀ {t : Text} {a : α} {rest : Text}, k.read? t = some (a, rest) →
      0 < offset a ∧ offset a + rest.length ≤ t.length) (n : Nat) (t : Text) :
    (k.occurrences n t).Pairwise fun a b => a.1 + offset a.2 < b.1 + offset b.2 := by
  fun_induction Construct.occurrences k n t with
  | case1 n t a rest hread ih =>
      refine List.pairwise_cons.2 ⟨fun later hlater => ?_, ih⟩
      obtain ⟨passed, s, behind, _, hplace, hlater⟩ :=
        Construct.exists_append_of_mem_occurrences hk hlater
      have hwithin := (hoffset hread).2
      have hpositive := (hoffset hlater).1
      dsimp only
      omega
  | case2 => exact List.Pairwise.nil
  | case3 n c t hread ih => exact ih

theorem pairwise_inlineTargets (t : Text) :
    (inlineTargets t).Pairwise fun a b => a.1 < b.1 := by
  refine List.pairwise_map.2 (Construct.pairwise_occurrences inlineLink_leavesSuffix ?_ 0 t)
  rintro s ⟨k, target⟩ rest hread
  obtain ⟨before, behind, rfl, rfl, opening, gap, _, rfl⟩ := exists_append_of_readInline? hread
  simp only [List.length_append, List.length_cons]
  omega

theorem le_of_mem_placedLines {lines : List Text} {n : Nat} {placed : Nat × Text}
    (h : placed ∈ placedLines n lines) : n ≤ placed.1 := by
  obtain ⟨before, _, _, hplace⟩ := exists_append_of_mem_placedLines h
  omega

/-- Each line ends before the next one starts. -/
theorem pairwise_placedLines (n : Nat) (lines : List Text) :
    (placedLines n lines).Pairwise fun a b => a.1 + a.2.length < b.1 := by
  induction lines generalizing n with
  | nil => exact List.Pairwise.nil
  | cons line lines ih =>
      refine List.pairwise_cons.2 ⟨fun later hlater => ?_, ih _⟩
      exact Nat.lt_of_succ_le (le_of_mem_placedLines hlater)

theorem pairwise_definitionTargets (t : Text) :
    (definitionTargets t).Pairwise fun a b => a.1 < b.1 := by
  refine (pairwise_placedLines 0 (Text.splitOn '\n' t)).filterMap _ ?_
  rintro ⟨n, line⟩ ⟨m, later⟩ hlines found hfound other hother
  obtain ⟨⟨k, target⟩, hread, rfl⟩ := Option.map_eq_some_iff.1 hfound
  obtain ⟨⟨l, _⟩, _, rfl⟩ := Option.map_eq_some_iff.1 hother
  obtain ⟨before, behind, rfl, rfl, _⟩ := exists_append_of_definition? hread
  simp only [List.length_append] at hlines ⊢
  omega

/-! ### The order of both -/

theorem nodup_map_of_pairwise_lt {found : List (Nat × Text)}
    (h : found.Pairwise fun a b => a.1 < b.1) : (found.map (·.1)).Nodup :=
  List.pairwise_map.2 (h.imp Nat.ne_of_lt)

/-- No place is found twice, be it by one search or by both. -/
theorem nodup_places (t : Text) : ((inlineTargets t ++ definitionTargets t).map (·.1)).Nodup := by
  rw [List.map_append, List.nodup_append]
  refine ⟨nodup_map_of_pairwise_lt (pairwise_inlineTargets t),
    nodup_map_of_pairwise_lt (pairwise_definitionTargets t), ?_⟩
  intro place hplace other hother
  obtain ⟨inline, hinline, rfl⟩ := List.mem_map.1 hplace
  obtain ⟨definition, hdefinition, rfl⟩ := List.mem_map.1 hother
  exact place_ne hinline hdefinition

/-- Targets in the order of their places. -/
def InPlaceOrder (found : List (Nat × Text)) : Prop := found.Pairwise fun a b => a.1 ≤ b.1

/-- Where no place occurs twice, the order of the places is strict. -/
theorem InPlaceOrder.strict {found : List (Nat × Text)} (h : InPlaceOrder found)
    (hnodup : (found.map (·.1)).Nodup) : found.Pairwise fun a b => a.1 < b.1 :=
  (h.and (List.pairwise_map.1 hnodup)).imp fun hab => Nat.lt_of_le_of_ne hab.1 hab.2

theorem placeLe_trans (a b c : Nat × Text) (hab : decide (a.1 ≤ b.1) = true)
    (hbc : decide (b.1 ≤ c.1) = true) : decide (a.1 ≤ c.1) = true := by
  rw [decide_eq_true_eq] at *
  exact Nat.le_trans hab hbc

theorem placeLe_total (a b : Nat × Text) : (decide (a.1 ≤ b.1) || decide (b.1 ≤ a.1)) = true := by
  rw [Bool.or_eq_true, decide_eq_true_eq, decide_eq_true_eq]
  exact Nat.le_total a.1 b.1

theorem placedTargets_perm (t : Text) :
    (placedTargets t).Perm (inlineTargets t ++ definitionTargets t) :=
  List.merge_perm_append _

theorem inPlaceOrder_placedTargets (t : Text) : InPlaceOrder (placedTargets t) := by
  have hle : ∀ {found : List (Nat × Text)}, (found.Pairwise fun a b => a.1 < b.1) →
      found.Pairwise fun a b => decide (a.1 ≤ b.1) = true :=
    fun h => h.imp fun hab => decide_eq_true (Nat.le_of_lt hab)
  have hmerge : (placedTargets t).Pairwise fun a b => decide (a.1 ≤ b.1) = true :=
    List.pairwise_merge placeLe_trans placeLe_total _ _ (hle (pairwise_inlineTargets t))
      (hle (pairwise_definitionTargets t))
  exact hmerge.imp of_decide_eq_true

/-- Any way to sort the targets gives the same list. -/
theorem eq_placedTargets {t : Text} {sorted : List (Nat × Text)}
    (hperm : sorted.Perm (inlineTargets t ++ definitionTargets t)) (h : InPlaceOrder sorted) :
    sorted = placedTargets t := by
  have hplaces := nodup_places t
  have hsorted := h.strict ((hperm.map (·.1)).nodup_iff.2 hplaces)
  have hplaced := (inPlaceOrder_placedTargets t).strict
    (((placedTargets_perm t).map (·.1)).nodup_iff.2 hplaces)
  refine (hperm.trans (placedTargets_perm t).symm).eq_of_pairwise ?_ hsorted hplaced
  intro a b _ _ hab hba
  exact absurd hab (Nat.lt_asymm hba)

/-- Targets sorted by their places. -/
def sortByPlace (found : List (Nat × Text)) : List (Nat × Text) :=
  found.mergeSort fun a b => a.1 ≤ b.1

theorem inPlaceOrder_sortByPlace (found : List (Nat × Text)) :
    InPlaceOrder (sortByPlace found) := by
  have hsorted : (sortByPlace found).Pairwise fun a b => decide (a.1 ≤ b.1) = true :=
    List.pairwise_mergeSort placeLe_trans placeLe_total found
  exact hsorted.imp of_decide_eq_true

/-- The links that targets make, in their order.  An empty target makes none. -/
def linksOf (marker : Text) (found : List (Nat × Text)) : List Link :=
  ((found.map (·.2)).filter fun target => target ≠ []).map (Link.ofTarget marker)

/-- **Links in the order of their places.**  The targets of a body that the search for inline links
and the search for definitions find stand, each at its place, in what is left of the body without
its code.  All these places are different.  So there is one order of the places, it is strict, and
whichever targets are collected first, the links of the body are those of the targets in this
order. -/
theorem links_inPlaceOrder (marker body : Text) :
    let left := stripCode body
    let inline := inlineTargets left
    let definitions := definitionTargets left
    (∀ found ∈ inline ++ definitions,
        ∃ before behind, left = before ++ (found.2 ++ behind) ∧ before.length = found.1)
      ∧ ((inline ++ definitions).map (·.1)).Nodup
      ∧ ((sortByPlace (inline ++ definitions)).Pairwise fun a b => a.1 < b.1)
      ∧ (∀ sorted : List (Nat × Text), sorted.Perm (inline ++ definitions) → InPlaceOrder sorted →
        links marker body = linksOf marker sorted)
      ∧ links marker body = linksOf marker (sortByPlace (inline ++ definitions))
      ∧ links marker body = linksOf marker (sortByPlace (definitions ++ inline)) := by
  intro left inline definitions
  have hsorted : ∀ sorted : List (Nat × Text), sorted.Perm (inline ++ definitions) →
      InPlaceOrder sorted → links marker body = linksOf marker sorted := by
    intro sorted hperm horder
    rw [eq_placedTargets hperm horder]
    rfl
  have hperm : (sortByPlace (inline ++ definitions)).Perm (inline ++ definitions) :=
    List.mergeSort_perm _ _
  have hswapped : (sortByPlace (definitions ++ inline)).Perm (inline ++ definitions) :=
    (List.mergeSort_perm _ _).trans List.perm_append_comm
  refine ⟨fun found hfound => ?_, nodup_places left, ?_, hsorted,
    hsorted _ hperm (inPlaceOrder_sortByPlace _), hsorted _ hswapped (inPlaceOrder_sortByPlace _)⟩
  · exact exists_append_of_mem_placedTargets ((placedTargets_perm left).mem_iff.2 hfound)
  · exact (inPlaceOrder_sortByPlace _).strict ((hperm.map (·.1)).nodup_iff.2 (nodup_places left))

/-- A body in which an inline link stands within a definition, another one goes on over a
definition, and one has an empty target. -/
def overlappingBody : Text := text "[a]: x](y)\n[b](\n[c]: (d))[e](<>)"

theorem links_inPlaceOrder_overlappingBody :
    inlineTargets (stripCode overlappingBody)
        = [(8, text "y"), (16, text "[c]:"), (30, [])]
      ∧ definitionTargets (stripCode overlappingBody)
        = [(5, text "x](y)"), (21, text "(d))[e](<>)")]
      ∧ (∃ before behind, stripCode overlappingBody = before ++ (text "y" ++ behind)
        ∧ before.length = 8)
      ∧ links (text "/docs/") overlappingBody
        = [text "x](y)", text "y", text "[c]:", text "(d))[e](<>)"].map
          (Link.ofTarget (text "/docs/")) := by
  have hinline : inlineTargets (stripCode overlappingBody)
      = [(8, text "y"), (16, text "[c]:"), (30, [])] := by
    decide +kernel
  have hdefinitions : definitionTargets (stripCode overlappingBody)
      = [(5, text "x](y)"), (21, text "(d))[e](<>)")] := by
    decide +kernel
  obtain ⟨hstands, _, _, hsorted, _⟩ := links_inPlaceOrder (text "/docs/") overlappingBody
  rw [hinline, hdefinitions] at hstands hsorted
  refine ⟨hinline, hdefinitions, hstands (8, text "y") (by decide), ?_⟩
  exact hsorted [(5, text "x](y)"), (8, text "y"), (16, text "[c]:"), (21, text "(d))[e](<>)"),
    (30, [])] (by decide) (by unfold InPlaceOrder; decide)

end Markdown

end DocAudit
