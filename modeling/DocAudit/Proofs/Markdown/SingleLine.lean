import DocAudit.Markdown.Heading
import DocAudit.Proofs.Markdown.Located
import Mathlib.Data.List.TakeWhile

/-!
# What stays within a line

A target between angle brackets excludes line feeds, any other target excludes
white space, and headings are read line by line.  Whatever is taken from a body
to be shown to its author is therefore a part of one line.

**Results.**
* `exists_read?_of_mem_occurrences`: what a search finds was read somewhere.
* `newline_notMem_of_mem_targets`: no target has a line feed.
* `newline_notMem_of_mem_headings`: no heading has a line feed.
-/

namespace DocAudit

namespace Text

theorem notMem_takeWhile {p : Char → Bool} {c : Char} (h : p c = false) (t : Text) :
    c ∉ t.takeWhile p := by
  intro hc
  rw [List.mem_takeWhile_imp hc] at h
  cases h

/-- What is read between delimiters has no character that cannot stand there. -/
theorem notMem_of_readDelimited? {opening closing : Char} {inner : Char → Bool} {t run rest : Text}
    (h : readDelimited? opening closing inner t = some (run, rest)) {c : Char}
    (hc : inner c = false) : c ∉ run := by
  intro hm
  rw [List.all_eq_true.1 (all_of_readDelimited? h) c hm] at hc
  cases hc

end Text

namespace Markdown

/-- What a search finds was read somewhere. -/
theorem Construct.exists_read?_of_mem_occurrences {α : Type} {k : Construct α} {n : Nat} {t : Text}
    {found : Nat × α} (h : found ∈ k.occurrences n t) :
    ∃ s rest, k.read? s = some (found.2, rest) := by
  fun_induction Construct.occurrences k n t with
  | case1 n t a rest hread ih =>
      rcases List.mem_cons.1 h with rfl | hlater
      · exact ⟨t, rest, hread⟩
      · exact ih hlater
  | case2 => cases h
  | case3 n c t hread ih => exact ih h

/-! ### Targets -/

theorem newline_notMem_bareRun (t : Text) : '\n' ∉ (bareRun t).1 := by
  fun_induction bareRun t with
  | case1 t group rest h run ih =>
      have hgroup : '\n' ∉ group := Text.notMem_of_readDelimited? h rfl
      simp only [List.mem_cons, List.mem_append, not_or]
      exact ⟨by decide, hgroup, by decide, ih⟩
  | case2 => exact List.not_mem_nil
  | case3 c t h hc run ih =>
      rw [List.mem_cons, not_or]
      refine ⟨?_, ih⟩
      rintro rfl
      cases hc
  | case4 => exact List.not_mem_nil

/-- The target of an inline link has no line feed. -/
theorem newline_notMem_of_readInline? {t target rest : Text} {k : Nat}
    (h : readInline? t = some ((k, target), rest)) : '\n' ∉ target := by
  unfold readInline? at h
  split at h
  · cases h
  · rename_i inner _
    simp only at h
    split at h
    · rename_i found r hangled
      obtain ⟨_, _, he⟩ := Option.map_eq_some_iff.1 h
      cases he
      exact Text.notMem_of_readDelimited? hangled rfl
    · split at h
      · rename_i found r hbare
        obtain ⟨_, _, he⟩ := Option.map_eq_some_iff.1 h
        cases he
        unfold readBare? at hbare
        split at hbare
        · cases hbare
        · have hrun := newline_notMem_bareRun (inner.dropWhile Text.isSpace)
          rw [Option.some.inj hbare] at hrun
          exact hrun
      · cases h

/-- The target of a reference definition has no line feed. -/
theorem newline_notMem_of_definition? {line target : Text} {k : Nat}
    (h : definition? line = some (k, target)) : '\n' ∉ target := by
  unfold definition? at h
  simp only at h
  split at h
  · cases h
  · split at h
    · split at h
      · cases h
      · split at h
        · cases h
        · split at h
          · rename_i found r hangled
            cases h
            exact Text.notMem_of_readDelimited? hangled rfl
          · split at h
            · cases h
            · cases h
              exact Text.notMem_takeWhile rfl _
    · cases h

/-- No target of a body has a line feed. -/
theorem newline_notMem_of_mem_targets {body target : Text} (h : target ∈ targets body) :
    '\n' ∉ target := by
  obtain ⟨⟨n, t⟩, hplaced, rfl⟩ := List.mem_map.1 (List.mem_filter.1 h).1
  rcases List.mem_merge.1 hplaced with hinline | hdefinition
  · obtain ⟨⟨m, k, found⟩, hfound, he⟩ := List.mem_map.1 hinline
    obtain ⟨s, rest, hread⟩ := Construct.exists_read?_of_mem_occurrences hfound
    cases he
    exact newline_notMem_of_readInline? hread
  · obtain ⟨⟨m, line⟩, _, hline⟩ := List.mem_filterMap.1 hdefinition
    obtain ⟨⟨k, found⟩, hfound, he⟩ := Option.map_eq_some_iff.1 hline
    cases he
    exact newline_notMem_of_definition? hfound

/-! ### Headings -/

/-- The heading that a line is has no other characters than the line. -/
theorem subset_of_heading? {line heading : Text} (h : heading? line = some heading) :
    heading ⊆ line := by
  unfold heading? at h
  split at h
  · rename_i t
    simp only at h
    split at h
    · cases h
    · cases h
      intro c hc
      have hmem := (List.dropWhile_sublist _).mem (List.mem_reverse.1 hc)
      rcases List.mem_cons.1 (List.mem_reverse.1 hmem) with rfl | hrun
      · exact List.mem_cons_self
      · exact List.mem_cons_of_mem _ (List.takeWhile_subset _ hrun)
  · cases h

/-- No top level heading of a body has a line feed. -/
theorem newline_notMem_of_mem_headings {body heading : Text} (h : heading ∈ headings body) :
    '\n' ∉ heading := by
  obtain ⟨line, hline, hheading⟩ := List.mem_filterMap.1 h
  exact fun hm => Text.notMem_of_mem_splitOn hline (subset_of_heading? hheading hm)

end Markdown

end DocAudit
