import DocAudit.Proofs.Markdown.Extraction
import DocAudit.Proofs.Markdown.Fences
import DocAudit.Proofs.Markdown.Leaves
import DocAudit.Proofs.Markdown.SingleLine
import DocAudit.Proofs.Markdown.TargetPlaces

/-!
# Targets across code

Code is taken out of a body before the body is searched for targets, and the
texts on both sides of it come together there.  A target is a part of what is
left.  In the body it therefore stands as it is, or it is interrupted by code:
its first part stands there, then code, then a text that the rest of the target
is left of.

A part of what is left comes from a part of the text, and what is left after two
rounds is left after one round that takes out the pieces of both.

**Results.**
* `leaves_stripCode`: what is left of a body is the body without pieces of code.
* `links_asWritten`: how targets stand in the body.
* `target_not_infix_of_span`: a target that does not stand in its body.
-/

namespace DocAudit

namespace Markdown

/-! ### Code -/

/-- Fenced code, its fences included. -/
def IsFenced (t : Text) : Prop := ∃ c inner, IsFenceless inner ∧ t = fence ++ c :: (inner ++ fence)

/-- A code span, its backticks included. -/
def IsSpan (t : Text) : Prop :=
  ∃ inner, inner ≠ [] ∧ (∀ c ∈ inner, isSpanChar c = true) ∧ t = tick :: (inner ++ [tick])

/-- A piece of code in a body: fenced code, or what is a code span without the fenced code in it. -/
def IsCode (t : Text) : Prop := IsFenced t ∨ ∃ s, IsSpan s ∧ Leaves IsFenced t s

theorem exists_isFenced_of_read? {t rest : Text} {a : Unit} (h : fenced.read? t = some (a, rest)) :
    ∃ piece, IsFenced piece ∧ t = piece ++ rest := by
  obtain ⟨c, inner, hinner, rfl⟩ := fenced_read?_eq_some_iff.1 h
  exact ⟨_, ⟨c, inner, hinner, rfl⟩, rfl⟩

theorem exists_isSpan_of_read? {t rest : Text} {a : Unit} (h : span.read? t = some (a, rest)) :
    ∃ piece, IsSpan piece ∧ t = piece ++ rest := by
  rw [span_read?, readSpan?] at h
  split at h
  · rename_i c run behind hread
    cases h
    refine ⟨tick :: (c :: run ++ [tick]), ⟨c :: run, List.cons_ne_nil c run, ?_, rfl⟩, ?_⟩
    · exact List.all_eq_true.1 (Text.all_of_readDelimited? hread)
    · rw [Text.eq_of_readDelimited? hread]
      simp
  · cases h

/-- What is left of a body without its code is the body without pieces of code. -/
theorem leaves_stripCode (body : Text) : Leaves IsCode body (stripCode body) :=
  (leaves_erase exists_isFenced_of_read? body).trans
    (leaves_erase exists_isSpan_of_read? (stripFenced body))

/-! ### Interrupted texts -/

/-- A text is the interrupted form of another one if it starts with the first part of the other one,
goes on with a piece of a kind, and leaves the second part behind that piece. -/
def IsInterrupted (IsTaken : Text → Prop) (t s : Text) : Prop :=
  ∃ first piece rest second, first ≠ [] ∧ second ≠ [] ∧ IsTaken piece
    ∧ s = first ++ second ∧ t = first ++ (piece ++ rest) ∧ Leaves IsTaken rest second

/-- A text that is left of another one stands in it as it is, or it is interrupted. -/
theorem Leaves.exists_written {P : Text → Prop} {t s : Text} (h : Leaves P t s) (hne : s ≠ []) :
    ∃ gap written behind, t = gap ++ (written ++ behind) ∧ Leaves P gap []
      ∧ (written = s ∨ IsInterrupted P written s) := by
  obtain ⟨c, s, rfl⟩ := List.exists_cons_of_ne_nil hne
  obtain ⟨gap, rest, rfl, hgap, hrest⟩ := h.exists_cons
  rcases hrest.exists_first with rfl | ⟨first, piece, rest, second, hpiece, hsecond, rfl, rfl⟩
  · exact ⟨gap, c :: rest, [], by simp, hgap, Or.inl rfl⟩
  · by_cases hnil : second = []
    · -- What is taken out then stands behind the text, not within it.
      exact ⟨gap, c :: first, piece ++ rest, by simp, hgap, Or.inl (by rw [hnil]; simp)⟩
    · exact ⟨gap, c :: (first ++ (piece ++ rest)), [], by simp, hgap,
        Or.inr ⟨c :: first, piece, rest, second, List.cons_ne_nil c first, hnil, hpiece, rfl, rfl,
          hsecond⟩⟩

/-- Every target of a body stands in it, behind a text that what precedes the target is left of. -/
theorem exists_written_of_mem_placedTargets {body : Text} {found : Nat × Text}
    (h : found ∈ placedTargets (stripCode body)) (hne : found.2 ≠ []) :
    ∃ before written behind, body = before ++ (written ++ behind)
      ∧ Leaves IsCode before ((stripCode body).take found.1)
      ∧ (written = found.2 ∨ IsInterrupted IsCode written found.2) := by
  obtain ⟨passed, behind, hstripped, hplace⟩ := exists_append_of_mem_placedTargets h
  have hbody := leaves_stripCode body
  rw [← hplace, hstripped, List.take_left]
  rw [hstripped] at hbody
  obtain ⟨u, v, rfl, hu, hv⟩ := hbody.exists_append
  obtain ⟨part, rest, rfl, hpart, _⟩ := hv.exists_append
  obtain ⟨gap, written, ending, rfl, hgap, hwritten⟩ := hpart.exists_written hne
  refine ⟨u ++ gap, written, ending ++ rest, by simp, ?_, hwritten⟩
  have hbefore := hu.append hgap
  rwa [List.append_nil] at hbefore

/-! ### Code within targets -/

/-- A text without backticks stays as it is when code behind it is erased. -/
theorem stripCode_append {before : Text} (hbefore : tick ∉ before) (t : Text) :
    stripCode (before ++ t) = before ++ stripCode t := by
  rw [stripCode, stripFenced, Construct.erase_append fenced_opensWith hbefore,
    Construct.erase_append span_opensWith hbefore, stripCode, stripFenced]

/-- Fenced code is taken out before a text without backticks. -/
theorem stripCode_fenced {piece behind : Text} (hpiece : IsFenced piece) (hbehind : tick ∉ behind) :
    stripCode (piece ++ behind) = behind := by
  have hread : fenced.read? (piece ++ behind) = some ((), behind) := by
    obtain ⟨c, inner, hinner, rfl⟩ := hpiece
    exact fenced_read?_eq_some_iff.2 ⟨c, inner, hinner, rfl⟩
  have hrest := stripCode_of_notMem hbehind
  rw [stripCode, stripFenced] at hrest ⊢
  rw [Construct.erase_of_read? hread, hrest]

/-- A code span is taken out before a text without backticks. -/
theorem stripCode_span {piece behind : Text} (hpiece : IsSpan piece) (hbehind : tick ∉ behind) :
    stripCode (piece ++ behind) = behind := by
  obtain ⟨code, hne, hcode, rfl⟩ := hpiece
  have hfence : stripFenced behind = behind :=
    stripFenced_of_not_infix fun h => hbehind (h.subset List.mem_cons_self)
  have hrest : ∀ t, behind ≠ tick :: tick :: t := by
    rintro t rfl
    exact hbehind List.mem_cons_self
  have hstripped := Piece.erase_fenced_span ⟨hne, hcode⟩ hrest
  have hread := readSpan?_write hne hcode behind
  have herased := Construct.erase_append span_opensWith hbehind []
  rw [List.append_nil, Construct.erase_nil, List.append_nil] at herased
  rw [stripFenced] at hfence
  rw [hfence, Piece.write, List.cons_append, List.append_assoc, List.singleton_append] at hstripped
  rw [stripCode, stripFenced, List.cons_append, List.append_assoc, List.singleton_append,
    hstripped, Construct.erase_of_read? hread, herased]

/-- Wherever code stands within a bare target, the parts before and behind it are one target. -/
theorem links_loneLink_code {label first piece second : Text}
    (hlabel : ∀ c ∈ label, c ≠ tick ∧ c ≠ ']') (hne : first ++ second ≠ [])
    (hbare : ∀ c ∈ first ++ second, isBareChar c = true ∧ c ≠ tick)
    (hpiece : IsSpan piece ∨ IsFenced piece) (marker : Text) :
    links marker (loneLink label (first ++ piece ++ second))
      = [Link.ofTarget marker (first ++ second)] := by
  have hfirst : tick ∉ '[' :: (label ++ text "](" ++ first) := by
    simp only [List.mem_cons, List.mem_append, not_or]
    exact ⟨by decide, ⟨fun hm => (hlabel _ hm).1 rfl, by decide⟩,
      fun hm => (hbare _ (List.mem_append_left second hm)).2 rfl⟩
  have hsecond : tick ∉ second ++ [')'] := by
    simp only [List.mem_append, List.mem_singleton, not_or]
    exact ⟨fun hm => (hbare _ (List.mem_append_right first hm)).2 rfl, by decide⟩
  have hwritten : loneLink label (first ++ piece ++ second)
      = '[' :: (label ++ text "](" ++ first) ++ (piece ++ (second ++ [')'])) := by
    simp [loneLink]
  have hleft : loneLink label (first ++ second)
      = '[' :: (label ++ text "](" ++ first) ++ (second ++ [')']) := by
    simp [loneLink]
  have hbehind : stripCode (piece ++ (second ++ [')'])) = second ++ [')'] :=
    hpiece.elim (fun h => stripCode_span h hsecond) fun h => stripCode_fenced h hsecond
  have hstripped : stripCode (loneLink label (first ++ piece ++ second))
      = stripCode (loneLink label (first ++ second)) := by
    rw [hwritten, hleft, stripCode_append hfirst, stripCode_append hfirst, hbehind,
      stripCode_of_notMem hsecond]
  rw [← links_loneLink hlabel hne hbare marker, links_congr_stripCode marker hstripped]

/-- **How targets stand in the body.**  Every target of a body stands in it as it is, or it is
interrupted: the body has the first part of the target, then a piece of code, and then a text that
leaves the second part without its pieces of code.  No target holds a line feed, so that code at the
start of a line interrupts none.  But the second case is no exception of certain bodies: it comes
with every piece of code within a bare target. -/
theorem links_asWritten (marker : Text) :
    (∀ body, ∀ link ∈ links marker body,
        '\n' ∉ link.target
          ∧ ∃ before written behind, body = before ++ (written ++ behind)
            ∧ (written = link.target ∨ IsInterrupted IsCode written link.target))
      ∧ ∀ label first piece second : Text, (∀ c ∈ label, c ≠ tick ∧ c ≠ ']') →
        first ++ second ≠ [] → (∀ c ∈ first ++ second, isBareChar c = true ∧ c ≠ tick) →
        IsSpan piece ∨ IsFenced piece →
        links marker (loneLink label (first ++ piece ++ second))
          = [Link.ofTarget marker (first ++ second)] := by
  constructor
  · intro body link hlink
    obtain ⟨target, htarget, rfl⟩ := List.mem_map.1 hlink
    obtain ⟨hplaced, hne⟩ := List.mem_filter.1 htarget
    obtain ⟨found, hfound, rfl⟩ := List.mem_map.1 hplaced
    obtain ⟨before, written, behind, hbody, _, hwritten⟩ :=
      exists_written_of_mem_placedTargets hfound (of_decide_eq_true hne)
    exact ⟨newline_notMem_of_mem_targets htarget, before, written, behind, hbody, hwritten⟩
  · intro label first piece second hlabel hne hbare hpiece
    exact links_loneLink_code hlabel hne hbare hpiece marker

/-- A body with a target that a code span interrupts, one that fenced code interrupts, and one that
stands as it is. -/
def mixedBody : Text :=
  text "[x](</e \x60c\x60 f>)\n[r]: a\x60\x60\x60\n[y](z)\n\x60\x60\x60b\n[v](whole)"

theorem isSpan_sample : IsSpan (text "\x60b c\x60") :=
  ⟨text "b c", by decide, by decide, by decide⟩

theorem links_asWritten_mixedBody :
    links (text "/docs/") mixedBody
        = [text "/e  f", text "ab", text "whole"].map (Link.ofTarget (text "/docs/"))
      ∧ (∃ before written behind, mixedBody = before ++ (written ++ behind)
        ∧ (written = text "ab" ∨ IsInterrupted IsCode written (text "ab")))
      ∧ links (text "/docs/") (loneLink (text "x") (text "a" ++ text "\x60b c\x60" ++ text "d"))
        = [Link.ofTarget (text "/docs/") (text "ad")] := by
  obtain ⟨hwritten, hcode⟩ := links_asWritten (text "/docs/")
  have hinline : inlineTargets (stripCode mixedBody) = [(5, text "/e  f"), (25, text "whole")] := by
    decide +kernel
  have hdefinitions : definitionTargets (stripCode mixedBody) = [(18, text "ab")] := by
    decide +kernel
  have hlinks : links (text "/docs/") mixedBody
      = [text "/e  f", text "ab", text "whole"].map (Link.ofTarget (text "/docs/")) := by
    rw [links, targets, placedTargets, hinline, hdefinitions]
    simp
  have hmem : Link.ofTarget (text "/docs/") (text "ab") ∈ links (text "/docs/") mixedBody := by
    rw [hlinks]
    decide
  exact ⟨hlinks, (hwritten mixedBody _ hmem).2,
    hcode (text "x") (text "a") (text "\x60b c\x60") (text "d") (by decide) (by decide)
      (by decide) (Or.inl isSpan_sample)⟩

theorem target_not_infix_of_span :
    links (text "/docs/") (text "[x](a\x60b c\x60d)") = [Link.ofTarget (text "/docs/") (text "ad")]
      ∧ ¬ text "ad" <:+: text "[x](a\x60b c\x60d)" := by
  have hlinks := @links_loneLink_code (text "x") (text "a") (text "\x60b c\x60") (text "d")
    (by decide) (by decide) (by decide) (Or.inl isSpan_sample) (text "/docs/")
  have hbody : loneLink (text "x") (text "a" ++ text "\x60b c\x60" ++ text "d")
      = text "[x](a\x60b c\x60d)" := by
    decide
  have htarget : text "a" ++ text "d" = text "ad" := by decide
  rw [hbody, htarget] at hlinks
  exact ⟨hlinks, by decide +kernel⟩

end Markdown

end DocAudit
