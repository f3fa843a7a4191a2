import DocAudit.Document
import DocAudit.Proofs.Text.Offset

/-!
# The body of a document

A document does not keep its body.  It keeps the offset at which the body starts
in the content, and finds the body again by cutting the content there.  What is
cut off as the body is an end of the content, so that the offset falls between
two characters and the cut gives the same text again.  Everything that is known
of the cut is therefore known of the body.

**Results.**
* `suffix_split`: what is cut off as the body is an end of the content.
* `body_eq`: the body of a document is what is cut off as it.
* `drop_bodyStart`: behind the offset of the body stand the octets of the body.
-/

namespace DocAudit

namespace FrontMatter

/-- Only one byte order mark is taken off. -/
theorem withoutMark_cases (content : Text) :
    content = Yaml.byteOrderMark :: withoutMark content ∨
      withoutMark content = content ∧ content.head? ≠ some Yaml.byteOrderMark := by
  rw [withoutMark]
  cases hafter : Text.after? [Yaml.byteOrderMark] content with
  | some rest => exact .inl ((Text.after?_eq_some_iff _ _ _).1 hafter)
  | none =>
      refine .inr ⟨rfl, fun hhead => ?_⟩
      obtain ⟨rest, hcontent⟩ := List.head?_eq_some_iff.1 hhead
      rw [(Text.after?_eq_some_iff _ _ rest).2 hcontent] at hafter
      cases hafter

theorem suffix_withoutMark (content : Text) : withoutMark content <:+ content := by
  rcases withoutMark_cases content with hmark | ⟨hwhole, -⟩
  · exact ⟨[Yaml.byteOrderMark], hmark.symm⟩
  · exact ⟨[], hwhole⟩

theorem suffix_of_untilClosed? {ls : List Text} {raw body : Text}
    (h : untilClosed? ls = some (raw, body)) : body <:+ ls.flatten := by
  induction ls generalizing raw with
  | nil => cases h
  | cons line ls ih =>
      rw [untilClosed?] at h
      rw [List.flatten_cons]
      split at h
      · cases h
        exact List.suffix_append line _
      · obtain ⟨⟨inner, after⟩, hrest, he⟩ := Option.map_eq_some_iff.1 h
        cases he
        exact (ih hrest).trans (List.suffix_append line _)

theorem suffix_of_delimit? {t raw body : Text} (h : delimit? t = some (raw, body)) :
    body <:+ t := by
  unfold delimit? at h
  split at h
  · cases h
  · rename_i opening rest hlines
    split at h
    · have hbody := suffix_of_untilClosed? h
      rw [← Text.flatten_lines t, hlines, List.flatten_cons]
      exact hbody.trans (List.suffix_append opening _)
    · cases h

/-- What is cut off as the body is an end of the content. -/
theorem suffix_split (content : Text) : (split content).body <:+ content := by
  unfold split
  dsimp only
  split
  · exact suffix_withoutMark content
  · rename_i raw body hdelimit
    exact (suffix_of_delimit? hdelimit).trans (suffix_withoutMark content)

end FrontMatter

namespace Document

/-- What stands in the content before the offset of the body. -/
theorem exists_front (document : Document) :
    ∃ front, document.content = front ++ (FrontMatter.split document.content).body ∧
      Text.octetCount front = document.bodyStart := by
  obtain ⟨front, hfront⟩ := FrontMatter.suffix_split document.content
  have hcount : Text.octetCount document.content
      = Text.octetCount front + Text.octetCount (FrontMatter.split document.content).body := by
    rw [← Text.octetCount_append, hfront]
  refine ⟨front, hfront.symm, ?_⟩
  rw [bodyStart]
  omega

/-- The body of a document is what is cut off as it. -/
theorem body_eq (document : Document) :
    document.body = (FrontMatter.split document.content).body := by
  obtain ⟨front, hfront, hcount⟩ := document.exists_front
  have hslice : Text.sliceFrom? document.content document.bodyStart
      = some (FrontMatter.split document.content).body :=
    Text.sliceFrom?_eq_some_iff.2 ⟨front, hfront, hcount⟩
  rw [body, hslice]
  rfl

/-- Behind the offset of the body stand the octets of the body. -/
theorem drop_bodyStart (document : Document) :
    (Utf8.encode document.content).drop document.bodyStart = Utf8.encode document.body := by
  obtain ⟨front, hfront, hcount⟩ := document.exists_front
  rw [body_eq, hfront, Utf8.encode_append, List.drop_left' hcount, ← hfront]

end Document

end DocAudit
