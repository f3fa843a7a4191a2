import DocAudit.Proofs.Markdown.Leaves
import DocAudit.Proofs.Markdown.Search
import Mathlib.Data.List.Infix

/-!
# Markers in a text

Markers that are put into a text can be told from it by their first character,
which stands neither in the text nor later in a marker, and from each other if
none of them is the start of another one.  Whoever looks for some of them then
finds exactly those among them that were put in, and what is left when all of
them are taken out is the text, in whatever order this is done.

**Results.**
* `StandOut.of_head?`: markers with one first character.
* `StandOut.oneOf_read?_append`: a marker is read where it was put.
* `StandOut.leaves_erase`: what is left without some of the markers.
* `StandOut.erase_eq`, `StandOut.foldl_erase_eq`: what is left without any.
-/

namespace DocAudit

namespace Markdown

namespace Construct

/-- One of some texts.  An empty one is never read. -/
def oneOf (texts : List Text) : Construct Text where
  read? t := texts.findSome? fun m => if m = [] then none else (Text.after? m t).map (m, ·)
  shorter := by
    intro t m rest h
    obtain ⟨other, _, hother⟩ := List.exists_of_findSome?_eq_some h
    split at hother
    · cases hother
    · rename_i hne
      obtain ⟨behind, hbehind, he⟩ := Option.map_eq_some_iff.1 hother
      cases he
      have hlength := Text.length_of_after? hbehind
      have hpositive := List.length_pos_iff.2 hne
      omega

theorem exists_of_oneOf_read? {texts : List Text} {t m rest : Text}
    (h : (oneOf texts).read? t = some (m, rest)) : m ∈ texts ∧ t = m ++ rest := by
  obtain ⟨other, hmem, hother⟩ := List.exists_of_findSome?_eq_some h
  split at hother
  · cases hother
  · obtain ⟨behind, hbehind, he⟩ := Option.map_eq_some_iff.1 hother
    cases he
    exact ⟨hmem, (Text.after?_eq_some_iff m t rest).1 hbehind⟩

theorem oneOf_read?_eq_none {texts : List Text} {t : Text}
    (h : ∀ m ∈ texts, m ≠ [] → ¬ m <+: t) : (oneOf texts).read? t = none := by
  refine List.findSome?_eq_none_iff.2 fun m hm => ?_
  split
  · rfl
  · rename_i hne
    rw [Option.map_eq_none_iff, Option.eq_none_iff_forall_ne_some]
    intro rest hrest
    exact h m hm hne ⟨rest, ((Text.after?_eq_some_iff m t rest).1 hrest).symm⟩

/-- Nothing is read at a character that none of the texts starts with. -/
theorem oneOf_read?_cons {texts : List Text} {c : Char} (h : ∀ m ∈ texts, c ∉ m.head?) (t : Text) :
    (oneOf texts).read? (c :: t) = none := by
  refine oneOf_read?_eq_none fun m hm hne hbegins => ?_
  obtain ⟨d, m, rfl⟩ := List.exists_cons_of_ne_nil hne
  obtain ⟨rfl, _⟩ := List.cons_prefix_cons.1 hbegins
  exact h _ hm rfl

theorem oneOf_read?_ne_none {texts : List Text} {m : Text} (hm : m ∈ texts) (hne : m ≠ [])
    (t : Text) : (oneOf texts).read? (m ++ t) ≠ none := by
  intro h
  have hread := List.findSome?_eq_none_iff.1 h m hm
  rw [if_neg hne, Text.after?_append] at hread
  cases hread

end Construct

open Construct

/-- Markers that can be told from a text and from each other. -/
structure StandOut (markers : List Text) (plain : Text) : Prop where
  ne_nil : ∀ m ∈ markers, m ≠ []
  first_notMem : ∀ m ∈ markers, ∀ c ∈ m.head?, c ∉ plain
  first_notMem_tail : ∀ m ∈ markers, ∀ c ∈ m.head?, ∀ other ∈ markers, c ∉ other.tail
  eq_of_prefix : ∀ m ∈ markers, ∀ other ∈ markers, m <+: other → m = other

namespace StandOut

variable {markers chosen : List Text} {plain : Text}

/-- Markers that start with one character, which stands nowhere else. -/
theorem of_head? {c : Char} (hhead : ∀ m ∈ markers, m.head? = some c)
    (htail : ∀ m ∈ markers, c ∉ m.tail)
    (hsame : ∀ m ∈ markers, ∀ other ∈ markers, m <+: other → m = other) (hplain : c ∉ plain) :
    StandOut markers plain where
  ne_nil := by
    rintro m hm rfl
    cases hhead [] hm
  first_notMem := by
    intro m hm d hd
    rw [hhead m hm] at hd
    cases hd
    exact hplain
  first_notMem_tail := by
    intro m hm d hd
    rw [hhead m hm] at hd
    cases hd
    exact htail
  eq_of_prefix := hsame

theorem mono (h : StandOut markers plain) {part : Text} (hpart : part ⊆ plain) :
    StandOut markers part where
  ne_nil := h.ne_nil
  first_notMem := fun m hm c hc hmem => h.first_notMem m hm c hc (hpart hmem)
  first_notMem_tail := h.first_notMem_tail
  eq_of_prefix := h.eq_of_prefix

/-- No marker is read within the text. -/
theorem oneOf_read?_plain (h : StandOut markers plain) (hchosen : chosen ⊆ markers) :
    ∀ c ∈ plain, ∀ t, (oneOf chosen).read? (c :: t) = none :=
  fun c hc t => oneOf_read?_cons
    (fun m hm hfirst => h.first_notMem m (hchosen hm) c hfirst hc) t

/-- Only a marker itself is read where it was put. -/
theorem eq_of_prefix_append (h : StandOut markers plain) {m other t : Text} (hm : m ∈ markers)
    (hother : other ∈ markers) (hbegins : other <+: m ++ t) : other = m := by
  rcases List.prefix_or_prefix_of_prefix hbegins (List.prefix_append m t) with hp | hp
  · exact h.eq_of_prefix other hother m hm hp
  · exact (h.eq_of_prefix m hm other hother hp).symm

/-- A marker is read where it was put. -/
theorem oneOf_read?_append (h : StandOut markers plain) (hchosen : chosen ⊆ markers) {m : Text}
    (hm : m ∈ chosen) (t : Text) : (oneOf chosen).read? (m ++ t) = some (m, t) := by
  obtain ⟨⟨other, rest⟩, hread⟩ := Option.ne_none_iff_exists'.1
    (oneOf_read?_ne_none hm (h.ne_nil m (hchosen hm)) t)
  obtain ⟨hother, he⟩ := exists_of_oneOf_read? hread
  obtain rfl := h.eq_of_prefix_append (hchosen hm) (hchosen hother) ⟨rest, he.symm⟩
  rw [hread, List.append_cancel_left he]

/-- A marker that is not looked for stays. -/
theorem erase_append (h : StandOut markers plain) (hchosen : chosen ⊆ markers) {m : Text}
    (hm : m ∈ markers) (hnot : m ∉ chosen) (t : Text) :
    (oneOf chosen).erase (m ++ t) = m ++ (oneOf chosen).erase t := by
  have hfirst : (oneOf chosen).read? (m ++ t) = none := by
    refine oneOf_read?_eq_none fun other hother _ hbegins => hnot ?_
    rwa [← h.eq_of_prefix_append hm (hchosen hother) hbegins]
  obtain ⟨c, m, rfl⟩ := List.exists_cons_of_ne_nil (h.ne_nil m hm)
  have htail : ∀ d ∈ m, ∀ t, (oneOf chosen).read? (d :: t) = none := by
    intro d hd t
    refine oneOf_read?_cons (fun other hother hd' => ?_) t
    exact h.first_notMem_tail other (hchosen hother) d hd' _ hm hd
  rw [List.cons_append] at hfirst ⊢
  rw [erase_cons_of_read? hfirst, erase_append_of_forall htail, List.cons_append]

/-- When some of the markers are looked for, exactly these are taken out. -/
theorem leaves_erase (h : StandOut markers plain) (hchosen : chosen ⊆ markers)
    {IsPut : Text → Prop} (hput : ∀ m, IsPut m → m ∈ markers) {t : Text}
    (ht : Leaves IsPut t plain) :
    Leaves (fun m => IsPut m ∧ m ∉ chosen) ((oneOf chosen).erase t) plain := by
  induction ht with
  | nil =>
      rw [erase_nil]
      exact .nil
  | keep c _ ih =>
      rw [erase_cons_of_read? (h.oneOf_read?_plain hchosen c List.mem_cons_self _)]
      exact (ih (h.mono (List.subset_cons_self c _))).keep c
  | @take m t s hm _ ih =>
      by_cases hmem : m ∈ chosen
      · rw [erase_of_read? (h.oneOf_read?_append hchosen hmem t)]
        exact ih h
      · rw [h.erase_append hchosen (hput m hm) hmem]
        exact (ih h).take ⟨hm, hmem⟩

/-- The text is left when all markers are taken out. -/
theorem erase_eq (h : StandOut markers plain) {t : Text} (ht : Leaves (· ∈ markers) t plain) :
    (oneOf markers).erase t = plain := by
  have hleft := h.leaves_erase (List.Subset.refl markers) (fun _ hm => hm) ht
  exact hleft.eq_of_forall_not fun m hm => hm.2 hm.1

/-- What is left when markers are taken out one after the other. -/
theorem leaves_foldl_erase (h : StandOut markers plain) {order : List Text}
    (horder : order ⊆ markers) {IsPut : Text → Prop} (hput : ∀ m, IsPut m → m ∈ markers)
    {t : Text} (ht : Leaves IsPut t plain) :
    Leaves (fun m => IsPut m ∧ m ∉ order) (order.foldl (fun t m => (oneOf [m]).erase t) t)
      plain := by
  induction order generalizing t IsPut with
  | nil => exact ht.mono fun m hm => ⟨hm, List.not_mem_nil⟩
  | cons first order ih =>
      obtain ⟨hfirst, hrest⟩ := List.cons_subset.1 horder
      have hone : [first] ⊆ markers := List.cons_subset.2 ⟨hfirst, List.nil_subset markers⟩
      refine (ih hrest (fun m hm => hput m hm.1) (h.leaves_erase hone hput ht)).mono ?_
      rintro m ⟨⟨hm, hne⟩, hnot⟩
      exact ⟨hm, fun hmem => (List.mem_cons.1 hmem).elim
        (fun he => hne (List.mem_singleton.2 he)) hnot⟩

/-- The text is left when all markers are taken out one after the other, in any order. -/
theorem foldl_erase_eq (h : StandOut markers plain) {order : List Text}
    (horder : ∀ m, m ∈ order ↔ m ∈ markers) {t : Text} (ht : Leaves (· ∈ markers) t plain) :
    order.foldl (fun t m => (oneOf [m]).erase t) t = plain := by
  have hleft := h.leaves_foldl_erase (fun m hm => (horder m).1 hm) (fun _ hm => hm) ht
  exact hleft.eq_of_forall_not fun m hm => hm.2 ((horder m).2 hm.1)

end StandOut

end Markdown

end DocAudit
