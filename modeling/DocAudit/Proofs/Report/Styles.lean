import DocAudit.Proofs.Markdown.Marker
import DocAudit.Report

/-!
# Styles of the text form

A style surrounds a text with two markers.  The text form passes its parts
through styles at many places, some of them within a message, but all that a
style adds are its two markers: without them the plain text form is left, and
they stand in pairs, one pair behind the other.

**Results.**
* `styled_render`: the message of a violation.
* `styled_renderText`: the text form of a report.
* `Styled.exists_occurrences`: the markers that a styled text has.
* `wraps_renderText`: what a reader of the styled text form makes out.
-/

namespace DocAudit

open Markdown Markdown.Construct

/-- A style that surrounds a text with markers. -/
structure Style where
  opening : Text
  closing : Text

namespace Style

def surround (style : Style) (t : Text) : Text := style.opening ++ t ++ style.closing

/-- The markers of a style in their order. -/
def markers (style : Style) : List Text := [style.opening, style.closing]

end Style

/-- A style for each kind of part of the text form. -/
structure StyleSheet where
  path : Style
  error : Style
  hint : Style
  success : Style

namespace StyleSheet

def palette (sheet : StyleSheet) : Palette :=
  ⟨sheet.path.surround, sheet.error.surround, sheet.hint.surround, sheet.success.surround⟩

def styles (sheet : StyleSheet) : List Style :=
  [sheet.path, sheet.error, sheet.hint, sheet.success]

def markers (sheet : StyleSheet) : List Text := sheet.styles.flatMap Style.markers

theorem opening_mem_markers {sheet : StyleSheet} {style : Style} (h : style ∈ sheet.styles) :
    style.opening ∈ sheet.markers :=
  List.mem_flatMap.2 ⟨style, h, List.mem_cons_self⟩

theorem closing_mem_markers {sheet : StyleSheet} {style : Style} (h : style ∈ sheet.styles) :
    style.closing ∈ sheet.markers :=
  List.mem_flatMap.2 ⟨style, h, List.mem_cons_of_mem _ List.mem_cons_self⟩

/-- What makes a styled text out of a plain one: some parts of it, one behind the other, are
surrounded. -/
inductive Styled (sheet : StyleSheet) : (styled plain : Text) → Prop
  | nil : Styled sheet [] []
  | keep (c : Char) {styled plain : Text} (rest : Styled sheet styled plain) :
      Styled sheet (c :: styled) (c :: plain)
  | surround {style : Style} (t : Text) {styled plain : Text} (h : style ∈ sheet.styles)
      (rest : Styled sheet styled plain) : Styled sheet (style.surround t ++ styled) (t ++ plain)

namespace Styled

variable {sheet : StyleSheet} {styled plain : Text}

theorem refl (sheet : StyleSheet) (t : Text) : Styled sheet t t := by
  induction t with
  | nil => exact nil
  | cons c _ ih => exact ih.keep c

theorem append (h : Styled sheet styled plain) {styled' plain' : Text}
    (h' : Styled sheet styled' plain') : Styled sheet (styled ++ styled') (plain ++ plain') := by
  induction h with
  | nil => exact h'
  | keep c _ ih => exact ih.keep c
  | surround t hstyle _ ih =>
      rw [List.append_assoc, List.append_assoc]
      exact ih.surround t hstyle

theorem of_mem {style : Style} (h : style ∈ sheet.styles) (t : Text) :
    Styled sheet (style.surround t) t := by
  have hone := Styled.nil.surround t h
  rwa [List.append_nil, List.append_nil] at hone

theorem flatMap {α : Type} {f g : α → Text} (h : ∀ a, Styled sheet (f a) (g a)) (as : List α) :
    Styled sheet (as.flatMap f) (as.flatMap g) := by
  induction as with
  | nil => exact nil
  | cons a as ih => exact (h a).append ih

/-- Without the markers the plain text is left. -/
theorem leaves (h : Styled sheet styled plain) : Leaves (· ∈ sheet.markers) styled plain := by
  induction h with
  | nil => exact .nil
  | keep c _ ih => exact ih.keep c
  | surround t hstyle _ ih =>
      rw [Style.surround, List.append_assoc, List.append_assoc]
      have hclosed := Leaves.take (closing_mem_markers hstyle) ih
      exact Leaves.take (opening_mem_markers hstyle) ((Leaves.refl t).append hclosed)

/-- The markers in a styled text are pairs, each of one style, one behind the other. -/
theorem exists_occurrences (h : Styled sheet styled plain) (hout : StandOut sheet.markers plain) :
    ∃ opened : List Style, (∀ style ∈ opened, style ∈ sheet.styles)
      ∧ ∀ n, ((oneOf sheet.markers).occurrences n styled).map (·.2)
        = opened.flatMap Style.markers := by
  induction h with
  | nil =>
      refine ⟨[], fun _ hm => absurd hm List.not_mem_nil, fun n => ?_⟩
      rw [occurrences_nil]
      rfl
  | @keep c styled plain _ ih =>
      obtain ⟨opened, hopened, hmarkers⟩ := ih (hout.mono (List.subset_cons_self c plain))
      refine ⟨opened, hopened, fun n => ?_⟩
      have hread := hout.oneOf_read?_plain (List.Subset.refl _) c List.mem_cons_self styled
      rw [occurrences_cons_of_read? hread]
      exact hmarkers (n + 1)
  | @surround style t styled plain hstyle _ ih =>
      obtain ⟨opened, hopened, hmarkers⟩ := ih (hout.mono (List.subset_append_right t plain))
      refine ⟨style :: opened, List.forall_mem_cons.2 ⟨hstyle, hopened⟩, fun n => ?_⟩
      have hopening := hout.oneOf_read?_append (List.Subset.refl _) (opening_mem_markers hstyle)
        (t ++ (style.closing ++ styled))
      have hwithin := (hout.mono (List.subset_append_left t plain)).oneOf_read?_plain
        (List.Subset.refl _)
      have hclosing := hout.oneOf_read?_append (List.Subset.refl _) (closing_mem_markers hstyle)
        styled
      rw [Style.surround, List.append_assoc, List.append_assoc, occurrences_of_read? hopening,
        occurrences_append_of_forall hwithin, occurrences_of_read? hclosing, List.map_cons,
        List.map_cons, hmarkers]
      rfl

end Styled

/-- A styled text wraps a plain one: the plain text is left when the markers are taken out, all at
once or one after the other in any order, and every marker that opens is closed by the other marker
of its style before another one opens. -/
structure Wraps (sheet : StyleSheet) (styled plain : Text) : Prop where
  erase_eq : (oneOf sheet.markers).erase styled = plain
  foldl_erase_eq : ∀ order : List Text, (∀ m, m ∈ order ↔ m ∈ sheet.markers) →
    order.foldl (fun t m => (oneOf [m]).erase t) styled = plain
  closes : ∃ opened : List Style, (∀ style ∈ opened, style ∈ sheet.styles)
    ∧ ((oneOf sheet.markers).occurrences 0 styled).map (·.2) = opened.flatMap Style.markers

theorem Styled.wraps {sheet : StyleSheet} {styled plain : Text} (h : Styled sheet styled plain)
    (hout : StandOut sheet.markers plain) : sheet.Wraps styled plain where
  erase_eq := hout.erase_eq h.leaves
  foldl_erase_eq := fun _ horder => hout.foldl_erase_eq horder h.leaves
  closes := by
    obtain ⟨opened, hopened, hmarkers⟩ := h.exists_occurrences hout
    exact ⟨opened, hopened, hmarkers 0⟩

end StyleSheet

open StyleSheet

section

variable (sheet : StyleSheet)

/-- A message in styles is the plain message with some parts surrounded. -/
theorem styled_render (violation : Violation) :
    Styled sheet (violation.render sheet.error.surround sheet.hint.surround)
      (violation.render id id) := by
  have herror : ∀ t, Styled sheet (sheet.error.surround t) t := Styled.of_mem (by simp [styles])
  have hhint : ∀ t, Styled sheet (sheet.hint.surround t) t := Styled.of_mem (by simp [styles])
  have hwords := Styled.refl sheet
  cases violation with
  | upperCasePath => exact hwords _
  | invalidExtension => exact hwords _
  | linkExtension link extension =>
      exact ((((hwords _).append (herror link)).append (hwords _)).append (hwords extension)).append
        (hwords _)
  | deprecatedLead link lead =>
      exact ((((hwords _).append (herror link)).append (hwords _)).append (hwords lead)).append
        (hwords _)
  | linkNotFound link marker =>
      exact ((((hwords _).append (herror link)).append (hwords _)).append (hhint marker)).append
        (hwords _)
  | topLevelHeading heading => exact ((hwords _).append (herror heading)).append (hwords _)
  | missingTitle => exact hwords _

theorem styled_renderFile (file : FileReport) :
    Styled sheet (Report.renderFile sheet.palette file) (Report.renderFile .plain file) := by
  have hpath : ∀ t, Styled sheet (sheet.path.surround t) t := Styled.of_mem (by simp [styles])
  have hwords := Styled.refl sheet
  have hmessages := Styled.flatMap (fun violation =>
    ((hwords (text "    💥 ")).append (styled_render sheet violation)).append (hwords ['\n']))
    file.violations
  exact ((((hwords _).append (hpath _)).append (hwords _)).append hmessages).append (hwords _)

/-- The text form in styles is the plain text form with some parts surrounded. -/
theorem styled_renderText (report : Report) :
    Styled sheet (report.renderText sheet.palette) (report.renderText .plain) := by
  rw [Report.renderText, Report.renderText]
  split
  · have hsuccess : ∀ t, Styled sheet (sheet.success.surround t) t :=
      Styled.of_mem (by simp [styles])
    exact (hsuccess _).append (Styled.refl sheet _)
  · exact Styled.flatMap (styled_renderFile sheet) report.files

theorem wraps_renderText (report : Report)
    (hout : StandOut sheet.markers (report.renderText .plain)) :
    sheet.Wraps (report.renderText sheet.palette) (report.renderText .plain) :=
  (styled_renderText sheet report).wraps hout

end

end DocAudit
