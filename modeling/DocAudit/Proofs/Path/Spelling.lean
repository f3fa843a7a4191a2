import DocAudit.Proofs.Path.Components
import Mathlib.Data.List.Induction
import Mathlib.Logic.Relation

/-!
# Spellings of a path

The same place can be written in many ways: a slash can be repeated, a step that
stays can be put in between, and either can stand at the end.  Two paths have
the same components exactly when such changes lead from one to the other.

Every path is spelled by its components, joined again: read from the left, each
further segment either stays and can be left out, or it is the next component.

**Results.**
* `components_of_respells`: a change of spelling keeps the components.
* `respelled_ofComponents`: every path is spelled by its components.
* `same_iff_respelled`: paths with the same components are spellings of each
  other.
-/

namespace DocAudit

namespace Path

/-- A segment that makes no component within a path. -/
def Stays (segment : Text) : Prop := segment = [] ∨ segment = ['.']

/-- One change of spelling: a segment that stays is put behind a slash or at the end. -/
inductive Respells : Path → Path → Prop
  | inner (s t : Text) {segment : Text} (h : Stays segment) :
      Respells ⟨s ++ '/' :: t⟩ ⟨s ++ '/' :: (segment ++ '/' :: t)⟩
  | closing {s : Text} (hs : s ≠ []) {segment : Text} (h : Stays segment) :
      Respells ⟨s⟩ ⟨s ++ '/' :: segment⟩

/-- Changes of spelling lead from one path to the other. -/
def Respelled : Path → Path → Prop := Relation.EqvGen Respells

theorem Stays.slash_notMem {segment : Text} (h : Stays segment) : '/' ∉ segment := by
  rcases h with rfl | rfl <;> decide

theorem Stays.ofSegment? {segment : Text} (h : Stays segment) :
    Component.ofSegment? segment = none :=
  if_pos h

theorem innerComponents_of_stays {segment : Text} (h : Stays segment) (segments : List Text) :
    innerComponents (segment :: segments) = innerComponents segments :=
  List.filterMap_cons_none h.ofSegment?

/-- A path that starts with a slash goes on behind it like a path behind a slash. -/
theorem components_append_slash_congr (s : Text) {t u : Text}
    (h : innerComponents (Text.splitOn '/' t) = innerComponents (Text.splitOn '/' u)) :
    (⟨s ++ '/' :: t⟩ : Path).components = (⟨s ++ '/' :: u⟩ : Path).components := by
  by_cases hs : s = []
  · rw [hs, List.nil_append, List.nil_append, components_slash, components_slash, h]
  · rw [components_append_slash hs, components_append_slash hs, h]

/-- A change of spelling keeps the components. -/
theorem components_of_respells {p q : Path} (h : Respells p q) : p.components = q.components := by
  cases h with
  | inner s t h =>
      refine components_append_slash_congr s ?_
      rw [Text.splitOn_append_cons, Text.splitOn_of_notMem h.slash_notMem, List.singleton_append,
        innerComponents_of_stays h]
  | closing hs h =>
      have hnone : innerComponents [] = [] := rfl
      rw [components_append_slash hs, Text.splitOn_of_notMem h.slash_notMem,
        innerComponents_of_stays h, hnone, List.append_nil]

theorem components_of_respelled {p q : Path} (h : Respelled p q) :
    p.components = q.components := by
  induction h with
  | rel p q hstep => exact components_of_respells hstep
  | refl p => rfl
  | symm p q _ ih => exact ih.symm
  | trans p q r _ _ ihfirst ihsecond => exact ihfirst.trans ihsecond

/-- What is written behind two spellings of a path makes two spellings again. -/
theorem Respelled.append_slash {p q : Path} (h : Respelled p q) (t : Text) :
    Respelled ⟨p.text ++ '/' :: t⟩ ⟨q.text ++ '/' :: t⟩ := by
  induction h with
  | rel p q hstep =>
      cases hstep with
      | inner s u h =>
          have hstep : Respells _ _ := .inner s (u ++ '/' :: t) h
          simp only [List.append_assoc, List.cons_append]
          exact .rel _ _ hstep
      | @closing s _ segment h =>
          have hstep : Respells _ _ := .inner s t h
          simp only [List.append_assoc, List.cons_append]
          exact .rel _ _ hstep
  | refl p => exact .refl _
  | symm p q _ ih => exact .symm _ _ ih
  | trans p q r _ _ ihfirst ihsecond => exact .trans _ _ _ ihfirst ihsecond

/-- The slash that an absolute path starts with can be repeated. -/
theorem respelled_slash_slash (t : Text) : Respelled ⟨'/' :: '/' :: t⟩ ⟨'/' :: t⟩ :=
  .symm _ _ (.rel _ _ (.inner [] t (Or.inl rfl)))

theorem respelled_slash_here : Respelled ⟨['/', '.']⟩ ⟨['/']⟩ :=
  .trans _ _ _ (.rel _ _ (.closing (List.cons_ne_nil _ _) (Or.inl rfl)))
    (.symm _ _ (.rel _ _ (.inner [] [] (Or.inr rfl))))

/-- A segment that does not stay makes a component that is written as the segment. -/
theorem exists_ofSegment? {segment : Text} (h : ¬ Stays segment) :
    ∃ c, Component.ofSegment? segment = some c ∧ c ≠ .root ∧ c.segment = segment := by
  have hstays : ¬ (segment = [] ∨ segment = ['.']) := h
  rw [Component.ofSegment?, if_neg hstays]
  split
  · rename_i hup
    exact ⟨.up, rfl, by simp, hup.symm⟩
  · exact ⟨.name segment, rfl, by simp, rfl⟩

theorem ofComponents_cons {c : Component} (h : c ≠ .root) (rest : List Component) :
    ofComponents (c :: rest) = ⟨Text.joinWith ['/'] ((c :: rest).map Component.segment)⟩ := by
  cases c with
  | root => exact absurd rfl h
  | here => rfl
  | up => rfl
  | name s => rfl

/-- A component that is written behind others goes behind a slash, which stands there already if the
others are the root alone. -/
theorem respelled_ofComponents_concat {components : List Component} (hne : components ≠ [])
    (c : Component) :
    Respelled ⟨(ofComponents components).text ++ '/' :: c.segment⟩
      (ofComponents (components ++ [c])) := by
  have hjoin : ∀ rest : List Component, rest ≠ [] →
      Text.joinWith ['/'] (rest.map Component.segment) ++ '/' :: c.segment
        = Text.joinWith ['/'] ((rest ++ [c]).map Component.segment) := by
    intro rest hrest
    have hmap : rest.map Component.segment ≠ [] := mt List.map_eq_nil_iff.1 hrest
    rw [List.map_append, List.map_singleton,
      Text.joinWith_append ['/'] hmap (List.cons_ne_nil _ _), List.append_assoc]
    rfl
  obtain ⟨first, rest, rfl⟩ := List.exists_cons_of_ne_nil hne
  by_cases hfirst : first = .root
  · rw [hfirst]
    by_cases hrest : rest = []
    · rw [hrest]
      exact respelled_slash_slash c.segment
    · simp only [ofComponents, List.cons_append]
      rw [hjoin rest hrest]
      exact .refl _
  · rw [ofComponents_cons hfirst, List.cons_append, ofComponents_cons hfirst, hjoin _ hne]
    exact .refl _

/-- A segment alone is spelled as it is. -/
theorem ofComponents_components_of_notMem {s : Text} (h : '/' ∉ s) :
    ofComponents (⟨s⟩ : Path).components = ⟨s⟩ := by
  have habsolute : (⟨s⟩ : Path).isAbsolute = false := by
    cases s with
    | nil => rfl
    | cons c s =>
        have hc : c ≠ '/' := fun e => h (e ▸ List.mem_cons_self)
        simpa [isAbsolute] using hc
  have hsplit : Text.splitOn '/' s = [s] := Text.splitOn_of_notMem h
  simp only [components, habsolute, Bool.false_eq_true, if_false, hsplit, List.head?_cons,
    Option.some.injEq]
  split
  · rename_i hhere
    rw [hhere]
    rfl
  · rename_i hhere
    by_cases hs : s = []
    · rw [hs]
      rfl
    · obtain ⟨c, hc, hroot, hsegment⟩ := exists_ofSegment? (not_or.2 ⟨hs, hhere⟩)
      rw [innerComponents, List.filterMap_cons_some hc, List.filterMap_nil,
        ofComponents_cons hroot, List.map_singleton, hsegment]
      rfl

/-- A path that is spelled by its components is so when a segment is written behind it. -/
theorem respelled_append_slash {s : Text} (hs : '/' ∉ s) {before : Text}
    (h : Respelled ⟨before⟩ (ofComponents (⟨before⟩ : Path).components)) :
    Respelled ⟨before ++ '/' :: s⟩ (ofComponents (⟨before ++ '/' :: s⟩ : Path).components) := by
  have hsplit : Text.splitOn '/' s = [s] := Text.splitOn_of_notMem hs
  by_cases hbefore : before = []
  · rw [hbefore, List.nil_append, components_slash, hsplit]
    by_cases hstays : Stays s
    · rw [innerComponents_of_stays hstays]
      rcases hstays with rfl | rfl
      · exact .refl _
      · exact respelled_slash_here
    · obtain ⟨c, hc, _, hsegment⟩ := exists_ofSegment? hstays
      rw [innerComponents, List.filterMap_cons_some hc, ← hsegment]
      exact .refl _
  · by_cases hstays : Stays s
    · have hclosing := Respells.closing hbefore hstays
      rw [← components_of_respells hclosing]
      exact .trans _ _ _ (.symm _ _ (.rel _ _ hclosing)) h
    · obtain ⟨c, hc, _, hsegment⟩ := exists_ofSegment? hstays
      have hne : (⟨before⟩ : Path).components ≠ [] := mt (components_eq_nil_iff _).1 hbefore
      rw [components_append_slash hbefore, hsplit, innerComponents, List.filterMap_cons_some hc,
        List.filterMap_nil, ← hsegment]
      exact .trans _ _ _ (h.append_slash c.segment) (respelled_ofComponents_concat hne c)

/-- Segments with slashes between them are spelled by their components. -/
theorem respelled_joinWith {segments : List Text} (hne : segments ≠ [])
    (h : ∀ s ∈ segments, '/' ∉ s) :
    Respelled ⟨Text.joinWith ['/'] segments⟩
      (ofComponents (⟨Text.joinWith ['/'] segments⟩ : Path).components) := by
  induction segments using List.reverseRecOn with
  | nil => exact absurd rfl hne
  | append_singleton front s ih =>
      have hs : '/' ∉ s := h s (List.mem_append_right _ List.mem_cons_self)
      have hfront : ∀ t ∈ front, '/' ∉ t := fun t ht => h t (List.mem_append_left _ ht)
      by_cases hempty : front = []
      · rw [hempty, List.nil_append]
        change Respelled ⟨s⟩ (ofComponents (⟨s⟩ : Path).components)
        rw [ofComponents_components_of_notMem hs]
        exact .refl _
      · rw [Text.joinWith_append ['/'] hempty (List.cons_ne_nil _ _), List.append_assoc]
        have hbefore := ih hempty hfront
        generalize Text.joinWith ['/'] front = before at hbefore
        exact respelled_append_slash hs hbefore

/-- Every path is spelled by its components. -/
theorem respelled_ofComponents (p : Path) : Respelled p (ofComponents p.components) := by
  have h := respelled_joinWith (Text.splitOn_ne_nil '/' p.text) fun _ => Text.notMem_of_mem_splitOn
  rw [Text.joinWith_splitOn] at h
  exact h

/-- Two paths have the same components exactly when they are spellings of each other. -/
theorem same_iff_respelled (p q : Path) : p.same q = true ↔ p.Respelled q := by
  rw [same, beq_iff_eq]
  constructor
  · intro h
    have hq := respelled_ofComponents q
    rw [← h] at hq
    exact .trans _ _ _ (respelled_ofComponents p) (.symm _ _ hq)
  · exact components_of_respelled

end Path

end DocAudit
