import DocAudit.Proofs.Path.Components
import Mathlib.Data.List.Induction

/-!
# Lexical walks

A walk starts at a place and takes the segments of a written path one after the
other: an empty segment and `.` stay, `..` goes up, and any other segment goes
down to the entry of that name.  Nothing is looked up on the way.  A walk that
would go above the root leads nowhere.

Joining a path to a directory and normalising the result is such a walk.

**Results.**
* `normalStep_of_step?`: one segment of a walk is one step of normalisation.
* `normalize_join`: a whole walk is the normal form of the joined path.
* `isSegment_of_walk?`: the names on a walk can stand between slashes.
-/

namespace DocAudit

namespace Place

/-- Where a segment leads from a place. -/
def step? (place : Place) (segment : Text) : Option Place :=
  if segment = [] ∨ segment = ['.'] then some place
  else if segment = text ".." then
    if place = [] then none else some place.dropLast
  else some (place ++ [segment])

/-- Where segments lead from a place. -/
def walk? : Place → List Text → Option Place
  | place, [] => some place
  | place, segment :: segments => (step? place segment).bind (walk? · segments)

/-- Peel the first segment off a walk that leads somewhere. -/
theorem walk?_cons_success {place goal : Place} {segment : Text} {segments : List Text}
    (h : walk? place (segment :: segments) = some goal) :
    ∃ next, step? place segment = some next ∧ walk? next segments = some goal :=
  Option.bind_eq_some_iff.1 h

/-- A row of segments is walked by walking its parts. -/
theorem walk?_append (place : Place) (first second : List Text) :
    walk? place (first ++ second) = (walk? place first).bind (walk? · second) := by
  induction first generalizing place with
  | nil => rfl
  | cons segment first ih =>
      rw [List.cons_append, walk?, walk?, Option.bind_assoc]
      exact Option.bind_congr fun next _ => ih next

/-- A segment that stays can be left out. -/
theorem step?_of_stays {segment : Text} (h : segment = [] ∨ segment = ['.']) (place : Place) :
    step? place segment = some place := by
  rw [step?, if_pos h]

/-- A segment that names an entry goes down to it. -/
theorem step?_of_isSegment {segment : Text} (h : Path.IsSegment segment) (place : Place) :
    step? place segment = some (place ++ [segment]) := by
  have hstay : ¬ (segment = [] ∨ segment = ['.']) := not_or.2 ⟨h.ne_nil, h.ne_here⟩
  have hup : ¬ segment = text ".." := h.ne_up
  rw [step?, if_neg hstay, if_neg hup]

/-- Segments that name entries go down from one to the next. -/
theorem walk?_of_isSegment {segments : List Text} (h : ∀ s ∈ segments, Path.IsSegment s)
    (place : Place) : walk? place segments = some (place ++ segments) := by
  induction segments generalizing place with
  | nil => simp [walk?]
  | cons segment segments ih =>
      have hsegment := step?_of_isSegment (h segment List.mem_cons_self) place
      have hrest := ih (fun s hs => h s (List.mem_cons_of_mem segment hs)) (place ++ [segment])
      rw [walk?, hsegment, Option.bind_some, hrest, List.append_assoc, List.singleton_append]

/-- As many steps up as there are names on top of a place take these names away. -/
theorem walk?_replicate_up (place names : Place) :
    walk? (place ++ names) (List.replicate names.length (text "..")) = some place := by
  induction names using List.reverseRecOn with
  | nil => simp [walk?]
  | append_singleton names name ih =>
      have hne : place ++ (names ++ [name]) ≠ [] := by simp
      have hstep : step? (place ++ (names ++ [name])) (text "..") = some (place ++ names) := by
        rw [step?, if_neg (by decide), if_pos rfl, if_neg hne, ← List.append_assoc,
          List.dropLast_concat]
      rw [List.length_append, List.length_singleton, List.replicate_succ, walk?, hstep]
      exact ih

/-- The names that a walk comes to can stand between slashes, if those that it starts from and the
segments hold no slash. -/
theorem isSegment_of_walk? {place goal : Place} {segments : List Text}
    (hplace : ∀ name ∈ place, Path.IsSegment name) (hsegments : ∀ s ∈ segments, '/' ∉ s)
    (h : walk? place segments = some goal) : ∀ name ∈ goal, Path.IsSegment name := by
  induction segments generalizing place with
  | nil =>
      cases h
      exact hplace
  | cons segment segments ih =>
      obtain ⟨next, hstep, hrest⟩ := walk?_cons_success h
      refine ih ?_ (fun s hs => hsegments s (List.mem_cons_of_mem segment hs)) hrest
      have hslash := hsegments segment List.mem_cons_self
      unfold step? at hstep
      split at hstep
      · cases hstep
        exact hplace
      · rename_i hstay
        split at hstep
        · split at hstep
          · cases hstep
          · cases hstep
            exact fun name hname => hplace name ((List.dropLast_sublist _).mem hname)
        · rename_i hup
          cases hstep
          intro name hname
          rcases List.mem_append.1 hname with hname | hname
          · exact hplace name hname
          · rw [List.mem_singleton.1 hname]
            rw [not_or] at hstay
            exact ⟨hstay.1, hstay.2, hup, hslash⟩

/-- The components of a place as normalisation keeps them, the last name first. -/
def stack (place : Place) : List Path.Component := (.root :: place.map .name).reverse

theorem stack_concat (place : Place) (name : Text) :
    stack (place ++ [name]) = .name name :: stack place := by
  simp [stack]

/-- One segment of a walk is one step of normalisation, or none if it makes no component. -/
theorem normalStep_of_step? {place goal : Place} {segment : Text}
    (h : step? place segment = some goal) :
    (Path.Component.ofSegment? segment).elim (stack place) (Path.normalStep (stack place))
      = stack goal := by
  unfold step? at h
  unfold Path.Component.ofSegment?
  split at h
  · rename_i hstay
    cases h
    rw [if_pos hstay]
    rfl
  · rename_i hstay
    rw [if_neg hstay]
    split at h
    · rename_i hup
      rw [if_pos hup]
      split at h
      · cases h
      · rename_i hne
        cases h
        obtain ⟨directory, name, rfl⟩ : ∃ directory name, place = directory ++ [name] :=
          ⟨_, _, (List.dropLast_concat_getLast hne).symm⟩
        rw [stack_concat, List.dropLast_concat]
        rfl
    · rename_i hup
      rw [if_neg hup]
      cases h
      rw [stack_concat]
      rfl

/-- Following the components of segments is walking the segments. -/
theorem foldl_normalStep_of_walk? {place goal : Place} {segments : List Text}
    (h : walk? place segments = some goal) :
    (Path.innerComponents segments).foldl Path.normalStep (stack place) = stack goal := by
  induction segments generalizing place with
  | nil =>
      cases h
      rfl
  | cons segment segments ih =>
      obtain ⟨next, hstep, hrest⟩ := walk?_cons_success h
      have hfirst := normalStep_of_step? hstep
      rw [← ih hrest]
      unfold Path.innerComponents
      cases hc : Path.Component.ofSegment? segment with
      | none =>
          rw [hc] at hfirst
          rw [List.filterMap_cons_none hc, ← hfirst]
          rfl
      | some c =>
          rw [hc] at hfirst
          rw [List.filterMap_cons_some hc, List.foldl_cons, ← hfirst]
          rfl

/-- Normalisation starts by putting the names of a place one on the other. -/
theorem foldl_normalStep_nil (place : Place) :
    ((Path.Component.root :: place.map .name).foldl Path.normalStep []) = stack place := by
  induction place using List.reverseRecOn with
  | nil => rfl
  | append_singleton place name ih =>
      rw [List.map_append, ← List.cons_append, List.foldl_append, ih, stack_concat]
      rfl

end Place

namespace Path

/-- The normal form of a path that goes on from a directory is the place that a walk from there
comes to. -/
theorem normalize_join {directory path : Path} {place goal : Place}
    (hdirectory : directory.place? = some place) (hpath : path.isAbsolute = false)
    (hwalk : place.walk? (Text.splitOn '/' path.text) = some goal) :
    (directory.join path).normalize = goal.toPath := by
  have hcomponents := (place?_eq_some_iff directory place).1 hdirectory
  have hnormal : normalComponents (directory.join path).components
      = .root :: goal.map .name := by
    rw [components_join (isAbsolute_of_place? hdirectory) hpath, hcomponents, normalComponents,
      List.foldl_append, Place.foldl_normalStep_nil, Place.foldl_normalStep_of_walk? hwalk,
      Place.stack, List.reverse_reverse]
  have hsegment : Component.segment ∘ Component.name = id := rfl
  rw [normalize, hnormal, ofComponents, List.map_map, hsegment, List.map_id, Place.toPath]

end Path

end DocAudit
