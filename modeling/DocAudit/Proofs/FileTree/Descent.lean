import DocAudit.Proofs.FileTree.Trace
import DocAudit.Proofs.Path.Components
import DocAudit.Proofs.Text.Offset

/-!
# The way down to a place

An entry lies in a directory, which lies in a directory itself, and so on up to
the root.  So the names of a place where there is an entry lead down to it from
the root, directory by directory, and no link is followed on the way unless the
entry is one itself.

`target?` is what the names of a place lead to.  The written form of the place
leads there as well, as long as it is short enough for the system.

**Results.**
* `isName_of_mem_of_isSome`: the names of a place where there is an entry.
* `follow_map_down`: the names of a place lead down to it.
* `resolve_toPath`: where the written form of a place leads.
* `read_toPath`: what is read at the written form of a place.
-/

namespace DocAudit

namespace FileTree

section

variable {ν : Type} [DecidableEq ν] [FileName ν] {tree : FileTree ν} {place : Place ν}
  {links : Nat}

/-- What the names of a place lead to. -/
def target? (tree : FileTree ν) (place : Place ν) : Option (Entry ν) :=
  match tree.follow maxLinks [] (place.map .down) with
  | .error _ => none
  | .ok r => tree.get? r.1

/-- A place where there is an entry that is no link. -/
def IsGoal (tree : FileTree ν) (place : Place ν) : Prop :=
  (tree.get? place).isSome ∧ tree.isLink place = false

theorem isDirectory_nil (tree : FileTree ν) : tree.isDirectory [] = true := rfl

theorem isDirectory_dropLast_of_isSome (h : (tree.get? place).isSome) :
    tree.isDirectory place.dropLast = true := by
  rcases List.eq_nil_or_concat place with rfl | ⟨directory, name, rfl⟩
  · exact isDirectory_nil tree
  · rw [List.concat_eq_append] at h ⊢
    rw [List.dropLast_concat, isDirectory_eq_true_iff]
    exact (isName_of_isSome_concat h).2

theorem isSome_of_isDirectory (h : tree.isDirectory place = true) : (tree.get? place).isSome := by
  rw [isDirectory_eq_true_iff.1 h]
  rfl

/-- The names of a place where there is an entry are names of entries. -/
theorem isName_of_mem_of_isSome (h : (tree.get? place).isSome) :
    ∀ name ∈ place, FileName.isName name = true := by
  induction place using List.reverseRecOn with
  | nil =>
      intro name hname
      cases hname
  | append_singleton directory last ih =>
      obtain ⟨hlast, hdirectory⟩ := isName_of_isSome_concat h
      have hdirectoryNames := ih (isSome_of_isDirectory (isDirectory_eq_true_iff.2 hdirectory))
      intro name hname
      rcases List.mem_append.1 hname with hname | hname
      · exact hdirectoryNames name hname
      · rw [List.mem_singleton.1 hname]
        exact hlast

theorem isGoal_of_isDirectory (h : tree.isDirectory place = true) : tree.IsGoal place := by
  rw [isDirectory_eq_true_iff] at h
  simp [IsGoal, isLink, h]

theorem follow_nil (tree : FileTree ν) (links : Nat) (place : Place ν) :
    tree.follow links place [] = .ok (place, links) := by
  cases links <;> rfl

theorem follow_stay (hplace : tree.isDirectory place = true) (steps : List (Step ν)) :
    tree.follow links place (.stay :: steps) = tree.follow links place steps := by
  rw [isDirectory_eq_true_iff] at hplace
  cases links <;> simp [follow, advance, hplace]

/-- The names of a place lead down to it over no link. -/
theorem follow_map_down (hgoal : tree.IsGoal place) (links : Nat) :
    tree.follow links [] (place.map .down) = .ok (place, links) := by
  induction place using List.reverseRecOn with
  | nil => exact follow_nil tree links []
  | append_singleton directory name ih =>
      have hdirectory : tree.isDirectory directory = true := by
        have h := isDirectory_dropLast_of_isSome hgoal.1
        rwa [List.dropLast_concat] at h
      rw [List.map_append, follow_append, ih (isGoal_of_isDirectory hdirectory)]
      exact follow_down_of_not_isLink hdirectory hgoal.1 hgoal.2 links

/-- Names that are taken behind a directory go on from there. -/
theorem follow_map_down_append (hdirectory : tree.isDirectory place = true) (links : Nat)
    (names : List ν) :
    tree.follow links [] ((place ++ names).map .down)
      = tree.follow links place (names.map .down) := by
  rw [List.map_append, follow_append, follow_map_down (isGoal_of_isDirectory hdirectory)]
  rfl

theorem target?_append (hdirectory : tree.isDirectory place = true) (names : List ν)
    (entry : Entry ν) :
    tree.target? (place ++ names) = some entry ↔
      ∃ r, tree.follow maxLinks place (names.map .down) = .ok r ∧ tree.get? r.1 = some entry := by
  rw [target?, follow_map_down_append hdirectory]
  cases tree.follow maxLinks place (names.map .down) with
  | error cause => simp
  | ok r => simp

end

end FileTree

/-! ### Written places -/

namespace Step

theorem ofSegment_of_isName {ν : Type} [FileName ν] {segment : ν}
    (h : FileName.isName segment = true) : ofSegment segment = down segment := by
  simp only [FileName.isName, Bool.and_eq_true, decide_eq_true_eq] at h
  obtain ⟨⟨⟨⟨⟨hnil, hdot⟩, hdots⟩, _⟩, _⟩, _⟩ := h
  rw [ofSegment, if_neg (not_or.2 ⟨hnil, hdot⟩), if_neg hdots]

end Step

namespace Place

variable {place : Place}

theorem steps_toPath (h : ∀ name ∈ place, FileName.isName name = true) (hne : place ≠ []) :
    place.toPath.route.steps = .stay :: place.map .down := by
  have hslash : ∀ name ∈ place, '/' ∉ name :=
    fun name hname => (isSegment_of_isName (h name hname)).slash_notMem
  have hsplit : Text.splitOn '/' place.toPath.text = [] :: place := by
    rw [toPath, Text.splitOn, if_pos rfl, Text.splitOn_joinWith hne hslash]
  have hsteps : place.map Step.ofSegment = place.map .down :=
    List.map_congr_left fun name hname => Step.ofSegment_of_isName (h name hname)
  rw [Route.steps, Path.route, hsplit, List.map_cons, hsteps]
  rfl

theorem isAbsolute_route_toPath (place : Place) : place.toPath.route.isAbsolute = true := by
  obtain ⟨segment, segments, hsplit⟩ :=
    List.exists_cons_of_ne_nil (Text.splitOn_ne_nil '/' (Text.joinWith ['/'] place))
  have hslash : Text.splitOn '/' place.toPath.text = [] :: segment :: segments := by
    rw [toPath, Text.splitOn, if_pos rfl, hsplit]
  rw [Path.route, hslash]
  rfl

/-- The written form of a place has its names, each with a slash before it. -/
theorem octetCount_toPath (hne : place ≠ []) :
    Text.octetCount place.toPath.text = place.pathLength := by
  have hjoin : ∀ names : List Text, names ≠ [] →
      Utf8.encode ('/' :: Text.joinWith ['/'] names)
        = names.flatMap fun name => 0x2F :: FileName.octets name := by
    intro names hnames
    induction names with
    | nil => exact absurd rfl hnames
    | cons name names ih =>
        cases names with
        | nil =>
            rw [Text.joinWith, List.flatMap_singleton]
            rfl
        | cons next names =>
            rw [Text.joinWith_cons _ _ (List.cons_ne_nil _ _), List.append_assoc,
              List.singleton_append, Utf8.encode_cons, Utf8.encode_append,
              ih (List.cons_ne_nil _ _), List.flatMap_cons]
            rfl
  exact congrArg List.length (hjoin place hne)

end Place

namespace FileTree

variable {tree : FileTree} {place : Place}

/-- The written form of a place leads where the names of the place lead, unless it is too long. -/
theorem resolve_toPath (h : ∀ name ∈ place, FileName.isName name = true) :
    tree.resolve place.toPath
      = if place.isTooLong then .error .nameTooLong
        else (tree.follow maxLinks [] (place.map .down)).map (·.1) := by
  have htext : place.toPath.text ≠ [] := List.cons_ne_nil _ _
  have hstart : start tree.workingDirectory place.toPath.route = [] :=
    if_pos place.isAbsolute_route_toPath
  by_cases hne : place = []
  · subst hne
    rfl
  · rw [resolve, if_neg htext, Place.octetCount_toPath hne, locate, hstart,
      Place.steps_toPath h hne, follow_stay (isDirectory_nil tree), Place.isTooLong]
    simp only [decide_eq_true_eq]

/-- At the written form of a place the file is read that the names of the place lead to, if it can
be read and the written form is not too long. -/
theorem read_toPath (h : ∀ name ∈ place, FileName.isName name = true) {content : Option Octets}
    (htarget : tree.target? place = some (.file content)) :
    (tree.read place.toPath).toOption = if place.isTooLong then none else content := by
  unfold target? at htarget
  rw [read, resolve_toPath h]
  cases hfollow : tree.follow maxLinks [] (place.map .down) with
  | error cause =>
      rw [hfollow] at htarget
      cases htarget
  | ok r =>
      rw [hfollow] at htarget
      split
      · rfl
      · simp only [Except.map, bind, Except.bind, htarget]
        cases content <;> rfl

end FileTree
end DocAudit
