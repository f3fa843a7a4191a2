import DocAudit.Proofs.Discovery.Walk
import Mathlib.Logic.ExistsUnique

/-!
# Walks end

A walk follows links wherever they lead, also up and around, and it enters a
plain directory without looking whether it is in it already.  It ends all the
same.  A link is followed into a directory only if the walk is not in that
directory, so that one directory less is outside; and of the plain directories
between two links, each lies one name deeper than the one before.  Both together
bound the directories that a walk can be in, whatever number of links a path may
lead over.

The walk that is counted here has no fuel.  It keeps the directories that it is
in, each with the names that are still to come, and takes one name after the
other.

**Results.**
* `room_lt_of_enters`: entering a directory leaves less room.
* `ends_walk`: fuel that covers the room finds what is found without fuel.
* `exists_ends`: a walk that is under way ends.
* `discover_ends`: discovery ends on every tree.
-/

namespace DocAudit

namespace FileTree

variable {ν : Type} [DecidableEq ν] [FileName ν] {tree : FileTree ν} {links : Nat}
  {place : Place ν} {name : ν} {r : Place ν × Nat}

/-- The places of the directories.  One can occur more than once. -/
def directories (tree : FileTree ν) : List (Place ν) :=
  ([] :: tree.entries.map (·.1)).filter tree.isDirectory

theorem mem_directories (h : tree.isDirectory place = true) : place ∈ tree.directories := by
  refine List.mem_filter.2 ⟨?_, h⟩
  rcases List.eq_nil_or_concat place with rfl | ⟨directory, name, rfl⟩
  · exact List.mem_cons_self
  · rw [List.concat_eq_append] at h ⊢
    have hentry := isDirectory_eq_true_iff.1 h
    rw [get?_concat] at hentry
    split at hentry
    · obtain ⟨entry, hfound, -⟩ := Option.map_eq_some_iff.1 hentry
      have hplace := List.find?_some hfound
      rw [decide_eq_true_eq] at hplace
      have hmem := List.mem_of_find?_eq_some hfound
      exact List.mem_cons_of_mem _ (List.mem_map.2 ⟨entry, hmem, hplace⟩)
    · cases hentry

/-- A name leads somewhere only from a directory. -/
theorem isDirectory_of_follow_down (h : tree.follow links place [.down name] = .ok r) :
    tree.isDirectory place = true := by
  rw [isDirectory_eq_true_iff]
  cases hentry : tree.get? place with
  | none => cases links <;> simp [follow, advance, hentry] at h
  | some entry =>
      cases entry with
      | directory => rfl
      | _ => cases links <;> simp [follow, advance, hentry] at h

/-- A name that is no link leads to its own entry. -/
theorem eq_of_follow_down (h : tree.follow links place [.down name] = .ok r)
    (hlink : tree.isLink (place ++ [name]) = false) : r = (place ++ [name], links) := by
  rw [follow_down (isDirectory_of_follow_down h)] at h
  cases hentry : tree.get? (place ++ [name]) with
  | none =>
      rw [hentry] at h
      cases h
  | some entry =>
      rw [hentry] at h
      cases entry with
      | link target => simp [isLink, hentry] at hlink
      | _ => exact (Except.ok.inj h).symm

end FileTree

namespace Discovery

section

variable {ν : Type} [DecidableEq ν] [FileName ν] {tree : FileTree ν} {here visit : Visit ν}
  {name : ν} {names : List ν}

/-! ### Room -/

/-- The directories that a walk is not in. -/
def Visit.outside (tree : FileTree ν) (here : Visit ν) : List (Place ν) :=
  tree.directories.filter fun place => place ∉ here.trail

/-- A bound on the levels that are still to come: so many names to the depth of the tree, and the
depth once again for every directory that the walk is not in. -/
def Visit.room (tree : FileTree ν) (here : Visit ν) : Nat :=
  (here.outside tree).length * (tree.depth + 1) + (tree.depth - here.place.length)

/-- A number of levels that no walk exceeds, whatever number of links a path may lead over. -/
def levels (tree : FileTree ν) : Nat := (tree.directories.length + 1) * (tree.depth + 1)

theorem room_lt_levels (tree : FileTree ν) (here : Visit ν) : here.room tree < levels tree := by
  have houtside : (here.outside tree).length ≤ tree.directories.length := List.length_filter_le _ _
  have hlevels := Nat.mul_le_mul_right (tree.depth + 1) houtside
  rw [Visit.room, levels, Nat.add_mul]
  omega

/-- A directory is entered behind a link that does not lead back, or it lies one name deeper. -/
theorem place_of_enters (h : Enters tree here name visit) :
    visit.place ∉ here.trail ∨ visit.place = here.place ++ [name] := by
  cases hlink : tree.isLink (here.place ++ [name]) with
  | true => exact Or.inl (h.not_cycle hlink)
  | false => exact Or.inr (Prod.mk.inj (FileTree.eq_of_follow_down h.follow_eq hlink)).1

theorem outside_le (tree : FileTree ν) (htrail : visit.trail = visit.place :: here.trail) :
    (visit.outside tree).length ≤ (here.outside tree).length := by
  rw [Visit.outside, Visit.outside, ← List.countP_eq_length_filter, ← List.countP_eq_length_filter]
  refine List.countP_mono_left fun place _ hplace => ?_
  rw [htrail, decide_eq_true_eq, List.mem_cons, not_or] at hplace
  exact decide_eq_true hplace.2

/-- Where a link is followed, one directory less is outside. -/
theorem outside_lt (htrail : visit.trail = visit.place :: here.trail)
    (hdirectory : tree.isDirectory visit.place = true) (hnew : visit.place ∉ here.trail) :
    (visit.outside tree).length < (here.outside tree).length := by
  have houtside : visit.outside tree
      = (here.outside tree).filter fun place => place ≠ visit.place := by
    rw [Visit.outside, Visit.outside, List.filter_filter]
    refine List.filter_congr fun place _ => ?_
    rw [htrail]
    simp [List.mem_cons, not_or]
  rw [houtside]
  refine List.length_filter_lt_length_iff_exists.2 ⟨visit.place, ?_, by simp⟩
  exact List.mem_filter.2 ⟨FileTree.mem_directories hdirectory, decide_eq_true hnew⟩

/-- Entering a directory leaves less room: one directory less outside, or one name less to the depth
of the tree. -/
theorem room_lt_of_enters (h : Enters tree here name visit) :
    visit.room tree < here.room tree := by
  rcases place_of_enters h with hnew | hplace
  · have hlevels :=
      Nat.mul_le_mul_right (tree.depth + 1) (outside_lt h.trail_eq h.isDirectory hnew)
    rw [Nat.succ_mul] at hlevels
    rw [Visit.room, Visit.room]
    omega
  · have hlevels := Nat.mul_le_mul_right (tree.depth + 1) (outside_le tree h.trail_eq)
    have hentry : (tree.get? visit.place).isSome := by
      rw [FileTree.isDirectory_eq_true_iff.1 h.isDirectory]
      rfl
    have hdepth := FileTree.length_le_depth hentry
    have hlength : visit.place.length = here.place.length + 1 := by
      rw [hplace, List.length_append, List.length_singleton]
    rw [Visit.room, Visit.room]
    omega

theorem ne_tooDeep_of_stops {cause : WalkError} (h : outcome tree here name = .stops cause) :
    cause ≠ .tooDeep := by
  rintro rfl
  unfold outcome at h
  split at h
  · cases h
  · split at h
    · split at h
      · cases h
      · split at h
        · cases h
        · split at h <;> cases h
    · split at h <;> cases h
    · split at h <;> cases h
    · cases h

/-! ### Walks without fuel -/

/-- A walk that is under way. -/
structure Progress (ν : Type := Text) where
  /-- The directories that the walk is in, the innermost one first, each with the names in it that
  are still to come. -/
  stack : List (Visit ν × List ν)
  /-- The files found so far. -/
  found : List (Place ν)
deriving DecidableEq, Repr

namespace Progress

/-- A walk that comes to a directory. -/
def start (tree : FileTree ν) (here : Visit ν) : Progress ν := ⟨[(here, tree.names here.place)], []⟩

/-- Takes the next name of the innermost directory, or leaves the directory if there is none.  Gives
the result instead where the walk ends. -/
def step (tree : FileTree ν) : Progress ν → Except WalkError (List (Place ν)) ⊕ Progress ν
  | ⟨[], found⟩ => .inl (.ok found)
  | ⟨(_, []) :: outer, found⟩ => .inr ⟨outer, found⟩
  | ⟨(here, name :: names) :: outer, found⟩ =>
      match outcome tree here name with
      | .stops cause => .inl (.error cause)
      | .skipped => .inr ⟨(here, names) :: outer, found⟩
      | .listed file => .inr ⟨(here, names) :: outer, found ++ [file]⟩
      | .entered visit =>
          .inr ⟨(visit, tree.names visit.place) :: (here, names) :: outer, found⟩

end Progress

/-- A walk ends with a result after finitely many steps. -/
inductive Ends (tree : FileTree ν) : Progress ν → Except WalkError (List (Place ν)) → Prop
  | now {p : Progress ν} {result : Except WalkError (List (Place ν))} :
      p.step tree = .inl result → Ends tree p result
  | later {p next : Progress ν} {result : Except WalkError (List (Place ν))} :
      p.step tree = .inr next → Ends tree next result → Ends tree p result

theorem Ends.unique {p : Progress ν} {first second : Except WalkError (List (Place ν))}
    (h : Ends tree p first) (h' : Ends tree p second) : first = second := by
  induction h with
  | now hstep =>
      cases h' with
      | now hstep' => exact Sum.inl.inj (hstep.symm.trans hstep')
      | later hstep' _ => cases hstep.symm.trans hstep'
  | later hstep _ ih =>
      cases h' with
      | now hstep' => cases hstep.symm.trans hstep'
      | later hstep' hrest =>
          obtain rfl := Sum.inr.inj (hstep.symm.trans hstep')
          exact ih hrest

/-- No step ends a walk for want of fuel. -/
theorem ne_tooDeep_of_step {p : Progress ν} {result : Except WalkError (List (Place ν))}
    (h : p.step tree = .inl result) : result ≠ .error .tooDeep := by
  rintro rfl
  obtain ⟨stack, found⟩ := p
  match stack with
  | [] => cases h
  | (_, []) :: outer => cases h
  | (here, name :: names) :: outer =>
      rw [Progress.step] at h
      cases ho : outcome tree here name with
      | stops cause =>
          rw [ho] at h
          exact ne_tooDeep_of_stops ho (Except.error.inj (Sum.inl.inj h))
      | skipped => rw [ho] at h; cases h
      | listed file => rw [ho] at h; cases h
      | entered visit => rw [ho] at h; cases h

/-- A walk never ends for want of fuel. -/
theorem Ends.ne_tooDeep {p : Progress ν} {result : Except WalkError (List (Place ν))}
    (h : Ends tree p result) : result ≠ .error .tooDeep := by
  induction h with
  | now hstep => exact ne_tooDeep_of_step hstep
  | later _ _ ih => exact ih

/-- A walk gets from one stack to another one and finds some files on the way, or it ends with an
error before. -/
def Passes (tree : FileTree ν) (stack next : List (Visit ν × List ν)) :
    Except WalkError (List (Place ν)) → Prop
  | .ok files => ∀ found result, Ends tree ⟨next, found ++ files⟩ result →
      Ends tree ⟨stack, found⟩ result
  | .error cause => ∀ found, Ends tree ⟨stack, found⟩ (.error cause)

theorem passes_of_step {stack next : List (Visit ν × List ν)} {files : List (Place ν)}
    (h : ∀ found, Progress.step tree ⟨stack, found⟩ = .inr ⟨next, found ++ files⟩) :
    Passes tree stack next (.ok files) :=
  fun found _ hnext => .later (h found) hnext

theorem Passes.trans {stack middle last : List (Visit ν × List ν)} {files : List (Place ν)}
    {rest : Except WalkError (List (Place ν))} (h : Passes tree stack middle (.ok files))
    (hrest : Passes tree middle last rest) : Passes tree stack last (rest.map (files ++ ·)) := by
  cases rest with
  | error cause => exact fun found => h found _ (hrest (found ++ files))
  | ok more =>
      intro found result hlast
      rw [← List.append_assoc] at hlast
      exact h found result (hrest (found ++ files) result hlast)

theorem Passes.ends {stack : List (Visit ν × List ν)} {result : Except WalkError (List (Place ν))}
    (h : Passes tree stack [] result) : Ends tree ⟨stack, []⟩ result := by
  cases result with
  | error cause => exact h []
  | ok files => exact h [] (.ok files) (.now rfl)

omit [DecidableEq ν] [FileName ν] in
theorem map_nil_append (result : Except WalkError (List (Place ν))) :
    result.map ([] ++ ·) = result := by
  cases result <;> rfl

/-- The next name is passed with what it contributes. -/
theorem passes_visitEntry {enter : Visit ν → Except WalkError (List (Place ν))}
    (henter : ∀ visit, outcome tree here name = .entered visit → ∀ outer,
      Passes tree ((visit, tree.names visit.place) :: outer) outer (enter visit))
    (names : List ν) (outer : List (Visit ν × List ν)) :
    Passes tree ((here, name :: names) :: outer) ((here, names) :: outer)
      (visitEntry tree enter here name) := by
  rw [visitEntry]
  cases ho : outcome tree here name with
  | stops cause => exact fun found => .now (by rw [Progress.step, ho])
  | skipped => exact passes_of_step fun found => by rw [Progress.step, ho, List.append_nil]
  | listed file => exact passes_of_step fun found => by rw [Progress.step, ho]
  | entered visit =>
      have hinto : Passes tree ((here, name :: names) :: outer)
          ((visit, tree.names visit.place) :: (here, names) :: outer) (.ok []) :=
        passes_of_step fun found => by rw [Progress.step, ho, List.append_nil]
      have hthrough := hinto.trans (henter visit ho ((here, names) :: outer))
      rwa [map_nil_append] at hthrough

/-- The names of a directory are passed with what they contribute. -/
theorem passes_collect {enter : Visit ν → Except WalkError (List (Place ν))}
    (henter : ∀ name visit, outcome tree here name = .entered visit → ∀ outer,
      Passes tree ((visit, tree.names visit.place) :: outer) outer (enter visit))
    (names : List ν) (outer : List (Visit ν × List ν)) :
    Passes tree ((here, names) :: outer) outer (collect (visitEntry tree enter here) names) := by
  induction names with
  | nil => exact passes_of_step fun found => by rw [Progress.step, List.append_nil]
  | cons name names ih =>
      have hname := passes_visitEntry (henter name) names outer
      cases hvisit : visitEntry tree enter here name with
      | error cause =>
          rw [hvisit] at hname
          rw [collect_cons_of_error hvisit]
          exact hname
      | ok first =>
          rw [hvisit] at hname
          rw [collect_cons_of_ok hvisit]
          exact hname.trans ih

/-- A directory is passed with what a walk finds in it, if the fuel covers the room. -/
theorem passes_walk {fuel : Nat} (h : here.room tree < fuel) (outer : List (Visit ν × List ν)) :
    Passes tree ((here, tree.names here.place) :: outer) outer (walk tree fuel here) := by
  induction fuel generalizing here outer with
  | zero => exact absurd h (Nat.not_lt_zero _)
  | succ fuel ih =>
      rw [walk_succ]
      refine passes_collect (fun name visit ho outer => ih ?_ outer) _ outer
      have hlt := room_lt_of_enters (enters_of_outcome ho)
      omega

/-- A walk that is under way ends: the directories that it is in are passed one after the other. -/
theorem exists_ends (tree : FileTree ν) (p : Progress ν) : ∃ result, Ends tree p result := by
  obtain ⟨stack, found⟩ := p
  induction stack generalizing found with
  | nil => exact ⟨.ok found, .now rfl⟩
  | cons frame outer ih =>
      obtain ⟨here, names⟩ := frame
      have hpasses : Passes tree ((here, names) :: outer) outer
          (collect (visitEntry tree (walk tree (levels tree)) here) names) :=
        passes_collect (fun _ visit _ => passes_walk (room_lt_levels tree visit)) names outer
      cases hcollect : collect (visitEntry tree (walk tree (levels tree)) here) names with
      | error cause =>
          rw [hcollect] at hpasses
          exact ⟨.error cause, hpasses found⟩
      | ok files =>
          rw [hcollect] at hpasses
          obtain ⟨result, hresult⟩ := ih (found ++ files)
          exact ⟨result, hpasses found result hresult⟩

/-! ### Discovery -/

/-- What a discovery comes to, without fuel. -/
inductive DiscoversTo (tree : FileTree ν) (rootName : RootName) :
    Except DiscoveryError (Discovery ν) → Prop
  | unopened {cause : FileError} : tree.canonical rootName = .error cause →
      DiscoversTo tree rootName (.error (.unopened rootName))
  | notDirectory {root : Place ν} : tree.canonical rootName = .ok root →
      (∀ entry, tree.get? root = some entry → entry.isFolder = false) →
      DiscoversTo tree rootName (.error (.notDirectory rootName))
  | closed {root : Place ν} : tree.canonical rootName = .ok root →
      tree.get? root = some .closed →
      DiscoversTo tree rootName (.error (.walk (.unreachable .denied)))
  | stopped {root : Place ν} {cause : WalkError} : tree.canonical rootName = .ok root →
      tree.isDirectory root = true →
      Ends tree (.start tree (.start root)) (.error cause) →
      DiscoversTo tree rootName (.error (.walk cause))
  | listed {root : Place ν} {files : List (Place ν)} : tree.canonical rootName = .ok root →
      tree.isDirectory root = true →
      Ends tree (.start tree (.start root)) (.ok files) →
      DiscoversTo tree rootName (.ok ⟨root, files⟩)

theorem DiscoversTo.ne_tooDeep {rootName : RootName} {result : Except DiscoveryError (Discovery ν)}
    (h : DiscoversTo tree rootName result) : result ≠ .error (.walk .tooDeep) := by
  cases h with
  | stopped _ _ hends =>
      intro he
      have hcause := DiscoveryError.walk.inj (Except.error.inj he)
      exact hends.ne_tooDeep (congrArg _ hcause)
  | _ => exact nofun

/-- Fuel that covers the room finds what is found without fuel. -/
theorem ends_walk {fuel : Nat} (h : here.room tree < fuel) :
    Ends tree (.start tree here) (walk tree fuel here) :=
  (passes_walk h []).ends

theorem ends_beneath {root : Place ν} (hroot : tree.isDirectory root = true) :
    Ends tree (.start tree (.start root)) (beneath tree root) := by
  rw [beneath_eq_walk hroot (Nat.le_add_right (fuel tree) (levels tree))]
  have hroom := room_lt_levels tree (.start root)
  exact ends_walk (by omega)

theorem discoversTo_discover (tree : FileTree ν) (rootName : RootName) :
    DiscoversTo tree rootName (discover tree rootName) := by
  unfold discover
  split
  · rename_i hroot
    exact .unopened hroot
  · rename_i root hroot
    split
    · rename_i hentry
      have hdirectory := FileTree.isDirectory_eq_true_iff.2 hentry
      have hends := ends_beneath hdirectory
      split
      · rename_i hbeneath
        rw [hbeneath] at hends
        exact .stopped hroot hdirectory hends
      · rename_i hbeneath
        rw [hbeneath] at hends
        exact .listed hroot hdirectory hends
    · rename_i hclosed
      exact .closed hroot hclosed
    · rename_i hdirectory hclosed
      refine .notDirectory hroot fun entry hentry => ?_
      cases entry with
      | directory => exact absurd hentry hdirectory
      | closed => exact absurd hentry hclosed
      | _ => rfl

end

/-- **Discovery ends.**  On every tree, whatever links there are in it, and for every root,
discovery comes to what it comes to without fuel, a list of files or an error, and the error is
never that the fuel was used up.  The walk beneath the root ends as any walk does: from every state
that a walk can be in it comes to one result after finitely many steps.  However many links a path
may lead over, a walk never goes beyond a number of levels that depends on the tree alone. -/
theorem discover_ends {ν : Type} [DecidableEq ν] [FileName ν] (tree : FileTree ν)
    (rootName : RootName) :
    DiscoversTo tree rootName (discover tree rootName)
      ∧ discover tree rootName ≠ .error (.walk .tooDeep)
      ∧ (∀ p : Progress ν, ∃! result, Ends tree p result)
      ∧ ∀ here : Visit ν, Ends tree (.start tree here) (walk tree (levels tree) here) := by
  have hdiscover := discoversTo_discover tree rootName
  refine ⟨hdiscover, hdiscover.ne_tooDeep, fun p => ?_,
    fun here => ends_walk (room_lt_levels tree here)⟩
  obtain ⟨result, hresult⟩ := exists_ends tree p
  exact ⟨result, hresult, fun other hother => hother.unique hresult⟩

/-- A link that leads above the root.  The walk enters the root a second time by its name, and it
ends at the link in there. -/
example :
    discover
        ⟨[([text "docs"], .directory), ([text "docs", text "a.md"], .file (some [])),
          ([text "docs", text "up"], .link (Path.route (.ofString "..")))], []⟩
        (.path (.ofString "docs"))
      = .error (.walk .cycle) := by
  rfl

end Discovery

end DocAudit
