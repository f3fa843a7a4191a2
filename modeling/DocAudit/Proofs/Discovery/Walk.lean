import DocAudit.Discovery
import DocAudit.Proofs.FileTree.Names

/-!
# The steps of a walk

What an entry means for a walk is decided before the walk enters anything: it
stops the walk, it is skipped, it is listed, or it is entered.  A walk works off
the entries of a directory one after the other.

Whenever a walk enters a directory, a bound on the levels that are still to come
goes down: behind a link there is one link less to follow, and beneath a plain
directory there is one name less to the depth of the tree.  The fuel of a walk
does not matter therefore, as long as it reaches the bound.

**Results.**
* `enters_of_outcome`, `lists_of_outcome`, `skips_of_outcome`: what an entry is
  that has an outcome.
* `outcome_of_isHidden`: a hidden entry is skipped, unless it ends the walk.
* `walk_succ`: a walk collects what the entries contribute.
* `bound_lt_of_enters`: entering a directory lowers the bound.
* `beneath_eq_walk`: more fuel than enough changes nothing.
-/

namespace DocAudit
namespace Discovery

variable {ν : Type} [DecidableEq ν] [FileName ν]

/-- What the entries of some names contribute one after the other, up to the first error. -/
def collect (visit : ν → Except WalkError (List (Place ν))) :
    List ν → Except WalkError (List (Place ν))
  | [] => .ok []
  | name :: names => do
      let first ← visit name
      let rest ← collect visit names
      .ok (first ++ rest)

/-- A walk that is in a directory enters another one through a name there. -/
structure Enters (tree : FileTree ν) (here : Visit ν) (name : ν) (visit : Visit ν) : Prop where
  follow_eq : tree.follow here.links here.place [.down name] = .ok (visit.place, visit.links)
  isDirectory : tree.isDirectory visit.place = true
  not_hidden : isHidden name = false
  reached_eq : visit.reached = here.reach name
  not_tooLong : visit.reached.isTooLong = false
  trail_eq : visit.trail = visit.place :: here.trail
  not_cycle : tree.isLink (here.place ++ [name]) = true → visit.place ∉ here.trail

/-- A name in the directory that a walk is in leads to a file that the walk lists. -/
structure Lists (tree : FileTree ν) (here : Visit ν) (name : ν) (file : Place ν) : Prop where
  leads : ∃ r content, tree.follow here.links here.place [.down name] = .ok r
    ∧ tree.get? r.1 = some (.file content)
  not_hidden : isHidden name = false
  file_eq : file = here.reach name

/-- A name in the directory that a walk is in is hidden, or it leads neither to a file nor to a
directory. -/
def Skips (tree : FileTree ν) (here : Visit ν) (name : ν) : Prop :=
  isHidden name = true ∨ ∃ r, tree.follow here.links here.place [.down name] = .ok r
    ∧ tree.isDirectory r.1 = false ∧ ∀ content, tree.get? r.1 ≠ some (.file content)

section

variable {tree : FileTree ν} {here visit : Visit ν} {name : ν}

theorem follow_of_look {r : Place ν × Nat} (h : here.look tree name = .ok r) :
    tree.follow here.links here.place [.down name] = .ok r := by
  unfold Visit.look at h
  split at h
  · cases h
  · exact h

theorem enters_of_outcome (h : outcome tree here name = .entered visit) :
    Enters tree here name visit := by
  unfold outcome at h
  split at h
  · cases h
  · rename_i place links hlook
    split at h
    · rename_i hdirectory
      split at h
      · cases h
      · rename_i hcycle
        split at h
        · cases h
        · rename_i hhidden
          split at h
          · cases h
          · rename_i hlength
            cases h
            exact ⟨follow_of_look hlook, FileTree.isDirectory_eq_true_iff.2 hdirectory,
              by simpa using hhidden, rfl, by simpa using hlength, rfl, by simpa using hcycle⟩
    · split at h <;> cases h
    · split at h <;> cases h
    · cases h

theorem lists_of_outcome {file : Place ν} (h : outcome tree here name = .listed file) :
    Lists tree here name file := by
  unfold outcome at h
  split at h
  · cases h
  · rename_i place links hlook
    split at h
    · split at h
      · cases h
      · split at h
        · cases h
        · split at h <;> cases h
    · split at h <;> cases h
    · rename_i content hfile
      split at h
      · cases h
      · rename_i hhidden
        cases h
        exact ⟨⟨_, content, follow_of_look hlook, hfile⟩, by simpa using hhidden, rfl⟩
    · cases h

theorem skips_of_outcome (h : outcome tree here name = .skipped) : Skips tree here name := by
  unfold outcome at h
  split at h
  · cases h
  · rename_i place links hlook
    split at h
    · split at h
      · cases h
      · split at h
        · rename_i hhidden
          exact Or.inl hhidden
        · split at h <;> cases h
    · split at h
      · rename_i hhidden
        exact Or.inl (Bool.and_eq_true_iff.1 hhidden).1
      · cases h
    · split at h
      · rename_i hhidden
        exact Or.inl hhidden
      · cases h
    · rename_i hdirectory _ hfile
      exact Or.inr ⟨_, follow_of_look hlook, by simpa [FileTree.isDirectory] using hdirectory,
        hfile⟩

/-- A hidden entry is skipped, unless it ends the walk. -/
theorem outcome_of_isHidden (h : isHidden name = true) :
    outcome tree here name = .skipped ∨ ∃ cause, outcome tree here name = .stops cause := by
  cases ho : outcome tree here name with
  | stops cause => exact Or.inr ⟨cause, rfl⟩
  | skipped => exact Or.inl rfl
  | listed file =>
      have hnot := (lists_of_outcome ho).not_hidden
      rw [h] at hnot
      cases hnot
  | entered visit =>
      have hnot := (enters_of_outcome ho).not_hidden
      rw [h] at hnot
      cases hnot

omit [DecidableEq ν] [FileName ν] in
theorem collect_cons_congr {f g : ν → Except WalkError (List (Place ν))} {names others : List ν}
    (hfirst : f name = g name)
    (hrest : (g name).isOk = true → collect f names = collect g others) :
    collect f (name :: names) = collect g (name :: others) := by
  rw [collect, collect, hfirst]
  cases hg : g name with
  | error cause => rfl
  | ok first =>
      have hok : (g name).isOk = true := by
        rw [hg]
        rfl
      rw [hrest hok]

omit [DecidableEq ν] [FileName ν] in
theorem collect_congr {f g : ν → Except WalkError (List (Place ν))} {names : List ν}
    (h : ∀ name ∈ names, f name = g name) : collect f names = collect g names := by
  induction names with
  | nil => rfl
  | cons name names ih =>
      refine collect_cons_congr (h name List.mem_cons_self) fun _ => ?_
      exact ih fun n hn => h n (List.mem_cons_of_mem name hn)

omit [DecidableEq ν] [FileName ν] in
theorem collect_cons_of_ok {visit : ν → Except WalkError (List (Place ν))} {names : List ν}
    {first : List (Place ν)} (h : visit name = .ok first) :
    collect visit (name :: names) = (collect visit names).map (first ++ ·) := by
  rw [collect, h]
  cases collect visit names <;> rfl

omit [DecidableEq ν] [FileName ν] in
theorem collect_cons_of_ok_nil {visit : ν → Except WalkError (List (Place ν))} {names : List ν}
    (h : visit name = .ok []) : collect visit (name :: names) = collect visit names := by
  rw [collect_cons_of_ok h]
  cases collect visit names <;> rfl

omit [DecidableEq ν] [FileName ν] in
theorem collect_cons_of_error {visit : ν → Except WalkError (List (Place ν))} {names : List ν}
    {cause : WalkError} (h : visit name = .error cause) :
    collect visit (name :: names) = .error cause := by
  rw [collect, h]
  rfl

omit [DecidableEq ν] [FileName ν] in
theorem exists_error_of_collect_cons {visit : ν → Except WalkError (List (Place ν))}
    {names : List ν} {cause : WalkError} (h : collect visit names = .error cause) :
    ∃ first, collect visit (name :: names) = .error first := by
  rw [collect, h]
  cases visit name with
  | error first => exact ⟨first, rfl⟩
  | ok first => exact ⟨cause, rfl⟩

/-- A walk collects what the entries of the directory contribute. -/
theorem walk_succ (tree : FileTree ν) (fuel : Nat) (here : Visit ν) :
    walk tree (fuel + 1) here
      = collect (visitEntry tree (walk tree fuel) here) (tree.names here.place) := by
  rw [walk]
  induction tree.names here.place with
  | nil => rfl
  | cons name names ih =>
      rw [collect, ← ih, List.mapM_cons]
      cases visitEntry tree (walk tree fuel) here name with
      | error e => rfl
      | ok first =>
          cases names.mapM (visitEntry tree (walk tree fuel) here) with
          | error e => rfl
          | ok found => rfl

/-- A bound on the levels of a walk, the one that it is in included. -/
def Visit.bound (tree : FileTree ν) (here : Visit ν) : Nat :=
  here.links * (tree.depth + 1) + (tree.depth - here.place.length) + 1

/-- Where a walk starts. -/
def Visit.start (root : Place ν) : Visit ν := ⟨root, root, FileTree.maxLinks, [root]⟩

theorem bound_lt_of_enters (hplace : tree.isDirectory here.place = true)
    (hname : name ∈ tree.names here.place) (h : Enters tree here name visit) :
    visit.bound tree < here.bound tree := by
  have hfollow := h.follow_eq
  have hentry := (FileTree.mem_names tree here.place name).1 hname
  simp only [Visit.bound]
  cases hlink : tree.isLink (here.place ++ [name]) with
  | true =>
      have hlinks : visit.links + 1 ≤ here.links :=
        FileTree.links_lt_of_follow_down hplace hlink hfollow
      have hlevels := Nat.mul_le_mul_right (tree.depth + 1) hlinks
      rw [Nat.add_mul] at hlevels
      omega
  | false =>
      rw [FileTree.follow_down_of_not_isLink hplace hentry hlink] at hfollow
      injection hfollow with hfollow
      injection hfollow with hvisit hlinks
      have hdepth := FileTree.length_le_depth hentry
      rw [← hvisit, ← hlinks]
      simp only [List.length_append, List.length_singleton] at hdepth ⊢
      omega

/-- Any two amounts of fuel that reach the bound give the same walk. -/
theorem walk_congr_fuel {fuel more : Nat} (hplace : tree.isDirectory here.place = true)
    (hfuel : here.bound tree ≤ fuel) (hmore : here.bound tree ≤ more) :
    walk tree fuel here = walk tree more here := by
  induction fuel generalizing more here with
  | zero => exact absurd hfuel (by simp [Visit.bound])
  | succ fuel ih =>
      obtain ⟨more, rfl⟩ : ∃ n, more = n + 1 := by
        refine ⟨more - 1, ?_⟩
        simp only [Visit.bound] at hmore
        omega
      rw [walk_succ, walk_succ]
      refine collect_congr ?_
      intro name hname
      rw [visitEntry, visitEntry]
      split
      · rfl
      · rfl
      · rfl
      · rename_i visit hentered
        have henters := enters_of_outcome hentered
        have hlt := bound_lt_of_enters hplace hname henters
        exact ih henters.isDirectory (by omega) (by omega)

omit [DecidableEq ν] [FileName ν] in
theorem bound_start_le_fuel (tree : FileTree ν) (root : Place ν) :
    (Visit.start root).bound tree ≤ fuel tree := by
  simp only [Visit.bound, Visit.start, fuel, Nat.add_mul]
  omega

theorem beneath_eq_walk {root : Place ν} (hroot : tree.isDirectory root = true) {more : Nat}
    (hmore : fuel tree ≤ more) : beneath tree root = walk tree more (.start root) := by
  have hbound := bound_start_le_fuel tree root
  exact walk_congr_fuel hroot hbound (Nat.le_trans hbound hmore)

end

end Discovery
end DocAudit
