import DocAudit.FileTree.Edit
import Mathlib.Data.List.Induction

/-!
# What following a path reads

A path is followed from place to place.  `trace` is the list of the places that
it comes to, the links among them included, and nothing else of the tree is
read.  Trees that agree on the trace follow the path alike, so that an entry
can be taken out of a tree without a change for the paths that pass it by.

**Results.**
* `follow_congr`: a path is followed alike in trees that agree on its trace.
* `mem_trace_of_follow`: the trace comes to the place that the path leads to.
* `follow_down`: what a name in a directory leads to.
* `links_le_of_follow`: following a path uses up links.
* `get?_erase`: what there is in a tree without an entry.
-/

namespace DocAudit
namespace FileTree

variable {ν : Type} [DecidableEq ν] [FileName ν]

/-- The places that steps come to up to the first symbolic link.  There `jump` gives the places that
they come to from where the target starts. -/
def traceToLink (tree : FileTree ν) (jump : Place ν → List (Step ν) → List (Place ν)) :
    Place ν → List (Step ν) → List (Place ν)
  | place, [] => [place]
  | place, step :: rest =>
      place ::
        match tree.get? place with
        | some .directory =>
            match step with
            | .stay => traceToLink tree jump place rest
            | .up => traceToLink tree jump place.dropLast rest
            | .down name =>
                match tree.get? (place ++ [name]) with
                | none => [place ++ [name]]
                | some (.link target) =>
                    (place ++ [name]) :: jump (start place target) (target.steps ++ rest)
                | some _ => traceToLink tree jump (place ++ [name]) rest
        | _ => []

/-- The places that steps come to from a place over at most so many symbolic links. -/
def trace (tree : FileTree ν) : (links : Nat) → Place ν → List (Step ν) → List (Place ν)
  | 0 => tree.traceToLink fun _ _ => []
  | links + 1 => tree.traceToLink (trace tree links)

/-- The places that a route comes to. -/
def routeTrace (tree : FileTree ν) (route : Route ν) : List (Place ν) :=
  tree.trace maxLinks (start tree.workingDirectory route) route.steps

section

variable {tree other : FileTree ν} {links : Nat}

theorem self_mem_traceToLink (tree : FileTree ν)
    (jump : Place ν → List (Step ν) → List (Place ν)) (place : Place ν) (steps : List (Step ν)) :
    place ∈ tree.traceToLink jump place steps := by
  cases steps <;> simp [traceToLink]

theorem next_mem_traceToLink {place : Place ν} (h : tree.get? place = some .directory)
    (jump : Place ν → List (Step ν) → List (Place ν)) (name : ν) (rest : List (Step ν)) :
    place ++ [name] ∈ tree.traceToLink jump place (.down name :: rest) := by
  simp only [traceToLink, h, List.mem_cons]
  right
  split
  · exact List.mem_singleton_self _
  · exact List.mem_cons_self
  · exact self_mem_traceToLink tree jump _ rest

theorem advance_congr {jump jump' : Place ν → List (Step ν) → Except FileError (Place ν × Nat)}
    {places : Place ν → List (Step ν) → List (Place ν)}
    (hjump : ∀ place steps, (∀ q ∈ places place steps, tree.get? q = other.get? q) →
      jump place steps = jump' place steps)
    {place : Place ν} {steps : List (Step ν)}
    (h : ∀ q ∈ tree.traceToLink places place steps, tree.get? q = other.get? q) :
    tree.advance links jump place steps = other.advance links jump' place steps := by
  fun_induction advance tree links jump place steps with
  | case1 place => rfl
  | case2 place step rest hnone =>
      have hplace := h place (self_mem_traceToLink tree places place _)
      rw [hnone] at hplace
      simp only [advance, ← hplace]
  | case3 place rest hdirectory ih =>
      simp only [traceToLink, hdirectory, List.mem_cons, forall_eq_or_imp] at h
      simp only [advance, ← h.1]
      exact ih h.2
  | case4 place rest hdirectory ih =>
      simp only [traceToLink, hdirectory, List.mem_cons, forall_eq_or_imp] at h
      simp only [advance, ← h.1]
      exact ih h.2
  | case5 place rest hdirectory name hnone =>
      simp only [traceToLink, hdirectory, hnone, List.mem_cons, List.not_mem_nil, or_false,
        forall_eq_or_imp, forall_eq] at h
      simp only [advance, ← h.1, ← h.2]
  | case6 place rest hdirectory name target hlink =>
      simp only [traceToLink, hdirectory, hlink, List.mem_cons, forall_eq_or_imp] at h
      simp only [advance, ← h.1, ← h.2.1]
      exact hjump _ _ h.2.2
  | case7 place rest hdirectory name entry hlink hentry ih =>
      have hnext := h _ (next_mem_traceToLink hdirectory places name rest)
      simp only [traceToLink, hdirectory, hentry, List.mem_cons, forall_eq_or_imp] at h
      cases entry with
      | link target => exact absurd rfl (hlink target)
      | _ =>
          simp only [advance, ← h.1, ← hnext, hentry]
          exact ih h.2
  | case8 place step rest hclosed =>
      have hplace := h place (self_mem_traceToLink tree places place _)
      rw [hclosed] at hplace
      simp only [advance, ← hplace]
  | case9 place step rest entry hdirectory hclosed hentry =>
      have hplace := h place (self_mem_traceToLink tree places place _)
      rw [hentry] at hplace
      cases entry with
      | directory => exact absurd rfl hdirectory
      | closed => exact absurd rfl hclosed
      | _ => simp only [advance, ← hplace]

/-- A path is followed alike in trees that have the same entries at all places that it comes to. -/
theorem follow_congr {place : Place ν} {steps : List (Step ν)}
    (h : ∀ q ∈ tree.trace links place steps, tree.get? q = other.get? q) :
    tree.follow links place steps = other.follow links place steps := by
  induction links generalizing place steps with
  | zero => exact advance_congr (fun _ _ _ => rfl) h
  | succ links ih => exact advance_congr (fun _ _ hq => ih hq) h

theorem mem_traceToLink_of_advance
    {jump : Place ν → List (Step ν) → Except FileError (Place ν × Nat)}
    {places : Place ν → List (Step ν) → List (Place ν)}
    (hjump : ∀ place steps r, jump place steps = .ok r → r.1 ∈ places place steps)
    {place : Place ν} {steps : List (Step ν)} {r : Place ν × Nat}
    (h : tree.advance links jump place steps = .ok r) :
    r.1 ∈ tree.traceToLink places place steps := by
  fun_induction advance tree links jump place steps with
  | case1 place =>
      cases h
      exact List.mem_singleton_self _
  | case2 => cases h
  | case3 place rest hdirectory ih =>
      simp only [traceToLink, hdirectory]
      exact List.mem_cons_of_mem _ (ih h)
  | case4 place rest hdirectory ih =>
      simp only [traceToLink, hdirectory]
      exact List.mem_cons_of_mem _ (ih h)
  | case5 => cases h
  | case6 place rest hdirectory name target hlink =>
      simp only [traceToLink, hdirectory, hlink]
      exact List.mem_cons_of_mem _ (List.mem_cons_of_mem _ (hjump _ _ _ h))
  | case7 place rest hdirectory name entry hlink hentry ih =>
      simp only [traceToLink, hdirectory, hentry]
      cases entry with
      | link target => exact absurd rfl (hlink target)
      | _ => exact List.mem_cons_of_mem _ (ih h)
  | case8 => cases h
  | case9 => cases h

theorem mem_trace_of_follow {place : Place ν} {steps : List (Step ν)} {r : Place ν × Nat}
    (h : tree.follow links place steps = .ok r) : r.1 ∈ tree.trace links place steps := by
  induction links generalizing place steps r with
  | zero =>
      refine mem_traceToLink_of_advance ?_ h
      intro _ _ _ hnone
      cases hnone
  | succ links ih => exact mem_traceToLink_of_advance (fun _ _ _ hr => ih hr) h

theorem links_le_of_advance {jump : Place ν → List (Step ν) → Except FileError (Place ν × Nat)}
    (hjump : ∀ place steps r, jump place steps = .ok r → r.2 ≤ links)
    {place : Place ν} {steps : List (Step ν)} {r : Place ν × Nat}
    (h : tree.advance links jump place steps = .ok r) : r.2 ≤ links := by
  fun_induction advance tree links jump place steps with
  | case1 place =>
      cases h
      exact Nat.le_refl _
  | case2 => cases h
  | case3 place rest hdirectory ih => exact ih h
  | case4 place rest hdirectory ih => exact ih h
  | case5 => cases h
  | case6 place rest hdirectory name target hlink => exact hjump _ _ _ h
  | case7 place rest hdirectory name entry hlink hentry ih => exact ih h
  | case8 => cases h
  | case9 => cases h

theorem links_le_of_follow {place : Place ν} {steps : List (Step ν)} {r : Place ν × Nat}
    (h : tree.follow links place steps = .ok r) : r.2 ≤ links := by
  induction links generalizing place steps r with
  | zero =>
      refine links_le_of_advance ?_ h
      intro _ _ _ hnone
      cases hnone
  | succ links ih => exact links_le_of_advance (fun _ _ _ hr => Nat.le_succ_of_le (ih hr)) h

theorem isLink_eq_true_iff {place : Place ν} :
    tree.isLink place = true ↔ ∃ target, tree.get? place = some (.link target) := by
  unfold isLink
  split <;> simp_all

theorem isDirectory_eq_true_iff {place : Place ν} :
    tree.isDirectory place = true ↔ tree.get? place = some .directory := by
  simp [isDirectory]

/-- What a name in a directory leads to. -/
theorem follow_down {place : Place ν} (hplace : tree.isDirectory place = true) (name : ν) :
    tree.follow links place [.down name] =
      match tree.get? (place ++ [name]), links with
      | none, _ => .error .notFound
      | some (.link _), 0 => .error .tooManyLinks
      | some (.link target), links + 1 => tree.follow links (start place target) target.steps
      | some _, links => .ok (place ++ [name], links) := by
  rw [isDirectory_eq_true_iff] at hplace
  cases hentry : tree.get? (place ++ [name]) with
  | none => cases links <;> simp [follow, advance, hplace, hentry]
  | some entry => cases links <;> cases entry <;> simp [follow, advance, hplace, hentry]

theorem follow_down_of_not_isLink {place : Place ν} {name : ν}
    (hplace : tree.isDirectory place = true) (hentry : (tree.get? (place ++ [name])).isSome)
    (hlink : tree.isLink (place ++ [name]) = false) (links : Nat) :
    tree.follow links place [.down name] = .ok (place ++ [name], links) := by
  obtain ⟨entry, he⟩ := Option.isSome_iff_exists.1 hentry
  rw [follow_down hplace, he]
  cases entry with
  | link target => simp [isLink, he] at hlink
  | _ => rfl

theorem links_lt_of_follow_down {place : Place ν} (hplace : tree.isDirectory place = true)
    {name : ν} (hlink : tree.isLink (place ++ [name]) = true) {r : Place ν × Nat}
    (h : tree.follow links place [.down name] = .ok r) : r.2 < links := by
  obtain ⟨target, htarget⟩ := isLink_eq_true_iff.1 hlink
  rw [follow_down hplace, htarget] at h
  cases links with
  | zero => cases h
  | succ links => exact Nat.lt_succ_of_le (links_le_of_follow h)

theorem trace_down_of_not_isLink {place : Place ν} {name : ν}
    (hplace : tree.isDirectory place = true) (hentry : (tree.get? (place ++ [name])).isSome)
    (hlink : tree.isLink (place ++ [name]) = false) (links : Nat) :
    tree.trace links place [.down name] = [place, place ++ [name]] := by
  rw [isDirectory_eq_true_iff] at hplace
  obtain ⟨entry, he⟩ := Option.isSome_iff_exists.1 hentry
  cases entry with
  | link target => simp [isLink, he] at hlink
  | _ => cases links <;> simp [trace, traceToLink, hplace, he]

theorem isDirectory_congr {place : Place ν} (h : tree.get? place = other.get? place) :
    tree.isDirectory place = other.isDirectory place := by
  rw [isDirectory, isDirectory, h]

theorem isLink_congr {place : Place ν} (h : tree.get? place = other.get? place) :
    tree.isLink place = other.isLink place := by
  rw [isLink, isLink, h]

theorem exists_follow_of_locate {route : Route ν} {place : Place ν}
    (h : tree.locate route = .ok place) :
    ∃ r, tree.follow maxLinks (start tree.workingDirectory route) route.steps = .ok r
      ∧ r.1 = place := by
  unfold locate at h
  cases hfollow : tree.follow maxLinks (start tree.workingDirectory route) route.steps with
  | error cause =>
      rw [hfollow] at h
      cases h
  | ok r =>
      rw [hfollow] at h
      exact ⟨r, rfl, Except.ok.inj h⟩

end

/-- Without the entry at a place there is nothing at the place and below it, and all else is as it
was. -/
theorem get?_erase (tree : FileTree ν) {place : Place ν} (hplace : place ≠ []) (q : Place ν) :
    (tree.erase place).get? q = if place <+: q then none else tree.get? q := by
  induction q using List.reverseRecOn with
  | nil => simp [hplace]
  | append_singleton directory name ih =>
      rw [get?_concat, get?_concat, ih]
      by_cases hwithin : place <+: directory ++ [name]
      · have hnone : (tree.erase place).entries.find?
            (fun e => decide (e.1 = directory ++ [name])) = none := by
          simp only [erase, List.find?_eq_none, List.mem_filter]
          grind
        rw [hnone, Option.map_none, ite_self, if_pos hwithin]
      · have habove : ¬ place <+: directory := fun h =>
          hwithin (h.trans (List.prefix_append _ _))
        have hsame : (tree.erase place).entries.find?
            (fun e => decide (e.1 = directory ++ [name]))
              = tree.entries.find? fun e => decide (e.1 = directory ++ [name]) := by
          simp only [erase, List.find?_filter]
          congr 1
          funext e
          grind
        rw [if_neg habove, if_neg hwithin, hsame]

omit [FileName ν] in
theorem depth_erase_le (tree : FileTree ν) (place : Place ν) :
    (tree.erase place).depth ≤ tree.depth := by
  simp only [depth, erase]
  induction tree.entries with
  | nil => exact Nat.le_refl _
  | cons e entries ih =>
      rw [List.filter_cons]
      split <;> simp only [List.map_cons, List.foldr_cons] <;> omega

end FileTree
end DocAudit
