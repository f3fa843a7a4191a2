import DocAudit.Proofs.FileTree.Trace
import DocAudit.Proofs.Outcome

/-!
# Files that are written and read

A file is written where the last name of a path lies, or where the links lead
that stand under that name.  On the way there the path comes to directories and
links alone, and what is written over is neither, so that the path leads through
the changed tree as it did before and ends at the new file.

**Results.**
* `run_writeFile`: writing a file puts it at one place or changes nothing, and
  the place does not depend on the content.
* `get?_put`: what there is in a tree with a further file.
* `isInner_of_mem_trace`: a path that leads to a directory comes to directories
  and links alone.
* `filePlace_cases`: where the file of a slot is written.
* `follow_put`, `read_put`: what is written at a path is read there.
-/

namespace DocAudit
namespace FileTree

/-- The place where a file is written that a path names. -/
def writePlace (tree : FileTree) (p : Path) : Except FileError Place := do
  tree.filePlace (maxLinks + 1) (← tree.slot p)

/-- Whether a file can be written at a path. -/
def Writable (tree : FileTree) (p : Path) : Prop := ∃ place, tree.writePlace p = .ok place

theorem run_get_bind {β : Type} (f : FileTree → Edit β) (tree : FileTree) :
    (get >>= f).run tree = (f tree).run tree := rfl

theorem run_lift_bind {α β : Type} (x : Except FileError α) (f : α → Edit β) (tree : FileTree) :
    (liftM x >>= f : Edit β).run tree =
      match x with
      | .error cause => (.error cause, tree)
      | .ok a => (f a).run tree := by
  cases x <;> rfl

theorem run_set (other tree : FileTree) : (set other : Edit Unit).run tree = (.ok (), other) := rfl

/-- Writing a file puts it where the path leads to, or changes nothing. -/
theorem run_writeFile (p : Path) (content : Octets) (tree : FileTree) :
    (writeFile p content).run tree =
      match tree.writePlace p with
      | .error cause => (.error cause, tree)
      | .ok place => (.ok (), tree.put place (.file (some content))) := by
  rw [writeFile, run_get_bind, run_lift_bind, writePlace]
  cases tree.slot p with
  | error cause => rfl
  | ok slot =>
      simp only [run_lift_bind, run_set]
      simp only [bind, Except.bind]
      cases tree.filePlace (maxLinks + 1) slot <;> rfl

section

variable {ν : Type} [DecidableEq ν] [FileName ν] {tree : FileTree ν} {links : Nat}
  {place : Place ν}

/-- Whether a path can lead on from a place: there is an open directory or a link. -/
def IsInner (tree : FileTree ν) (place : Place ν) : Prop :=
  tree.isDirectory place = true ∨ tree.isLink place = true

/-- Whether a file can be written at a place: it lies in a directory, by a name, and no path can
lead on from there. -/
def IsVacant (tree : FileTree ν) (place : Place ν) : Prop :=
  ∃ directory name, place = directory ++ [name] ∧ FileName.isName name = true
    ∧ tree.isDirectory directory = true ∧ ¬ tree.IsInner place

omit [FileName ν] in
theorem find?_put (tree : FileTree ν) (place : Place ν) (entry : Entry ν) (q : Place ν) :
    ((tree.put place entry).entries.find? fun e => e.1 = q).map (·.2)
      = if q = place then some entry else (tree.entries.find? fun e => e.1 = q).map (·.2) := by
  by_cases hq : q = place
  · simp [put, hq]
  · have hq' : ¬ place = q := fun e => hq e.symm
    rw [if_neg hq, put, List.find?_cons_of_neg (by simpa using hq'), List.find?_filter]
    congr 2
    funext e
    grind

/-- A file that is put at a vacant place is there, and all else is as it was. -/
theorem get?_put (hplace : tree.IsVacant place) (content : Option Octets) (q : Place ν) :
    (tree.put place (.file content)).get? q
      = if q = place then some (.file content) else tree.get? q := by
  obtain ⟨directory, name, rfl, hname, hdirectory, hvacant⟩ := hplace
  have hnot : tree.get? (directory ++ [name]) ≠ some .directory :=
    fun h => hvacant (Or.inl (isDirectory_eq_true_iff.2 h))
  induction q using List.reverseRecOn with
  | nil => simp
  | append_singleton above last ih =>
      rw [get?_concat, get?_concat, ih, find?_put]
      by_cases habove : above = directory ++ [name]
      · -- Below the place there was nothing, and below a file there is nothing.
        simp [habove, hnot]
      · rw [if_neg habove]
        by_cases hsame : above ++ [last] = directory ++ [name]
        · obtain ⟨hfirst, hlast⟩ := List.append_inj' hsame rfl
          obtain rfl := (List.cons.inj hlast).1
          subst hfirst
          rw [if_pos ⟨hname, isDirectory_eq_true_iff.1 hdirectory⟩, if_pos rfl, if_pos rfl]
        · simp only [if_neg hsame]

theorem get?_put_of_isInner {q : Place ν} (hplace : tree.IsVacant place) (hq : tree.IsInner q)
    (content : Option Octets) : (tree.put place (.file content)).get? q = tree.get? q := by
  have hne : q ≠ place := by
    rintro rfl
    obtain ⟨_, _, _, _, _, hvacant⟩ := hplace
    exact hvacant hq
  rw [get?_put hplace, if_neg hne]

theorem isInner_of_mem_traceToLink
    {jump : Place ν → List (Step ν) → Except FileError (Place ν × Nat)}
    {places : Place ν → List (Step ν) → List (Place ν)}
    (hjump : ∀ {place steps r}, jump place steps = .ok r → tree.isDirectory r.1 = true →
      ∀ q ∈ places place steps, tree.IsInner q)
    {steps : List (Step ν)} {r : Place ν × Nat} (h : tree.advance links jump place steps = .ok r)
    (hgoal : tree.isDirectory r.1 = true) :
    ∀ q ∈ tree.traceToLink places place steps, tree.IsInner q := by
  fun_induction advance tree links jump place steps with
  | case1 place =>
      cases h
      simp only [traceToLink, List.mem_singleton, forall_eq]
      exact Or.inl hgoal
  | case2 => cases h
  | case3 place rest hdirectory ih =>
      simp only [traceToLink, hdirectory, List.mem_cons, forall_eq_or_imp]
      exact ⟨Or.inl (isDirectory_eq_true_iff.2 hdirectory), ih h⟩
  | case4 place rest hdirectory ih =>
      simp only [traceToLink, hdirectory, List.mem_cons, forall_eq_or_imp]
      exact ⟨Or.inl (isDirectory_eq_true_iff.2 hdirectory), ih h⟩
  | case5 => cases h
  | case6 place rest hdirectory name target hlink =>
      simp only [traceToLink, hdirectory, hlink, List.mem_cons, forall_eq_or_imp]
      exact ⟨Or.inl (isDirectory_eq_true_iff.2 hdirectory),
        Or.inr (isLink_eq_true_iff.2 ⟨target, hlink⟩), hjump h hgoal⟩
  | case7 place rest hdirectory name entry hlink hentry ih =>
      simp only [traceToLink, hdirectory, hentry, List.mem_cons, forall_eq_or_imp]
      refine ⟨Or.inl (isDirectory_eq_true_iff.2 hdirectory), ?_⟩
      cases entry with
      | link target => exact absurd rfl (hlink target)
      | _ => exact ih h
  | case8 => cases h
  | case9 => cases h

/-- A path that leads to a directory comes to directories and links alone. -/
theorem isInner_of_mem_trace {steps : List (Step ν)} {r : Place ν × Nat}
    (h : tree.follow links place steps = .ok r) (hgoal : tree.isDirectory r.1 = true) :
    ∀ q ∈ tree.trace links place steps, tree.IsInner q := by
  induction links generalizing place steps r with
  | zero =>
      refine isInner_of_mem_traceToLink ?_ h hgoal
      intro _ _ _ hnone
      cases hnone
  | succ links ih =>
      exact isInner_of_mem_traceToLink (fun hr hdirectory => ih hr hdirectory) h hgoal

/-- A path that leads to a directory leads there still when a file is put at a vacant place. -/
theorem follow_put_of_isDirectory {steps : List (Step ν)} {r : Place ν × Nat}
    (h : tree.follow links place steps = .ok r) (hgoal : tree.isDirectory r.1 = true)
    {other : Place ν} (hother : tree.IsVacant other) (content : Option Octets) :
    (tree.put other (.file content)).follow links place steps = .ok r := by
  rw [← h]
  refine (follow_congr ?_).symm
  intro q hq
  exact (get?_put_of_isInner hother (isInner_of_mem_trace h hgoal q hq) content).symm

/-- The steps of a route to a slot lead to a directory, and the last name of the slot comes behind
them if no slash stands there. -/
theorem exists_steps_of_slotFrom {directory : Place ν} {route : Route ν} {slot : Slot ν}
    (h : tree.slotFrom links directory route = .ok slot) :
    tree.isDirectory slot.directory = true ∧
      (slot.slashed = false → ∃ outer, route.steps = outer ++ [.down slot.name] ∧
        tree.follow links (start directory route) outer = .ok (slot.directory, slot.links)) := by
  unfold slotFrom at h
  simp only [] at h
  split at h
  · rename_i last outer hlast
    obtain ⟨r, hfollow, h⟩ := bind_eq_ok_iff.1 h
    split at h
    · rename_i hdirectory
      split at h
      · cases h
        refine ⟨isDirectory_eq_true_iff.2 hdirectory, fun hslashed => ⟨outer.reverse, ?_, hfollow⟩⟩
        -- Nothing was trimmed, and so the steps are those of all segments.
        have hlength := Nat.le_of_not_lt (of_decide_eq_false hslashed)
        have hsuffix := List.dropWhile_suffix (l := route.segments.reverse)
          fun segment => decide (FileName.octets segment = [])
        have hwhole := hsuffix.eq_of_length_le hlength
        rw [hwhole, List.map_reverse] at hlast
        rw [Route.steps, ← List.reverse_reverse (List.map _ _), hlast, List.reverse_cons]
      · cases h
    · cases h
    · cases h
  · cases h

/-- A file is written right where its slot is, or a link there leads to another slot. -/
theorem filePlace_cases {fuel : Nat} {slot : Slot ν}
    (hdirectory : tree.isDirectory slot.directory = true)
    (h : tree.filePlace (fuel + 1) slot = .ok place) :
    slot.slashed = false ∧
      (place = slot.place ∧ tree.IsVacant place ∨
        ∃ target links next, tree.get? slot.place = some (.link target)
          ∧ slot.links = links + 1 ∧ tree.slotFrom links slot.directory target = .ok next
          ∧ tree.filePlace fuel next = .ok place) := by
  rw [filePlace] at h
  split at h
  · cases h
  · rename_i hslashed
    refine ⟨by simpa using hslashed, ?_⟩
    split at h
    · rename_i target hlink
      split at h
      · cases h
      · rename_i links hlinks
        obtain ⟨next, hnext, h⟩ := bind_eq_ok_iff.1 h
        exact Or.inr ⟨target, links, next, hlink, hlinks, hnext, h⟩
    · rename_i content hfile
      cases h
      have hentry : (tree.get? (slot.directory ++ [slot.name])).isSome := by
        rw [← Slot.place, hfile]
        rfl
      exact Or.inl ⟨rfl, slot.directory, slot.name, rfl, (isName_of_isSome_concat hentry).1,
        hdirectory, by simp [IsInner, isDirectory, isLink, hfile]⟩
    · cases h
    · cases h
    · cases h
    · cases h
    · rename_i hnone
      split at h
      · rename_i hname
        cases h
        exact Or.inl ⟨rfl, slot.directory, slot.name, rfl, hname, hdirectory,
          by simp [IsInner, isDirectory, isLink, hnone]⟩
      · cases h

/-- A file is written where there is none or another one. -/
theorem isVacant_of_filePlace {fuel : Nat} {slot : Slot ν}
    (hdirectory : tree.isDirectory slot.directory = true)
    (h : tree.filePlace fuel slot = .ok place) : tree.IsVacant place := by
  induction fuel generalizing slot with
  | zero => cases h
  | succ fuel ih =>
      obtain ⟨-, ⟨-, hvacant⟩ | ⟨_, _, next, -, -, hnext, h⟩⟩ := filePlace_cases hdirectory h
      · exact hvacant
      · exact ih (exists_steps_of_slotFrom hnext).1 h

/-- A route leads to the file that was written at it. -/
theorem follow_put {directory : Place ν} {route : Route ν} {slot : Slot ν} {fuel : Nat}
    (hslot : tree.slotFrom links directory route = .ok slot)
    (hplace : tree.filePlace fuel slot = .ok place) (content : Option Octets) :
    ∃ rest, (tree.put place (.file content)).follow links (start directory route) route.steps
      = .ok (place, rest) := by
  have hvacant := isVacant_of_filePlace (exists_steps_of_slotFrom hslot).1 hplace
  induction fuel generalizing links directory route slot with
  | zero => cases hplace
  | succ fuel ih =>
      obtain ⟨hdirectory, hsteps⟩ := exists_steps_of_slotFrom hslot
      obtain ⟨hslashed, hcases⟩ := filePlace_cases hdirectory hplace
      obtain ⟨outer, hsteps, hfollow⟩ := hsteps hslashed
      have hlater := follow_put_of_isDirectory hfollow hdirectory hvacant content
      have hthere : (tree.put place (.file content)).isDirectory slot.directory = true := by
        rw [isDirectory_congr (get?_put_of_isInner hvacant (Or.inl hdirectory) _)]
        exact hdirectory
      rw [hsteps, follow_append, hlater, Except.bind, follow_down hthere]
      -- The last name leads to the file itself or, where a link stands, to the target, which is the
      -- route of a slot again.
      obtain ⟨rfl, -⟩ | ⟨target, remaining, next, hlink, hlinks, hnext, hplace⟩ := hcases
      · have hfile := get?_put hvacant content slot.place
        rw [if_pos rfl, Slot.place] at hfile
        simp [Slot.place, hfile]
      · have hinner : tree.IsInner slot.place := Or.inr (isLink_eq_true_iff.2 ⟨target, hlink⟩)
        have hsame := (get?_put_of_isInner hvacant hinner content).trans hlink
        rw [Slot.place] at hsame
        simp only [hsame, hlinks]
        exact ih hnext hplace

end

/-- What is written at a path is read there. -/
theorem read_put {tree : FileTree} {place : Place} {p : Path}
    (h : tree.writePlace p = .ok place) (content : Octets) :
    (tree.put place (.file (some content))).read p = .ok content := by
  obtain ⟨slot, hslot, hplace⟩ := bind_eq_ok_iff.1 h
  unfold FileTree.slot at hslot
  split at hslot
  · cases hslot
  · rename_i htext
    split at hslot
    · cases hslot
    · split at hslot
      · cases hslot
      · rename_i hlength
        have hvacant := isVacant_of_filePlace (exists_steps_of_slotFrom hslot).1 hplace
        obtain ⟨rest, hfollow⟩ := follow_put hslot hplace (some content)
        have hresolve : (tree.put place (.file (some content))).resolve p = .ok place := by
          rw [resolve, if_neg htext, if_neg hlength]
          exact congrArg (Except.map (·.1)) hfollow
        rw [read, hresolve]
        simp only [bind, Except.bind, get?_put hvacant, if_true]

end FileTree
end DocAudit
