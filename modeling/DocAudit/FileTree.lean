import DocAudit.FileName

/-!
# File trees

A file tree is a finite table of entries, each at its place, which is the list
of names from the root down to it.  The root is always a directory, and an entry
counts only if it has a name and lies in a directory.

`follow` takes the steps of a path one after the other and goes on at the
target of every symbolic link that it meets, up to a limit of links.

What entries a user may reach is modelled as far as it decides what a walk finds
and what is read: a file may be unreadable, a directory may be closed, and a
path may be too long for the system.  Left out are directories that can be
listed but not passed or passed but not listed, files that can be read but not
written, what is read from entries that are no files, mount points, and changes
by others while the program runs.

**Results.**
* `get?_concat`: what there is right in a directory.
* `mem_names`: a directory holds exactly the names of its entries.
* `length_le_depth`: no entry lies deeper than the depth of the tree.
* `follow_append`: taking two lists of steps is taking the first one and then,
  from where it leads to and with the links that it leaves, the second one.
-/

namespace DocAudit

/-- Why an entry cannot be reached, read or changed. -/
inductive FileError where
  | notFound
  | denied
  | notDirectory
  | isDirectory
  | tooManyLinks
  | occupied
  | notEmpty
  | invalid
  | nameTooLong
deriving DecidableEq, Repr

namespace FileError

/-- The description of an error, with its number. -/
def message : FileError → Text
  | notFound => text "No such file or directory (os error 2)"
  | denied => text "Permission denied (os error 13)"
  | notDirectory => text "Not a directory (os error 20)"
  | isDirectory => text "Is a directory (os error 21)"
  | tooManyLinks => text "Too many levels of symbolic links (os error 40)"
  | occupied => text "File exists (os error 17)"
  | notEmpty => text "Directory not empty (os error 39)"
  | invalid => text "Invalid argument (os error 22)"
  | nameTooLong => text "File name too long (os error 36)"

end FileError

/-- What there is at a place. -/
inductive Entry (ν : Type := Text) where
  /-- A regular file, with its content if it can be read. -/
  | file (content : Option Octets)
  /-- A directory that can be listed and passed. -/
  | directory
  /-- A directory that can neither be listed nor passed. -/
  | closed
  /-- A symbolic link. -/
  | link (target : Route ν)
  /-- An entry of another kind, such as a pipe. -/
  | special
deriving DecidableEq, Repr

namespace Entry

/-- Whether an entry is a directory, open or closed. -/
def isFolder {ν : Type} : Entry ν → Bool
  | directory => true
  | closed => true
  | _ => false

end Entry

/-- The entries of a file system. -/
structure FileTree (ν : Type := Text) where
  /-- The entries by their places; the first one of a place counts. -/
  entries : List (Place ν × Entry ν)
  /-- The directory where relative paths start. -/
  workingDirectory : Place ν
deriving DecidableEq, Repr

namespace FileTree

variable {ν : Type} [DecidableEq ν] [FileName ν]

/-- The entry at a place that is given from its last name up.  An entry counts only by a name and in
a directory. -/
def entryAt? (tree : FileTree ν) : List ν → Option (Entry ν)
  | [] => some .directory
  | name :: above =>
      if FileName.isName name ∧ entryAt? tree above = some .directory then
        (tree.entries.find? fun e => e.1 = (name :: above).reverse).map (·.2)
      else none

/-- The entry at a place. -/
def get? (tree : FileTree ν) (place : Place ν) : Option (Entry ν) := tree.entryAt? place.reverse

/-- Whether there is a directory at a place that can be listed and passed. -/
def isDirectory (tree : FileTree ν) (place : Place ν) : Bool := tree.get? place = some .directory

/-- Whether there is a symbolic link at a place. -/
def isLink (tree : FileTree ν) (place : Place ν) : Bool :=
  match tree.get? place with
  | some (.link _) => true
  | _ => false

/-- Inserts a name into names that ascend by their octets, unless it is one of them. -/
def insertName (name : ν) : List ν → List ν
  | [] => [name]
  | n :: names =>
      if name = n then n :: names
      else if FileName.octets name < FileName.octets n then name :: n :: names
      else n :: insertName name names

/-- The names in a directory, in ascending order. -/
def names (tree : FileTree ν) (directory : Place ν) : List ν :=
  ((tree.entries.filterMap fun e => Place.nameIn? directory e.1).filter fun name =>
    (tree.get? (directory ++ [name])).isSome).foldr insertName []

theorem mem_insertName (name n : ν) (names : List ν) :
    n ∈ insertName name names ↔ n = name ∨ n ∈ names := by
  induction names with
  | nil => simp [insertName]
  | cons m names ih =>
      by_cases he : name = m
      · simp [insertName, he]
      · by_cases hl : FileName.octets name < FileName.octets m
        · simp [insertName, he, hl]
        · simp only [insertName, if_neg he, if_neg hl, List.mem_cons, ih]
          exact or_left_comm

theorem mem_foldr_insertName (n : ν) (names : List ν) :
    n ∈ names.foldr insertName [] ↔ n ∈ names := by
  induction names with
  | nil => simp
  | cons m names ih => simp [mem_insertName, ih]

@[simp] theorem get?_nil (tree : FileTree ν) : tree.get? [] = some .directory := rfl

/-- What there is right in a directory. -/
theorem get?_concat (tree : FileTree ν) (directory : Place ν) (name : ν) :
    tree.get? (directory ++ [name])
      = if FileName.isName name ∧ tree.get? directory = some .directory then
          (tree.entries.find? fun e => e.1 = directory ++ [name]).map (·.2)
        else none := by
  simp only [get?, List.reverse_append, List.reverse_cons, List.reverse_nil, List.nil_append,
    List.cons_append, entryAt?, List.reverse_reverse]
  rfl

/-- An entry has a name, and it lies in a directory. -/
theorem isName_of_isSome_concat {tree : FileTree ν} {directory : Place ν} {name : ν}
    (h : (tree.get? (directory ++ [name])).isSome) :
    FileName.isName name = true ∧ tree.get? directory = some .directory := by
  rw [get?_concat] at h
  split at h
  · assumption
  · cases h

/-- A directory holds exactly the names of its entries. -/
theorem mem_names (tree : FileTree ν) (directory : Place ν) (name : ν) :
    name ∈ tree.names directory ↔ (tree.get? (directory ++ [name])).isSome := by
  simp only [names, mem_foldr_insertName, List.mem_filter, List.mem_filterMap,
    Place.nameIn?_eq_some_iff]
  refine and_iff_right_of_imp fun h => ?_
  obtain ⟨hname, hdirectory⟩ := isName_of_isSome_concat h
  rw [get?_concat, if_pos ⟨hname, hdirectory⟩, Option.isSome_map, List.find?_isSome] at h
  simpa using h

/-- The number of names on the longest place. -/
def depth (tree : FileTree ν) : Nat := (tree.entries.map fun e => e.1.length).foldr max 0

theorem le_foldr_max {n : Nat} {ns : List Nat} (h : n ∈ ns) : n ≤ ns.foldr max 0 := by
  induction ns with
  | nil => cases h
  | cons m ns ih =>
      rw [List.foldr_cons]
      rcases List.mem_cons.1 h with rfl | h
      · exact Nat.le_max_left _ _
      · exact Nat.le_trans (ih h) (Nat.le_max_right _ _)

/-- No entry lies deeper than the depth. -/
theorem length_le_depth {tree : FileTree ν} {place : Place ν} (h : (tree.get? place).isSome) :
    place.length ≤ tree.depth := by
  rcases List.eq_nil_or_concat place with rfl | ⟨directory, name, rfl⟩
  · exact Nat.zero_le _
  · rw [List.concat_eq_append] at h ⊢
    have hcounts := isName_of_isSome_concat h
    rw [get?_concat, if_pos hcounts, Option.isSome_map, List.find?_isSome] at h
    obtain ⟨e, he, hp⟩ := h
    exact le_foldr_max (List.mem_map.2 ⟨e, he, by rw [of_decide_eq_true hp]⟩)

/-- The number of symbolic links that one path may lead over. -/
def maxLinks : Nat := 40

/-- Where a route starts that is followed from a directory. -/
def start (directory : Place ν) (route : Route ν) : Place ν :=
  if route.isAbsolute then [] else directory

/-- Takes the steps from a place up to the first symbolic link.  There `jump` goes on, from where
the target starts, with the steps of the target and then the rest. -/
def advance (tree : FileTree ν) (links : Nat)
    (jump : Place ν → List (Step ν) → Except FileError (Place ν × Nat)) :
    Place ν → List (Step ν) → Except FileError (Place ν × Nat)
  | place, [] => .ok (place, links)
  | place, step :: rest =>
      match tree.get? place with
      | none => .error .notFound
      | some .directory =>
          match step with
          | .stay => advance tree links jump place rest
          | .up => advance tree links jump place.dropLast rest
          | .down name =>
              match tree.get? (place ++ [name]) with
              | none => .error .notFound
              | some (.link target) => jump (start place target) (target.steps ++ rest)
              | some _ => advance tree links jump (place ++ [name]) rest
      | some .closed => .error .denied
      | some _ => .error .notDirectory

/-- Takes the steps from a place over at most so many symbolic links.  Gives the place that they
lead to and the number of links that are left. -/
def follow (tree : FileTree ν) :
    (links : Nat) → Place ν → List (Step ν) → Except FileError (Place ν × Nat)
  | 0 => tree.advance 0 fun _ _ => .error .tooManyLinks
  | links + 1 => tree.advance (links + 1) (follow tree links)

theorem follow_append (tree : FileTree ν) (links : Nat) (place : Place ν)
    (first second : List (Step ν)) :
    tree.follow links place (first ++ second)
      = (tree.follow links place first).bind fun r => tree.follow r.2 r.1 second := by
  induction links generalizing place first with
  | zero =>
      simp only [follow]
      induction first generalizing place with
      | nil => rfl
      | cons step rest ih =>
          simp only [List.cons_append, advance]
          split
          · rfl
          · split
            · exact ih _
            · exact ih _
            · split
              · rfl
              · rfl
              · exact ih _
          · rfl
          · rfl
  | succ links ihLinks =>
      simp only [follow]
      induction first generalizing place with
      | nil => rfl
      | cons step rest ih =>
          simp only [List.cons_append, advance]
          split
          · rfl
          · split
            · exact ih _
            · exact ih _
            · split
              · rfl
              · rw [← List.append_assoc]
                exact ihLinks _ _
              · exact ih _
          · rfl
          · rfl

/-- The place that a route leads to. -/
def locate (tree : FileTree ν) (route : Route ν) : Except FileError (Place ν) :=
  (tree.follow maxLinks (start tree.workingDirectory route) route.steps).map (·.1)

/-- The place that a path leads to which is given to the system. -/
def resolve (tree : FileTree) (p : Path) : Except FileError Place :=
  if p.text = [] then .error .notFound
  else if Place.maxPathLength < Text.octetCount p.text then .error .nameTooLong
  else tree.locate p.route

/-- The content of the file that a path leads to. -/
def read (tree : FileTree) (p : Path) : Except FileError Octets := do
  match tree.get? (← tree.resolve p) with
  | some (.file (some content)) => .ok content
  | some .directory => .error .isDirectory
  | none => .error .notFound
  | _ => .error .denied

/-- Whether a path leads to an entry. -/
def reaches (tree : FileTree) (p : Path) : Bool := (tree.resolve p).isOk

end FileTree

end DocAudit
