import DocAudit.FileTree

/-!
# Changes of a file tree

Files are written, directories and links made, entries removed and renamed.
A change that fails half way keeps what it did before: directories that were
made on the way to a file that could not be written are still there.
-/

namespace DocAudit

namespace FileTree

section

variable {ν : Type} [DecidableEq ν] [FileName ν]

/-- The tree with an entry at a place, in place of any other entry there. -/
def put (tree : FileTree ν) (place : Place ν) (entry : Entry ν) : FileTree ν :=
  { tree with entries := (place, entry) :: tree.entries.filter fun e => e.1 ≠ place }

/-- The tree without the entry at a place and without all that lies below it. -/
def erase (tree : FileTree ν) (place : Place ν) : FileTree ν :=
  { tree with entries := tree.entries.filter fun e => !place.isPrefixOf e.1 }

/-- The tree in which the entry at one place, with all that lies below it, has moved to another
one. -/
def move (tree : FileTree ν) (source goal : Place ν) : FileTree ν :=
  { tree with
    entries := (tree.erase goal).entries.map fun e =>
      if source.isPrefixOf e.1 then (goal ++ e.1.drop source.length, e.2) else e }

/-- The last name of a route, and where the route leads to up to there. -/
structure Slot (ν : Type := Text) where
  directory : Place ν
  name : ν
  /-- The links that may still be followed. -/
  links : Nat
  /-- Whether the route has a slash at its end. -/
  slashed : Bool
deriving DecidableEq, Repr

namespace Slot

/-- The place of the entry. -/
def place (slot : Slot ν) : Place ν := slot.directory ++ [slot.name]

end Slot

/-- The slot of a route that is followed from a directory.  The route has to end in a name, which
slashes can follow. -/
def slotFrom (tree : FileTree ν) (links : Nat) (directory : Place ν) (route : Route ν) :
    Except FileError (Slot ν) := do
  let segments := route.segments.reverse
  let trimmed := segments.dropWhile fun segment => FileName.octets segment = []
  match trimmed.map Step.ofSegment with
  | last :: outer =>
      let (directory, links) ← tree.follow links (start directory route) outer.reverse
      match tree.get? directory with
      | some .directory =>
          match last with
          | .down name => .ok ⟨directory, name, links, trimmed.length < segments.length⟩
          | _ => .error .occupied
      | some .closed => .error .denied
      | _ => .error .notDirectory
  | [] => .error .occupied

/-- The place where a file is written that is named by a slot.  A link there leads on to its
target, which does not have to exist. -/
def filePlace (tree : FileTree ν) : (fuel : Nat) → Slot ν → Except FileError (Place ν)
  | 0, _ => .error .tooManyLinks
  | fuel + 1, slot =>
      if slot.slashed then .error .isDirectory
      else
        match tree.get? slot.place with
        | some (.link target) =>
            match slot.links with
            | 0 => .error .tooManyLinks
            | links + 1 => do
                filePlace tree fuel (← tree.slotFrom links slot.directory target)
        | some (.file (some _)) => .ok slot.place
        | some (.file none) => .error .denied
        | some .special => .error .denied
        | some .directory => .error .isDirectory
        | some .closed => .error .isDirectory
        | none => if FileName.isName slot.name then .ok slot.place else .error .nameTooLong

end

/-- A change of a file tree, which can fail. -/
abbrev Edit := ExceptT FileError (StateM FileTree)

/-- The slot of a path. -/
def slot (tree : FileTree) (p : Path) : Except FileError Slot :=
  if p.text = [] then .error .notFound
  else if p.text.contains '\x00' then .error .invalid
  else if Place.maxPathLength < Text.octetCount p.text then .error .nameTooLong
  else tree.slotFrom maxLinks tree.workingDirectory p.route

/-- Makes a directory in a directory that exists. -/
def makeDirectory (p : Path) : Edit Unit := do
  let tree ← get
  let slot ← tree.slot p
  if tree.get? slot.place ≠ none then throw .occupied
  if !FileName.isName slot.name then throw .nameTooLong
  set (tree.put slot.place .directory)

/-- Makes a directory, unless there is one. -/
def ensureDirectory (p : Path) : Edit Unit :=
  tryCatch (makeDirectory p) fun cause => do
    let tree ← get
    match tree.resolve p with
    | .ok place => if !(tree.get? place).any Entry.isFolder then throw cause
    | .error _ => throw cause

/-- A path and the paths above it, as far as the text tells. -/
def lineage : (fuel : Nat) → Path → List Path
  | 0, p => [p]
  | fuel + 1, p =>
      match p.parent? with
      | none => [p]
      | some parent => p :: lineage fuel parent

/-- Makes the first one of some paths, each of which lies in the next one, after those of the others
that have to be there. -/
def ensureLineage : List Path → Edit Unit
  | [] => throw .notFound
  | p :: above =>
      if p.text = [] then pure ()
      else
        tryCatch (ensureDirectory p) fun cause => do
          if cause ≠ .notFound then throw cause
          ensureLineage above
          ensureDirectory p

/-- Makes a directory and the directories above it, as far as they are missing. -/
def makeDirectories (p : Path) : Edit Unit := ensureLineage (lineage p.text.length p)

/-- Makes the directories above a path. -/
def makeParents (p : Path) : Edit Unit := do
  if let some parent := p.parent? then makeDirectories parent

/-- Writes a file in a directory that exists. -/
def writeFile (p : Path) (content : Octets) : Edit Unit := do
  let tree ← get
  let place ← tree.filePlace (maxLinks + 1) (← tree.slot p)
  set (tree.put place (.file (some content)))

/-- Makes a symbolic link in a directory that exists. -/
def makeLink (p target : Path) : Edit Unit := do
  if target.text = [] then throw .notFound
  if target.text.contains '\x00' then throw .invalid
  if Place.maxPathLength < Text.octetCount target.text then throw .nameTooLong
  let tree ← get
  let slot ← tree.slot p
  if tree.get? slot.place ≠ none then throw .occupied
  if slot.slashed then throw .notFound
  if !FileName.isName slot.name then throw .nameTooLong
  set (tree.put slot.place (.link target.route))

/-- Removes an entry, and a directory with all that lies below it. -/
def remove (p : Path) : Edit Unit := do
  let tree ← get
  let slot ← tree.slot p
  match tree.get? slot.place with
  | none => throw .notFound
  | some entry =>
      if slot.slashed && !entry.isFolder then throw .notDirectory
      set (tree.erase slot.place)

/-- Renames an entry.  An entry that has the new name already gives way: a directory, if it is
empty, to a directory, and anything else to anything else. -/
def rename (source goal : Path) : Edit Unit := do
  let tree ← get
  let source ← tree.slot source
  let goal ← tree.slot goal
  match tree.get? source.place with
  | none => throw .notFound
  | some entry =>
      if !entry.isFolder && (source.slashed || goal.slashed) then throw .notDirectory
      if source.place ≠ goal.place then
        if source.place.isPrefixOf goal.place then throw .invalid
        if goal.place.isPrefixOf source.place then throw .notEmpty
        match tree.get? goal.place with
        | none => if !FileName.isName goal.name then throw .nameTooLong
        | some other =>
            if entry.isFolder && !other.isFolder then throw .notDirectory
            if !entry.isFolder && other.isFolder then throw .isDirectory
            if other.isFolder && tree.names goal.place ≠ [] then throw .notEmpty
        set (tree.move source.place goal.place)

end FileTree

end DocAudit
