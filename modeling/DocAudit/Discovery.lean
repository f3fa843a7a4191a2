import DocAudit.FileTree

/-!
# Discovery of the files beneath a root

The files beneath a root are found by a walk that enters the directories in
the order of their names and follows symbolic links.  Entries whose names are
texts that start with a dot are hidden: a hidden file is not listed and a hidden
directory is not entered.  A name that is no text is never hidden, and the name
of the root itself does not matter.

A link that leads nowhere, or to a directory that the walk is just in, stops
the walk, hidden or not.  A directory that cannot be listed stops it unless the
directory is hidden.  Links and directories are looked up by the path on which
the walk came to them, so that this path must not be too long.  A file is listed
without a look at it: it may be unreadable, and its path may be too long.

Each level of the walk takes one unit of fuel.  `fuel` is enough for every tree:
a level below a plain directory lies one name deeper, of which there are at most
`depth`, and a level behind a link uses up one of the links that a path may lead
over.
-/

namespace DocAudit

/-- Why a walk stops before its end. -/
inductive WalkError where
  /-- An entry cannot be reached. -/
  | unreachable (cause : FileError)
  /-- A link leads back to a directory that the walk is in. -/
  | cycle
  /-- The walk went deeper than its fuel. -/
  | tooDeep
deriving DecidableEq, Repr

/-- Why the files beneath a root cannot be listed. -/
inductive DiscoveryError where
  /-- The root does not lead to an entry. -/
  | unopened (root : RootName)
  /-- The root is not a directory. -/
  | notDirectory (root : RootName)
  /-- The walk beneath the root stopped. -/
  | walk (cause : WalkError)
deriving DecidableEq, Repr

namespace DiscoveryError

/-- The description of an error. -/
def message : DiscoveryError → Text
  | unopened root => text "documentation root " ++ root.display ++ text " cannot be opened"
  | notDirectory root => text "documentation root " ++ root.display ++ text " is not a directory"
  | walk _ => text "failed to walk documentation tree"

end DiscoveryError

namespace FileTree

variable {ν : Type} [DecidableEq ν] [FileName ν]

/-- The place that a root leads to.  The root itself can be of any length, but not the path of the
place. -/
def canonical (tree : FileTree ν) (root : RootName) : Except FileError (Place ν) :=
  match FileName.route? root with
  | none => .error .notFound
  | some route =>
      match tree.locate route with
      | .error cause => .error cause
      | .ok place => if place.isTooLong then .error .nameTooLong else .ok place

end FileTree

/-- The files beneath a root. -/
structure Discovery (ν : Type := Text) where
  /-- The place of the root. -/
  root : Place ν
  /-- The places of the files as the walk found them, behind links as well as beneath plain
  directories. -/
  files : List (Place ν)
deriving DecidableEq, Repr

namespace Discovery

variable {ν : Type} [DecidableEq ν] [FileName ν]

/-- Whether an entry of a name is hidden. -/
def isHidden (name : ν) : Bool := (FileName.text? name).any fun t => t.head? == some '.'

/-- A directory that the walk is in. -/
structure Visit (ν : Type := Text) where
  /-- The place of the directory. -/
  place : Place ν
  /-- The place as the walk came to it, which leads to the directory over links. -/
  reached : Place ν
  /-- The links that may still be followed. -/
  links : Nat
  /-- The places of the directories that the walk is in, the innermost one first. -/
  trail : List (Place ν)
deriving DecidableEq, Repr

namespace Visit

/-- The place of an entry as the walk comes to it. -/
def reach (here : Visit ν) (name : ν) : Place ν := here.reached ++ [name]

/-- Where an entry of the directory leads to, with the links that are left.  A link is looked up by
its path. -/
def look (tree : FileTree ν) (here : Visit ν) (name : ν) : Except FileError (Place ν × Nat) :=
  if tree.isLink (here.place ++ [name]) && (here.reach name).isTooLong then .error .nameTooLong
  else tree.follow here.links here.place [.down name]

end Visit

/-- What an entry of a directory means for a walk. -/
inductive Outcome (ν : Type := Text) where
  /-- The walk ends with an error. -/
  | stops (cause : WalkError)
  /-- The entry is hidden, or it is neither a file nor a directory. -/
  | skipped
  /-- The entry is a file that is found. -/
  | listed (file : Place ν)
  /-- The walk goes on in a directory. -/
  | entered (visit : Visit ν)
deriving DecidableEq, Repr

/-- What an entry means for a walk that is in its directory. -/
def outcome (tree : FileTree ν) (here : Visit ν) (name : ν) : Outcome ν :=
  match here.look tree name with
  | .error cause => .stops (.unreachable cause)
  | .ok (place, links) =>
      match tree.get? place with
      | some .directory =>
          if tree.isLink (here.place ++ [name]) && here.trail.contains place then .stops .cycle
          else if isHidden name then .skipped
          else if (here.reach name).isTooLong then .stops (.unreachable .nameTooLong)
          else .entered ⟨place, here.reach name, links, place :: here.trail⟩
      | some .closed =>
          -- Behind a link the directory is opened to see whether the walk is in it.
          if isHidden name && !tree.isLink (here.place ++ [name]) then .skipped
          else .stops (.unreachable .denied)
      | some (.file _) => if isHidden name then .skipped else .listed (here.reach name)
      | _ => .skipped

/-- The files that an entry of a directory contributes.  `enter` lists a directory. -/
def visitEntry (tree : FileTree ν) (enter : Visit ν → Except WalkError (List (Place ν)))
    (here : Visit ν) (name : ν) : Except WalkError (List (Place ν)) :=
  match outcome tree here name with
  | .stops cause => .error cause
  | .skipped => .ok []
  | .listed file => .ok [file]
  | .entered visit => enter visit

/-- The files beneath a directory, in the order of the walk. -/
def walk (tree : FileTree ν) : (fuel : Nat) → Visit ν → Except WalkError (List (Place ν))
  | 0, _ => .error .tooDeep
  | fuel + 1, here => do
      let found ← (tree.names here.place).mapM (visitEntry tree (walk tree fuel) here)
      .ok found.flatten

/-- The number of levels that no walk exceeds. -/
def fuel (tree : FileTree ν) : Nat := (FileTree.maxLinks + 1) * (tree.depth + 1)

/-- The files beneath the directory at a place. -/
def beneath (tree : FileTree ν) (root : Place ν) : Except WalkError (List (Place ν)) :=
  walk tree (fuel tree) ⟨root, root, FileTree.maxLinks, [root]⟩

/-- The paths of the files. -/
def paths (discovery : Discovery) : List Path := discovery.files.map Place.toPath

end Discovery

/-- The files beneath a root. -/
def discover {ν : Type} [DecidableEq ν] [FileName ν] (tree : FileTree ν) (root : RootName) :
    Except DiscoveryError (Discovery ν) :=
  match tree.canonical root with
  | .error _ => .error (.unopened root)
  | .ok place =>
      match tree.get? place with
      | some .directory =>
          match Discovery.beneath tree place with
          | .error cause => .error (.walk cause)
          | .ok files => .ok ⟨place, files⟩
      | some .closed => .error (.walk (.unreachable .denied))
      | _ => .error (.notDirectory root)

end DocAudit
