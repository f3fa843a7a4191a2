import DocAudit.Path
import DocAudit.Utf8

/-!
# File names

The names of files are octets, and most of them are the UTF-8 form of a text.
`FileName` is what the names in a file tree have to give: their octets, and
their texts if they have one.  There are two types of names.  Octets make up
every file system there is.  Texts make up those in which every name is UTF-8;
the paths of such a file system can be written, so that an audit works on them.

A route is a path before anything is known about the files: the segments
between its slashes.

**Results.**
* `octets_injective`: names with the same octets are the same.
-/

namespace DocAudit

/-- The documentation root as it was given. -/
inductive RootName where
  /-- A path whose name is a text. -/
  | path (p : Path)
  /-- A path whose octets are not the UTF-8 form of any text. -/
  | raw (octets : Octets)
deriving DecidableEq, Repr

namespace RootName

/-- The root that octets name. -/
def ofOctets (octets : Octets) : RootName :=
  match Utf8.decode? octets with
  | some t => path ⟨t⟩
  | none => raw octets

/-- The octets of a root. -/
def octets : RootName → Octets
  | path p => Utf8.encode p.text
  | raw octets => octets

/-- The text that shows a root. -/
def display : RootName → Text
  | path p => p.text
  | raw octets => Utf8.decodeLossy octets

end RootName

namespace Octets

/-- The octet of a dot. -/
def dot : UInt8 := 0x2E

/-- The octet of a slash. -/
def slash : UInt8 := 0x2F

/-- The pieces of octets between the slashes. -/
def segments : Octets → List Octets
  | [] => [[]]
  | octet :: rest =>
      if octet = slash then [] :: segments rest
      else
        match segments rest with
        | [] => [[octet]]
        | segment :: others => (octet :: segment) :: others

end Octets

/-- A path through a file system: its segments between slashes. -/
structure Route (ν : Type) where
  segments : List ν
deriving DecidableEq, Repr

namespace Path

/-- The route that a path writes down. -/
def route (p : Path) : Route Text := ⟨Text.splitOn '/' p.text⟩

end Path

/-- A type of names of files. -/
class FileName (ν : Type) where
  /-- The octets of a name. -/
  octets : ν → Octets
  /-- The text of a name, if it has one. -/
  text? : ν → Option Text
  /-- The route of a root.  The empty root has none, and neither has a root that holds no names of
  the type. -/
  route? : RootName → Option (Route ν)
  octets_injective {name other : ν} : octets name = octets other → name = other
  text?_eq_some_iff (name : ν) (t : Text) : text? name = some t ↔ octets name = Utf8.encode t

instance : FileName Text where
  octets := Utf8.encode
  text? := some
  route?
    | .path p => if p.text = [] then none else some p.route
    | .raw _ => none
  octets_injective h := by
    have hdecode := congrArg Utf8.decode? h
    rw [Utf8.decode?_encode, Utf8.decode?_encode] at hdecode
    exact Option.some.inj hdecode
  text?_eq_some_iff name t := by
    rw [← Utf8.decode?_eq_some_iff, Utf8.decode?_encode]

instance : FileName Octets where
  octets := id
  text? := Utf8.decode?
  route? root := if root.octets = [] then none else some ⟨root.octets.segments⟩
  octets_injective h := h
  text?_eq_some_iff := Utf8.decode?_eq_some_iff

namespace FileName

variable {ν : Type} [FileName ν]

/-- The number of octets that a name can have. -/
def maxLength : Nat := 255

/-- Whether an entry can have a name. -/
def isName (name : ν) : Bool :=
  octets name ≠ [] && octets name ≠ [Octets.dot] && octets name ≠ [Octets.dot, Octets.dot]
    && !(octets name).contains Octets.slash && !(octets name).contains 0
    && decide ((octets name).length ≤ maxLength)

end FileName

/-- A step through a file tree. -/
inductive Step (ν : Type) where
  /-- Stays in the directory. -/
  | stay
  /-- Goes to the directory above; from the root it stays. -/
  | up
  /-- Goes to the entry of a name. -/
  | down (name : ν)
deriving DecidableEq, Repr

namespace Step

variable {ν : Type} [FileName ν]

/-- The step that a segment of a route makes. -/
def ofSegment (segment : ν) : Step ν :=
  if FileName.octets segment = [] ∨ FileName.octets segment = [Octets.dot] then stay
  else if FileName.octets segment = [Octets.dot, Octets.dot] then up
  else down segment

end Step

namespace Route

variable {ν : Type} [FileName ν]

/-- Whether a route starts at the root: a slash stands before everything else. -/
def isAbsolute (route : Route ν) : Bool :=
  match route.segments with
  | first :: _ :: _ => FileName.octets first = []
  | _ => false

/-- The steps of a route, from the root if it is absolute.  A slash at the end is a step that stays,
so that it can only follow a directory. -/
def steps (route : Route ν) : List (Step ν) := route.segments.map Step.ofSegment

end Route

/-- Where an entry lies: the names from the root down to it. -/
abbrev Place (ν : Type := Text) := List ν

namespace Place

/-- The absolute path of a place. -/
def toPath (place : Place) : Path := ⟨'/' :: Text.joinWith ['/'] place⟩

/-- The number of octets that the absolute path of a place has, each name with a slash before it. -/
def pathLength {ν : Type} [FileName ν] (place : Place ν) : Nat :=
  (place.flatMap fun name => 0x2F :: FileName.octets name).length

/-- The number of octets that a path can have which is given to the system. -/
def maxPathLength : Nat := 4095

/-- Whether the absolute path of a place is too long for the system. -/
def isTooLong {ν : Type} [FileName ν] (place : Place ν) : Bool :=
  decide (maxPathLength < place.pathLength)

/-- The name of a place that lies right in a directory. -/
def nameIn? {ν : Type} [DecidableEq ν] : (directory place : Place ν) → Option ν
  | [], [name] => some name
  | a :: directory, b :: place => if a = b then nameIn? directory place else none
  | _, _ => none

theorem nameIn?_eq_some_iff {ν : Type} [DecidableEq ν] (directory place : Place ν) (name : ν) :
    nameIn? directory place = some name ↔ place = directory ++ [name] := by
  induction directory generalizing place with
  | nil =>
      cases place with
      | nil => simp [nameIn?]
      | cons b place => cases place <;> simp [nameIn?]
  | cons a directory ih =>
      cases place with
      | nil => simp [nameIn?]
      | cons b place =>
          by_cases h : a = b
          · simp [nameIn?, h, ih]
          · have h' : ¬ b = a := fun e => h e.symm
            simp [nameIn?, h, h']

end Place

end DocAudit
