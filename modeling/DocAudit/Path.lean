import DocAudit.Text

/-!
# Paths

A path is a text whose segments stand between slashes.  What counts of it are
its components: the root, the names, the steps up, and a leading step that
stays.  Repeated slashes, inner steps that stay and slashes at the end do not
count, so that two paths with the same components are the same place.

`normalize` takes the steps up out of a path without a look at the files.
-/

namespace DocAudit

namespace Path

/-- A component of a path. -/
inductive Component where
  /-- The root, where absolute paths start. -/
  | root
  /-- The place itself, which counts only at the start of a relative path. -/
  | here
  /-- The directory above. -/
  | up
  /-- The entry of a name. -/
  | name (segment : Text)
deriving DecidableEq, Repr

namespace Component

/-- The written form of a component between slashes. -/
def segment : Component → Text
  | root => []
  | here => ['.']
  | up => text ".."
  | name s => s

/-- The name of a component that has one. -/
def name? : Component → Option Text
  | name s => some s
  | _ => none

/-- The component that a segment makes within a path. -/
def ofSegment? (s : Text) : Option Component :=
  if s = [] ∨ s = ['.'] then none
  else if s = text ".." then some up
  else some (name s)

end Component

end Path

/-- A path as it is written. -/
structure Path where
  text : Text
deriving DecidableEq, Repr

namespace Path

/-- The path that a literal shows. -/
def ofString (s : String) : Path := ⟨s.toList⟩

/-- Whether a path starts at the root. -/
def isAbsolute (p : Path) : Bool := p.text.head? == some '/'

/-- The components that segments make within a path. -/
def innerComponents (segments : List Text) : List Component :=
  segments.filterMap Component.ofSegment?

/-- The components of a path. -/
def components (p : Path) : List Component :=
  let segments := Text.splitOn '/' p.text
  if p.isAbsolute then .root :: innerComponents segments
  else if segments.head? = some ['.'] then .here :: innerComponents segments
  else innerComponents segments

/-- The written form of components. -/
def ofComponents (components : List Component) : Path :=
  match components with
  | .root :: rest => ⟨'/' :: Text.joinWith ['/'] (rest.map Component.segment)⟩
  | components => ⟨Text.joinWith ['/'] (components.map Component.segment)⟩

/-- Whether two paths are the same place. -/
def same (p q : Path) : Bool := p.components == q.components

/-- The path `q` seen from the directory `p`. -/
def join (p q : Path) : Path :=
  if q.isAbsolute then q
  else if p.text = [] ∨ p.text.getLast? = some '/' then ⟨p.text ++ q.text⟩
  else ⟨p.text ++ '/' :: q.text⟩

/-- The part of a path that no directory above can cut into: the root or the leading step that
stays. -/
def lead (t : Text) : Text :=
  match t with
  | ['.'] => ['.']
  | '.' :: '/' :: _ => ['.']
  | '/' :: _ => ['/']
  | _ => []

/-- Whether a segment makes no component within a path. -/
def isVoid (segment : Text) : Bool := (Component.ofSegment? segment).isNone

/-- The path of the directory above, as far as the text tells: the path without its last
component.  The root and the empty path have none. -/
def parent? (p : Path) : Option Path :=
  let lead := lead p.text
  let segments := (Text.splitOn '/' (p.text.drop lead.length)).reverse
  match segments.dropWhile isVoid with
  | [] => if lead = ['.'] then some ⟨[]⟩ else none
  | _ :: outer => some ⟨lead ++ Text.joinWith ['/'] (outer.dropWhile isVoid).reverse⟩

/-- What follows a list of components at the start of another one. -/
def afterComponents? : (lead all : List Component) → Option (List Component)
  | [], all => some all
  | _ :: _, [] => none
  | a :: lead, c :: all => if a = c then afterComponents? lead all else none

/-- The components of a path below a directory. -/
def below? (root p : Path) : Option (List Component) :=
  afterComponents? root.components p.components

/-- The names among components, with slashes between them. -/
def joinNames (components : List Component) : Text :=
  Text.joinWith ['/'] (components.filterMap Component.name?)

/-- The names of a path below the directory `root`, with slashes between them.  A path that does not
lie below it keeps all its names. -/
def relativeTo (root p : Path) : Text := joinNames ((root.below? p).getD p.components)

/-- One step of normalisation.  The components so far stand in reverse order. -/
def normalStep (stack : List Component) : Component → List Component
  | .here => stack
  | .up =>
      match stack with
      | [] => [.up]
      | .root :: rest => .up :: .root :: rest
      | _ :: rest => rest
  | c => c :: stack

/-- The components of the place that is reached by following components from left to right.  A
step up takes back the component before it; where there is none to take back, it stays. -/
def normalComponents (components : List Component) : List Component :=
  (components.foldl normalStep []).reverse

/-- The path without steps that stay and without steps up that can be taken back. -/
def normalize (p : Path) : Path := ofComponents (normalComponents p.components)

end Path

end DocAudit
