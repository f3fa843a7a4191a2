import DocAudit.Yaml.Anchor
import DocAudit.Yaml.Scalar
import DocAudit.Yaml.Token.Stream

/-!
# YAML values

The value that a stream stands for.  A plain scalar is read by its form: null,
a truth value, an integer, a number, or else a string.  The tags of the core
types ask for a type, any other tag that starts with an exclamation mark is
kept beside the value, and further tags make a scalar a string.

A stream has no value when it is malformed, holds more than one document, has
an integer outside 64 bits, a key twice in a mapping, an unknown alias,
collections nested deeper than 128, or more than a hundred uses of aliases for
each of its nodes and collection ends.
-/

namespace DocAudit

namespace Yaml

namespace Value

/-- Whether two numbers are the same key: zero has one key, whatever its sign. -/
def sameFloat (a b : Nat) : Bool :=
  a == b || (a % Binary64.sign == 0 && b % Binary64.sign == 0)

mutual

/-- Whether two values are the same key. -/
def same : Value → Value → Bool
  | null, null => true
  | bool a, bool b => a == b
  | int a, int b => a == b
  | float a, float b => sameFloat a b
  | str a, str b => a == b
  | seq as, seq bs => sameAll as bs
  | map as, map bs => as.length == bs.length && sameEntries as bs
  | tagged s a, tagged t b => s == t && same a b
  | _, _ => false

/-- Whether two sequences hold the same keys in the same order. -/
def sameAll : List Value → List Value → Bool
  | [], [] => true
  | a :: as, b :: bs => same a b && sameAll as bs
  | _, _ => false

/-- Whether every entry of a mapping is one of another mapping, too. -/
def sameEntries : List (Value × Value) → List (Value × Value) → Bool
  | [], _ => true
  | (k, v) :: as, bs => (bs.any fun b => same k b.1 && same v b.2) && sameEntries as bs

end

end Value

namespace Node

/-- The tag of a node that is kept beside its value: one that starts with an exclamation mark,
which is left out unless nothing follows it. -/
def keptTag? (tag : Option Octets) : Option Text := do
  let octets ← tag
  if octets.head? ≠ some 0x21 then none
  let rest := octets.drop 1
  let name ← if rest = [] then some ['!'] else Utf8.decode? rest
  some (match Text.after? ['!'] name with
    | some (c :: t) => c :: t
    | _ => name)

end Node

namespace Value

/-- A table of nodes by the numbers of their anchors. -/
abbrev Table := List (Nat × Node Nat)

/-- What the content of a collection is read with: whether the tag of the node was kept already,
the node, and the number of uses of aliases before it, which the result counts on. -/
abbrev Reader := Bool → Node Nat → Nat → Option (Value × Nat)

/-- Reads the items of a sequence. -/
def readItems? (read? : Reader) : List (Node Nat) → Nat → Option (List Value × Nat)
  | [], uses => some ([], uses)
  | item :: items, uses => do
      let (value, uses) ← read? false item uses
      let (values, uses) ← readItems? read? items uses
      some (value :: values, uses)

/-- Reads the entries of a mapping after the entries `seen`, whose keys may not come again.  A key
is read with the tag of the mapping taken as its own. -/
def readEntries? (read? : Reader) (tagged : Bool) (seen : List (Value × Value)) :
    List (Node Nat × Node Nat) → Nat → Option (List (Value × Value) × Nat)
  | [], uses => some (seen, uses)
  | (k, v) :: entries, uses => do
      let (key, uses) ← read? tagged k uses
      if seen.any fun entry => same entry.1 key then none
      let (value, uses) ← read? false v uses
      readEntries? read? tagged (seen ++ [(key, value)]) entries uses

/-- Reads the content of a node, its tag aside.  Collections need a reader for their content. -/
def readContent? (read? : Option Reader) (tagged : Bool) : Node Nat → Nat → Option (Value × Nat)
  | .reference _, _ => none
  | .scalar p plain content, uses =>
      (Scalar.value? plain tagged p.tag content).map fun value => (value, uses)
  | .sequence _ items, uses => do
      let (values, uses) ← readItems? (← read?) items uses
      some (.seq values, uses)
  | .mapping _ entries, uses => do
      let (entries, uses) ← readEntries? (← read?) tagged [] entries uses
      some (.map entries, uses)

/-- The tag of a node. -/
def tagOf : Node Nat → Option Octets
  | .reference _ => none
  | .scalar p _ _ => p.tag
  | .sequence p _ => p.tag
  | .mapping p _ => p.tag

/-- Reads a node that is no alias. -/
def readNode? (read? : Option Reader) (tagged : Bool) (node : Node Nat) (uses : Nat) :
    Option (Value × Nat) :=
  match (if tagged then none else Node.keptTag? (tagOf node)) with
  | some tag =>
      (readContent? read? true node uses).map fun (value, uses) => (.tagged tag value, uses)
  | none => readContent? read? tagged node uses

/-- Reads a node or the node that an alias stands for.  Aliases can be used `limit` times. -/
def readTarget? (table : Table) (limit : Nat) (read? : Option Reader) : Reader :=
  fun tagged node uses =>
    match node with
    | .reference n => do
        if limit ≤ uses then none
        let target ← table.lookup n
        readNode? read? false target (uses + 1)
    | _ => readNode? read? tagged node uses

/-- Reads a node in which collections can be nested to a depth. -/
def read? (table : Table) (limit : Nat) : (depth : Nat) → Reader
  | 0 => readTarget? table limit none
  | depth + 1 => readTarget? table limit (some (read? table limit depth))

/-- How deep collections can be nested. -/
def maxDepth : Nat := 128

/-- How often aliases can be used for each node and each end of a collection. -/
def usesPerEvent : Nat := 100

/-- The value of the root of a document. -/
def ofNode? (root : Node Text) : Option Value := do
  let (root, table) ← root.resolve?
  let limit := usesPerEvent * root.eventCount
  let (value, _) ← read? table.reverse limit maxDepth false root 0
  some value

/-- The value of a stream.  A stream without a document is null. -/
def ofStream? (stream : Text) : Option Value := do
  let tokens ← Token.ofStream? stream
  match ← Node.ofTokens? tokens with
  | none => some null
  | some root => ofNode? root

end Value

end Yaml

end DocAudit
