import DocAudit.Yaml.Node

/-!
# Anchors

An alias refers to the node that carried its name last.  Names are tied to
numbers first: an anchor gets the count of the different names before it, and
an alias gets the number that its name has at that place.  The table then
holds the node for each number; where a name was used for two nodes, its
second number can be the number of the next name as well, and the node that
stands last in the document counts.
-/

namespace DocAudit

namespace Yaml

namespace Node

mutual

/-- The number of scalars, aliases, and starts and ends of collections of a node. -/
def eventCount {α : Type} : Node α → Nat
  | reference _ => 1
  | scalar _ _ _ => 1
  | sequence _ items => 2 + eventCounts items
  | mapping _ entries => 2 + entryCounts entries

/-- The number for the items of a sequence. -/
def eventCounts {α : Type} : List (Node α) → Nat
  | [] => 0
  | item :: items => eventCount item + eventCounts items

/-- The number for the entries of a mapping. -/
def entryCounts {α : Type} : List (Node α × Node α) → Nat
  | [] => 0
  | (key, value) :: entries => eventCount key + eventCount value + entryCounts entries

end

/-- The numbers of names, the latest first. -/
abbrev Numbers := List (Text × Nat)

/-- The nodes of numbers, in the order in which they stand. -/
abbrev Anchored := List (Nat × Node Nat)

/-- The number that a new anchor gets. -/
def nextNumber (numbers : Numbers) : Nat := (numbers.map (·.1)).eraseDups.length

/-- The numbers after the properties of a node. -/
def afterProperties (p : Properties) (numbers : Numbers) : Numbers :=
  match p.anchor with
  | none => numbers
  | some name => (name, nextNumber numbers) :: numbers

/-- The entry of a node in the table, if it carries an anchor. -/
def anchored (p : Properties) (numbers : Numbers) (node : Node Nat) : Anchored :=
  match p.anchor with
  | none => []
  | some _ => [(nextNumber numbers, node)]

mutual

/-- Replaces the name of every alias by its number.  Gives the numbers after the node, and the
table. -/
def number? (numbers : Numbers) : Node Text → Option (Node Nat × Numbers × Anchored)
  | reference name => do
      let n ← numbers.lookup name
      some (reference n, numbers, [])
  | scalar p plain content =>
      let node := scalar p plain content
      some (node, afterProperties p numbers, anchored p numbers node)
  | sequence p items => do
      let (items, after, table) ← numberItems? (afterProperties p numbers) items
      let node := sequence p items
      some (node, after, anchored p numbers node ++ table)
  | mapping p entries => do
      let (entries, after, table) ← numberEntries? (afterProperties p numbers) entries
      let node := mapping p entries
      some (node, after, anchored p numbers node ++ table)

/-- Replaces the names in the items of a sequence. -/
def numberItems? (numbers : Numbers) :
    List (Node Text) → Option (List (Node Nat) × Numbers × Anchored)
  | [] => some ([], numbers, [])
  | item :: items => do
      let (item, numbers, table) ← number? numbers item
      let (items, numbers, more) ← numberItems? numbers items
      some (item :: items, numbers, table ++ more)

/-- Replaces the names in the entries of a mapping. -/
def numberEntries? (numbers : Numbers) :
    List (Node Text × Node Text) → Option (List (Node Nat × Node Nat) × Numbers × Anchored)
  | [] => some ([], numbers, [])
  | (key, value) :: entries => do
      let (key, numbers, table) ← number? numbers key
      let (value, numbers, more) ← number? numbers value
      let (entries, numbers, rest) ← numberEntries? numbers entries
      some ((key, value) :: entries, numbers, table ++ more ++ rest)

end

/-- The document with numbers in place of names, and the table of its anchors. -/
def resolve? (root : Node Text) : Option (Node Nat × Anchored) :=
  (number? [] root).map fun (root, _, table) => (root, table)

end Node

end Yaml

end DocAudit
