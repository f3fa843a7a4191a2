import DocAudit.Text

/-!
# Rules

The five authoring rules, in the order in which they are applied, and their
names in reports.
-/

namespace DocAudit

/-- The authoring rules. -/
inductive Rule where
  /-- Paths are lower-case. -/
  | case
  /-- Files are markdown. -/
  | extension
  /-- Links name existing documents. -/
  | links
  /-- Bodies hold no top level heading. -/
  | heading
  /-- The front matter has a title. -/
  | frontMatter
deriving DecidableEq, Repr

namespace Rule

/-- The rules in the order in which they are applied. -/
def all : List Rule := [case, extension, links, heading, frontMatter]

/-- The name of a rule in reports. -/
def name : Rule → Text
  | case => text "case"
  | extension => text "extension"
  | links => text "links"
  | heading => text "heading"
  | frontMatter => text "front-matter"

/-- The place of a rule in the order. -/
def rank : Rule → Nat
  | case => 0
  | extension => 1
  | links => 2
  | heading => 3
  | frontMatter => 4

theorem mem_all (rule : Rule) : rule ∈ all := by
  cases rule <;> decide

end Rule

end DocAudit
