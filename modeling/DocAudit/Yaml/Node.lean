import DocAudit.Yaml.Token

/-!
# The nodes of a document

The tokens of a document form a tree of scalars, sequences and mappings.  A
node can carry an anchor and a tag, and an alias stands for the node that
carries its name.  What is left out in a collection is an empty scalar.

A stream holds at most one document: `ofTokens?` gives its root, or nothing
for a stream without a document.
-/

namespace DocAudit

namespace Yaml

/-- The anchor and the tag of a node. -/
structure Properties where
  anchor : Option Text
  tag : Option Octets

namespace Properties

/-- No anchor and no tag. -/
def none : Properties := ⟨.none, .none⟩

/-- Whether there is neither anchor nor tag. -/
def isNone (p : Properties) : Bool := p.anchor.isNone && p.tag.isNone

end Properties

/-- A node of a document whose aliases refer to their nodes by an `α`, a name at first. -/
inductive Node (α : Type) where
  | reference (target : α)
  | scalar (properties : Properties) (plain : Bool) (content : Text)
  | sequence (properties : Properties) (items : List (Node α))
  | mapping (properties : Properties) (entries : List (Node α × Node α))

namespace Node

/-- What stands for a node that is left out. -/
def empty {α : Type} : Node α := .scalar .none true []

/-- What tag handles stand for. -/
abbrev Handles := List (Text × Octets)

/-- The handles that every document has, unless it defines them itself. -/
def defaultHandles : Handles :=
  [(['!'], octetsOf ['!']), (text "!!", octetsOf (text "tag:yaml.org,2002:"))]

/-- The tag that a handle and a suffix make. -/
def resolveTag? (handles : Handles) (handle : Text) (suffix : Octets) : Option Octets :=
  if handle = [] then some suffix else (handles.lookup handle).map (· ++ suffix)

/-- Reads an anchor. -/
def readAnchor : List Token → Option Text × List Token
  | .anchor name :: ts => (some name, ts)
  | ts => (none, ts)

/-- Reads a tag. -/
def readTag? (handles : Handles) : List Token → Option (Option Octets × List Token)
  | .tag handle suffix :: ts => (resolveTag? handles handle suffix).map fun tag => (some tag, ts)
  | ts => some (none, ts)

/-- Reads the properties of a node, in either order. -/
def readProperties? (handles : Handles) (ts : List Token) : Option (Properties × List Token) := do
  match readAnchor ts with
  | (some name, ts) =>
      let (tag, ts) ← readTag? handles ts
      some (⟨some name, tag⟩, ts)
  | (none, ts) =>
      let (tag, ts) ← readTag? handles ts
      if tag.isNone then some (.none, ts)
      else
        let (anchor, ts) := readAnchor ts
        some (⟨anchor, tag⟩, ts)

/-- The properties of a scalar.  The tag that is only an exclamation mark says nothing of it. -/
def scalarProperties (p : Properties) : Properties :=
  if p.tag = some (octetsOf ['!']) then { p with tag := none } else p

/-- Whether a key or a value of a block mapping is left out before this. -/
def endsBlockItem : List Token → Bool
  | .key :: _ => true
  | .value :: _ => true
  | .blockEnd :: _ => true
  | _ => false

/-- Whether an entry of a block sequence is left out before this. -/
def endsBlockEntry : List Token → Bool
  | .blockEntry :: _ => true
  | .blockEnd :: _ => true
  | _ => false

/-- Whether an entry of a sequence without indentation of its own is left out before this. -/
def endsIndentless : List Token → Bool
  | .blockEntry :: _ => true
  | ts => endsBlockItem ts

/-- Whether a value in a flow mapping is left out before this. -/
def endsFlowValue : List Token → Bool
  | .flowEntry :: _ => true
  | .flowMappingEnd :: _ => true
  | _ => false

/-- Whether a key in a flow mapping is left out before this. -/
def endsFlowKey : List Token → Bool
  | .value :: _ => true
  | ts => endsFlowValue ts

/-- Whether a value of a pair in a flow sequence is left out before this. -/
def endsPairValue : List Token → Bool
  | .flowEntry :: _ => true
  | .flowSequenceEnd :: _ => true
  | _ => false

/-- Whether a key of a pair in a flow sequence is left out before this. -/
def endsPairKey : List Token → Bool
  | .value :: _ => true
  | ts => endsPairValue ts

/-- Passes the comma before an entry of a flow collection, which the first entry does not have. -/
def passComma? (first : Bool) (ts : List Token) : Option (List Token) :=
  if first then some ts
  else
    match ts with
    | .flowEntry :: ts => some ts
    | _ => none

/-- The position of a node: whether block collections can stand there, and whether a block sequence
can stand there without indentation of its own. -/
structure Position where
  block : Bool
  indentless : Bool

/-- Where only flow collections can stand. -/
def inFlow : Position := ⟨false, false⟩

/-- Where a block sequence needs its own indentation. -/
def inBlock : Position := ⟨true, false⟩

/-- Where a block mapping has its keys and values. -/
def inMapping : Position := ⟨true, true⟩

mutual

/-- Reads a node.  The first argument of these functions bounds the number of steps. -/
def read? (handles : Handles) : Nat → Position → List Token → Option (Node Text × List Token)
  | 0, _, _ => none
  | n + 1, position, ts =>
      match ts with
      | .reference name :: ts => some (.reference name, ts)
      | _ => do
          let (p, ts) ← readProperties? handles ts
          match ts with
          | .scalar plain content :: ts => some (.scalar (scalarProperties p) plain content, ts)
          | .flowSequenceStart :: ts => do
              let (items, ts) ← readFlowItems? handles n true ts
              some (.sequence p items, ts)
          | .flowMappingStart :: ts => do
              let (entries, ts) ← readFlowEntries? handles n true ts
              some (.mapping p entries, ts)
          | .blockEntry :: _ =>
              if position.indentless then do
                let (items, ts) ← readIndentless? handles n ts
                some (.sequence p items, ts)
              else if p.isNone then none
              else some (.scalar p true [], ts)
          | .blockSequenceStart :: ts' =>
              if position.block then do
                let (items, ts) ← readBlockItems? handles n ts'
                some (.sequence p items, ts)
              else if p.isNone then none
              else some (.scalar p true [], ts)
          | .blockMappingStart :: ts' =>
              if position.block then do
                let (entries, ts) ← readBlockEntries? handles n ts'
                some (.mapping p entries, ts)
              else if p.isNone then none
              else some (.scalar p true [], ts)
          | _ => if p.isNone then none else some (.scalar p true [], ts)

/-- Reads the entries of a block sequence, its end included. -/
def readBlockItems? (handles : Handles) : Nat → List Token → Option (List (Node Text) × List Token)
  | 0, _ => none
  | n + 1, ts =>
      match ts with
      | .blockEntry :: ts => do
          let (item, ts) ←
            if endsBlockEntry ts then some (empty, ts) else read? handles n inBlock ts
          let (items, ts) ← readBlockItems? handles n ts
          some (item :: items, ts)
      | .blockEnd :: ts => some ([], ts)
      | _ => none

/-- Reads the entries of a block sequence that stands in the column of the keys around it. -/
def readIndentless? (handles : Handles) : Nat → List Token → Option (List (Node Text) × List Token)
  | 0, _ => none
  | n + 1, ts =>
      match ts with
      | .blockEntry :: ts => do
          let (item, ts) ←
            if endsIndentless ts then some (empty, ts) else read? handles n inBlock ts
          let (items, ts) ← readIndentless? handles n ts
          some (item :: items, ts)
      | _ => some ([], ts)

/-- Reads the entries of a block mapping, its end included. -/
def readBlockEntries? (handles : Handles) :
    Nat → List Token → Option (List (Node Text × Node Text) × List Token)
  | 0, _ => none
  | n + 1, ts =>
      match ts with
      | .key :: ts => do
          let (key, ts) ←
            if endsBlockItem ts then some (empty, ts) else read? handles n inMapping ts
          let (value, ts) ←
            match ts with
            | .value :: ts =>
                if endsBlockItem ts then some (empty, ts) else read? handles n inMapping ts
            | _ => some (empty, ts)
          let (entries, ts) ← readBlockEntries? handles n ts
          some ((key, value) :: entries, ts)
      | .blockEnd :: ts => some ([], ts)
      | _ => none

/-- Reads the entries of a flow sequence, its end included.  An entry can be a mapping with a
single pair.  Where the key of such a pair is left out, the token that shows it is passed. -/
def readFlowItems? (handles : Handles) :
    Nat → (first : Bool) → List Token → Option (List (Node Text) × List Token)
  | 0, _, _ => none
  | n + 1, first, ts =>
      match ts with
      | .flowSequenceEnd :: ts => some ([], ts)
      | _ => do
          let ts ← passComma? first ts
          match ts with
          | .flowSequenceEnd :: ts => some ([], ts)
          | .key :: ts => do
              let (key, ts) ←
                if endsPairKey ts then some (empty, ts.drop 1) else read? handles n inFlow ts
              let (value, ts) ←
                match ts with
                | .value :: ts =>
                    if endsPairValue ts then some (empty, ts) else read? handles n inFlow ts
                | _ => some (empty, ts)
              let (items, ts) ← readFlowItems? handles n false ts
              some (.mapping .none [(key, value)] :: items, ts)
          | _ => do
              let (item, ts) ← read? handles n inFlow ts
              let (items, ts) ← readFlowItems? handles n false ts
              some (item :: items, ts)

/-- Reads the entries of a flow mapping, its end included. -/
def readFlowEntries? (handles : Handles) :
    Nat → (first : Bool) → List Token → Option (List (Node Text × Node Text) × List Token)
  | 0, _, _ => none
  | n + 1, first, ts =>
      match ts with
      | .flowMappingEnd :: ts => some ([], ts)
      | _ => do
          let ts ← passComma? first ts
          match ts with
          | .flowMappingEnd :: ts => some ([], ts)
          | .key :: ts => do
              let (key, ts) ←
                if endsFlowKey ts then some (empty, ts) else read? handles n inFlow ts
              let (value, ts) ←
                match ts with
                | .value :: ts =>
                    if endsFlowValue ts then some (empty, ts) else read? handles n inFlow ts
                | _ => some (empty, ts)
              let (entries, ts) ← readFlowEntries? handles n false ts
              some ((key, value) :: entries, ts)
          | _ => do
              let (key, ts) ← read? handles n inFlow ts
              let (entries, ts) ← readFlowEntries? handles n false ts
              some ((key, empty) :: entries, ts)

end

/-- Reads the directives before a document: whether a version was given, and the handles. -/
def readDirectives? (version : Bool) (handles : Handles) :
    List Token → Option (Bool × Handles × List Token)
  | .version major minor :: ts =>
      if version ∨ major ≠ 1 ∨ (minor ≠ 1 ∧ minor ≠ 2) then none
      else readDirectives? true handles ts
  | .tagHandle handle lead :: ts =>
      if (handles.lookup handle).isSome then none
      else readDirectives? version ((handle, lead) :: handles) ts
  | ts => some (version, handles, ts)

/-- Whether the content of a document is left out before this. -/
def endsDocument : List Token → Bool
  | [] => true
  | .version _ _ :: _ => true
  | .tagHandle _ _ :: _ => true
  | .documentStart :: _ => true
  | .documentEnd :: _ => true
  | _ => false

/-- Whether nothing but the markers of document ends is left. -/
def isOver : List Token → Bool
  | [] => true
  | .documentEnd :: ts => isOver ts
  | _ => false

/-- The root of the only document of a stream, or nothing where there is no document. -/
def ofTokens? (ts : List Token) : Option (Option (Node Text)) :=
  let steps := 2 * ts.length + 2
  match ts with
  | [] => some none
  | .version _ _ :: _ | .tagHandle _ _ :: _ | .documentStart :: _ => do
      let (_, handles, ts) ← readDirectives? false [] ts
      match ts with
      | .documentStart :: ts => do
          let (root, ts) ←
            if endsDocument ts then some (empty, ts)
            else read? (handles ++ defaultHandles) steps inBlock ts
          if isOver ts then some (some root) else none
      | _ => none
  | _ => do
      let (root, ts) ← read? defaultHandles steps inBlock ts
      if isOver ts then some (some root) else none

end Node

end Yaml

end DocAudit
