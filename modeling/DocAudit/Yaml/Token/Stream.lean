import DocAudit.Yaml.Token.Scalar

/-!
# The tokens of a stream

A stream is cut into tokens one after the other.  Two things need a state.

Indentation: a block collection opens where an entry, a key or a value stands
further to the right than the collections around it, and it ends where a token
stands further to the left.  `floor` is the first column that belongs to the
innermost block, so that it is zero outside all blocks.

Simple keys: a node that could be a key is only known to be one at the colon
behind it.  Its place is kept as a candidate, one for each nested flow
collection and one for the block around them, and the key token is put in at
that place later.  A candidate lapses at the end of its line and after 1024
characters, which is an error where the block needs a key.
-/

namespace DocAudit

namespace Yaml

namespace Token

/-- A node that could be a simple key. -/
structure KeyCandidate where
  /-- Whether the block needs a key here. -/
  required : Bool
  /-- The number of tokens before the node. -/
  tokens : Nat
  /-- The place of the node. -/
  index : Nat
  line : Nat
  column : Nat

/-- The state between two tokens. -/
structure Progress where
  /-- The rest of the stream. -/
  cursor : Cursor
  /-- The tokens so far. -/
  tokens : Array Token
  /-- The first column that belongs to the innermost block. -/
  floor : Nat
  /-- The floors of the blocks around it, the nearest first. -/
  floors : List Nat
  /-- The candidate outside all flow collections. -/
  outer : Option KeyCandidate
  /-- The candidates in the flow collections, the innermost first. -/
  inner : List (Option KeyCandidate)
  /-- Whether a node that stands here can be a simple key. -/
  keyAllowed : Bool

namespace Progress

/-- The state at the start of a stream. -/
def start (stream : Text) : Progress := ⟨.start stream, #[], 0, [], none, [], true⟩

/-- Whether the place lies in a flow collection. -/
def flow (p : Progress) : Bool := !p.inner.isEmpty

/-- The candidate of the innermost collection. -/
def candidate (p : Progress) : Option KeyCandidate :=
  match p.inner with
  | [] => p.outer
  | k :: _ => k

/-- Replaces the candidate of the innermost collection. -/
def withCandidate (k : Option KeyCandidate) (p : Progress) : Progress :=
  match p.inner with
  | [] => { p with outer := k }
  | _ :: rest => { p with inner := k :: rest }

/-- Adds a token and moves on. -/
def push (token : Token) (c : Cursor) (p : Progress) : Progress :=
  { p with tokens := p.tokens.push token, cursor := c }

/-- Drops the candidate of the innermost collection, unless it is required. -/
def dropCandidate? (p : Progress) : Option Progress :=
  if p.candidate.any (·.required) then none else some (p.withCandidate none)

/-- Makes the node that starts here a candidate, if it can be a simple key. -/
def saveCandidate? (p : Progress) : Option Progress :=
  if p.keyAllowed then do
    let required := !p.flow && p.floor == p.cursor.column + 1
    let p ← p.dropCandidate?
    let c := p.cursor
    some (p.withCandidate (some ⟨required, p.tokens.size, c.index, c.line, c.column⟩))
  else some p

/-- Whether a candidate has lapsed at a place. -/
def lapsed (c : Cursor) (k : KeyCandidate) : Bool := k.line < c.line || k.index + 1024 < c.index

/-- Drops a candidate that has lapsed, unless it is required. -/
def refresh? (c : Cursor) : Option KeyCandidate → Option (Option KeyCandidate)
  | none => some none
  | some k => if lapsed c k then (if k.required then none else some none) else some (some k)

/-- Drops every candidate that has lapsed. -/
def dropLapsed? (p : Progress) : Option Progress := do
  let outer ← refresh? p.cursor p.outer
  let inner ← p.inner.mapM (refresh? p.cursor)
  some { p with outer := outer, inner := inner }

/-- Opens a block whose entries stand in a column, unless the innermost block reaches to it.  The
token that opens it is put in behind `before` tokens. -/
def openBlock (column before : Nat) (token : Token) (p : Progress) : Progress :=
  if p.flow || column < p.floor then p
  else
    { p with
      floor := column + 1
      floors := p.floor :: p.floors
      tokens := p.tokens.insertIdxIfInBounds before token }

/-- Closes the blocks of which `floors` are the floors, as long as they start behind a limit. -/
def closeBlocks (limit : Nat) (tokens : Array Token) (floor : Nat) :
    List Nat → Array Token × Nat × List Nat
  | [] => (tokens, floor, [])
  | outer :: floors =>
      if limit < floor then closeBlocks limit (tokens.push .blockEnd) outer floors
      else (tokens, floor, outer :: floors)

/-- Closes the blocks whose floor lies behind a limit. -/
def closeTo (limit : Nat) (p : Progress) : Progress :=
  if p.flow then p
  else
    let (tokens, floor, floors) := closeBlocks limit p.tokens p.floor p.floors
    { p with tokens := tokens, floor := floor, floors := floors }

/-- Passes blanks, comments and line breaks up to the next token.  A tab is a blank only where no
simple key can start.  The first argument bounds the number of lines. -/
def skipToToken : Nat → Progress → Progress
  | 0, p => p
  | n + 1, p =>
      let c := p.cursor
      let c := if c.column = 0 ∧ c.at? byteOrderMark then c.skip 1 else c
      let tabs := p.flow || !p.keyAllowed
      let c := (c.skipWhile fun x => x == ' ' || (tabs && x == '\t')).skipComment
      if c.looksAt isBreak then
        skipToToken n { p with cursor := c.skipBreak, keyAllowed := p.keyAllowed || !p.flow }
      else { p with cursor := c }

/-- A token of its own that ends all blocks: a directive or a document marker. -/
def endDocument? (p : Progress) : Option Progress := do
  let p ← (p.closeTo 0).dropCandidate?
  some { p with keyAllowed := false }

/-- The start of a flow collection. -/
def openFlow? (token : Token) (p : Progress) : Option Progress := do
  let p ← p.saveCandidate?
  some { p.push token (p.cursor.skip 1) with inner := none :: p.inner, keyAllowed := true }

/-- The end of a flow collection. -/
def closeFlow? (token : Token) (p : Progress) : Option Progress := do
  let p ← p.dropCandidate?
  some { p.push token (p.cursor.skip 1) with inner := p.inner.drop 1, keyAllowed := false }

/-- The comma of a flow collection. -/
def flowEntry? (p : Progress) : Option Progress := do
  let p ← p.dropCandidate?
  some { p.push .flowEntry (p.cursor.skip 1) with keyAllowed := true }

/-- The dash of a block sequence. -/
def blockEntry? (p : Progress) : Option Progress := do
  if !p.flow && !p.keyAllowed then none
  let p := p.openBlock p.cursor.column p.tokens.size .blockSequenceStart
  let p ← p.dropCandidate?
  some { p.push .blockEntry (p.cursor.skip 1) with keyAllowed := true }

/-- The question mark before a key. -/
def key? (p : Progress) : Option Progress := do
  if !p.flow && !p.keyAllowed then none
  let p := p.openBlock p.cursor.column p.tokens.size .blockMappingStart
  let p ← p.dropCandidate?
  some { p.push .key (p.cursor.skip 1) with keyAllowed := !p.flow }

/-- The colon before a value.  It makes a candidate a key. -/
def value? (p : Progress) : Option Progress :=
  match p.candidate with
  | some k =>
      let p := { p with tokens := p.tokens.insertIdxIfInBounds k.tokens .key }
      let p := (p.openBlock k.column k.tokens .blockMappingStart).withCandidate none
      some { p.push .value (p.cursor.skip 1) with keyAllowed := false }
  | none => do
      if !p.flow && !p.keyAllowed then none
      let p := p.openBlock p.cursor.column p.tokens.size .blockMappingStart
      some { p.push .value (p.cursor.skip 1) with keyAllowed := !p.flow }

/-- A token that can start a simple key, read by the given reader. -/
def node? (read? : Progress → Option (Token × Cursor)) (p : Progress) : Option Progress := do
  let p ← p.saveCandidate?
  let (token, c) ← read? p
  some { p.push token c with keyAllowed := false }

/-- A plain scalar, after which a key can start when it ended at a line break. -/
def plain? (p : Progress) : Option Progress := do
  let p ← p.saveCandidate?
  let (content, broken, c) ← readPlain? p.flow p.floor p.cursor
  some { p.push (.scalar true content) c with keyAllowed := broken }

/-- A block scalar. -/
def block? (literal : Bool) (p : Progress) : Option Progress := do
  let p ← p.dropCandidate?
  let (content, c) ← readBlock? literal p.floor p.cursor
  some { p.push (.scalar false content) c with keyAllowed := true }

/-- Whether a plain scalar can start with a character that `next` follows. -/
def startsPlain (flow : Bool) (x : Char) (next : Option Char) : Bool :=
  if endsWord (some x) then false
  else if x = '-' then !next.any isBlank
  else if x = '?' ∨ x = ':' then !flow && !endsWord next
  else !(text ",[]\x7b\x7d#&*!|>'\"%@" ++ ['\x60']).contains x

/-- Reads the token that starts with a character. -/
def next? (x : Char) (p : Progress) : Option Progress :=
  let c := p.cursor
  let second := c.peek 1
  if c.column = 0 ∧ x = '%' then do
    let p ← p.endDocument?
    let (token, c) ← readDirective? c
    some (p.push token c)
  else if c.startsLineWith (text "---") then do
    let p ← p.endDocument?
    some (p.push .documentStart (c.skip 3))
  else if c.startsLineWith (text "...") then do
    let p ← p.endDocument?
    some (p.push .documentEnd (c.skip 3))
  else if x = '[' then p.openFlow? .flowSequenceStart
  else if x = '{' then p.openFlow? .flowMappingStart
  else if x = ']' then p.closeFlow? .flowSequenceEnd
  else if x = '}' then p.closeFlow? .flowMappingEnd
  else if x = ',' then p.flowEntry?
  else if x = '-' ∧ endsWord second then p.blockEntry?
  else if x = '?' ∧ (p.flow ∨ endsWord second) then p.key?
  else if x = ':' ∧ (p.flow ∨ endsWord second) then p.value?
  else if x = '*' then
    p.node? fun p => (readName? p.cursor).map fun (name, c) => (.reference name, c)
  else if x = '&' then
    p.node? fun p => (readName? p.cursor).map fun (name, c) => (.anchor name, c)
  else if x = '!' then p.node? fun p => readTag? p.flow p.cursor
  else if x = '|' ∧ !p.flow then p.block? true
  else if x = '>' ∧ !p.flow then p.block? false
  else if x = '\'' then
    p.node? fun p => (readQuoted? true p.cursor).map fun (content, c) => (.scalar false content, c)
  else if x = '"' then
    p.node? fun p => (readQuoted? false p.cursor).map fun (content, c) => (.scalar false content, c)
  else if startsPlain p.flow x second then p.plain?
  else none

/-- Reads tokens up to the end of the stream.  The first argument bounds their number. -/
def finish? : Nat → Progress → Option (Array Token)
  | 0, _ => none
  | n + 1, p => do
      let p ← (p.skipToToken (p.cursor.rest.length + 1)).dropLapsed?
      match p.cursor.peek 0 with
      | none =>
          let p ← (p.closeTo 0).dropCandidate?
          some p.tokens
      | some x =>
          let p ← (p.closeTo (p.cursor.column + 1)).next? x
          finish? n p

end Progress

/-- The tokens of a stream. -/
def ofStream? (stream : Text) : Option (List Token) :=
  if stream.all isPrintable then
    ((Progress.start stream).finish? (stream.length + 1)).map Array.toList
  else none

end Token

end Yaml

end DocAudit
