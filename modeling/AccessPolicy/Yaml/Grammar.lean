import AccessPolicy.Yaml.Node
import AccessPolicy.Yaml.Token

/-!
# From tokens to nodes

`Outline.ofTokens` reads the one document that tokens may hold, as a graph and the number of
its first node. Each function reads one form of the grammar; the fuel they pass on bounds
the tokens still to come, and `Outline.ofTokens` starts with enough for all of them.

A reference to an anchor is the node that the anchor names. An anchor names a scalar once it
is read, and a collection as soon as it begins, so that a reference in a collection may
name the collection itself.
-/

namespace AccessPolicy.Yaml

/-- Where reading stands. -/
structure Reading where
  rest : List Token
  /-- What reading on beyond the tokens comes to. -/
  ending : Problem
  /-- What the handles of tags stand for. -/
  handles : List (String × String) := []
  /-- The nodes read so far. -/
  graph : Graph := {}
  /-- The nodes of the anchors. -/
  anchors : List (String × Nat) := []
  /-- How many collections are being read. -/
  depth : Nat := 0

abbrev Reader := StateT Reading (Except Problem)

namespace Reader

def malformed {α : Type} : Reader α :=
  throw .malformed

/-- The next token. -/
def peek : Reader Token := do
  let s ← get
  match s.rest with
  | [] => throw s.ending
  | t :: _ => return t

/-- Passes the next token. -/
def advance : Reader Unit :=
  modify fun s => { s with rest := s.rest.drop 1 }

/-- The next token is one of these. -/
def isNext (ts : List Token) : Reader Bool := do
  return ts.contains (← peek)

/-- Passes the next token if it is this one. -/
def take? (t : Token) : Reader Bool := do
  if (← peek) = t then
    advance
    return true
  else return false

/-- Passes the next token, which has to be this one. -/
def expect (t : Token) : Reader Unit := do
  if !(← take? t) then malformed

/-! ## Properties of nodes -/

/-- The full form of a tag; none where the kind is left open. -/
def fullTag : Option WrittenTag → Reader (Option String)
  | none => return none
  | some (.full uri) => return if uri = "!" then none else some uri
  | some (.short handle suffix) => do
    match (← get).handles.find? fun e => e.1 = handle with
    | some (_, stem) => return if stem ++ suffix = "!" then none else some (stem ++ suffix)
    | none => malformed

def anchor? : Reader (Option String) := do
  match ← peek with
  | .anchor name =>
    advance
    return some name
  | _ => return none

def tag? : Reader (Option WrittenTag) := do
  match ← peek with
  | .tag t =>
    advance
    return some t
  | _ => return none

/-- The anchor and the tag before a node, in either order. -/
def properties : Reader (Option String × Option WrittenTag) := do
  match ← anchor? with
  | some name => return (some name, ← tag?)
  | none =>
    match ← tag? with
    | some t => return (← anchor?, some t)
    | none => return (none, none)

/-! ## Making nodes -/

/-- The number of a new node. -/
def newNode (x : Node) : Reader Nat :=
  modifyGet fun s => (s.graph.size, { s with graph := s.graph.add x })

/-- The node where nothing is written. -/
def absent : Reader Nat :=
  newNode .absent

/-- An anchor is not taken yet. -/
def checkAnchor (anchor : Option String) : Reader Unit := do
  if (← get).anchors.any fun e => some e.1 = anchor then malformed

/-- The anchor names the node from here on. -/
def setAnchor (anchor : Option String) (n : Nat) : Reader Unit :=
  match anchor with
  | some name => modify fun s => { s with anchors := (name, n) :: s.anchors }
  | none => return ()

/-- A scalar that an anchor may name. -/
def scalar (anchor : Option String) (tag : Tag) (text : Text) : Reader Nat := do
  checkAnchor anchor
  let n ← newNode ⟨tag, .scalar text⟩
  setAnchor anchor n
  return n

/-- How many collections may be read inside each other. A thousand calls may be under way at a
time, and reading takes two for each collection. To copy, merge or show what was read takes
calls as well, for which there is no such limit here. -/
def mostNested : Nat := 487

/-- A collection that an anchor may name, with what stands in it. -/
def collection (anchor : Option String) (tag : Tag) (content : Reader Content) : Reader Nat := do
  if mostNested ≤ (← get).depth then throw (.fault .tooDeep)
  checkAnchor anchor
  let n ← newNode ⟨tag, .sequence []⟩
  setAnchor anchor n
  modify fun s => { s with depth := s.depth + 1 }
  let c ← content
  modify fun s => { s with depth := s.depth - 1, graph := s.graph.setContent n c }
  return n

/-- The node that a reference names. -/
def referred (name : String) : Reader Nat := do
  match (← get).anchors.find? fun e => e.1 = name with
  | some (_, n) => return n
  | none => malformed

/-- The kind of a scalar. Where no kind is given, a plain text is recognised, and one in
quotes is a text; an exclamation mark alone has any text recognised. -/
def scalarTag (plain : Bool) (written : Option WrittenTag) (uri : Option String)
    (text : Text) : Tag :=
  match uri with
  | some uri => Tag.ofUri uri
  | none => if plain || written.isSome then recognise text else .text

/-! ## Nodes -/

/-- Where a node stands. -/
inductive Position where
  /-- A block collection may start. -/
  | block
  /-- A block collection may start, also a sequence that is not indented. -/
  | underKey
  | flow
deriving DecidableEq

mutual

/-- A node. -/
def node (position : Position) : (fuel : Nat) → Reader Nat
  | 0 => malformed
  | fuel + 1 => do
    match ← peek with
    | .reference name =>
      advance
      referred name
    | _ =>
      let (anchor, written) ← properties
      let uri ← fullTag written
      let kind (default : Tag) : Tag := (uri.map Tag.ofUri).getD default
      match position, ← peek with
      | .underKey, .blockEntry =>
        collection anchor (kind .sequence) (.sequence <$> unindentedItems fuel)
      | _, .scalar plain text =>
        advance
        scalar anchor (scalarTag plain written uri text) text
      | _, .flowSequenceStart =>
        advance
        collection anchor (kind .sequence) (.sequence <$> flowItems true fuel)
      | _, .flowMappingStart =>
        advance
        collection anchor (kind .mapping) (.mapping <$> flowEntries true fuel)
      | position, t =>
        if position != .flow && t = .blockSequenceStart then
          advance
          collection anchor (kind .sequence) (.sequence <$> blockItems fuel)
        else if position != .flow && t = .blockMappingStart then
          advance
          collection anchor (kind .mapping) (.mapping <$> blockEntries fuel)
        else if anchor.isSome || written.isSome then
          scalar anchor (kind .null) []
        else malformed

/-- A node, or nothing where one of these tokens comes first. -/
def nodeUnless (ends : List Token) (position : Position) : (fuel : Nat) → Reader Nat
  | 0 => malformed
  | fuel + 1 => do
    if ← isNext ends then absent else node position fuel

/-- What comes after a colon, or nothing where there is none. -/
def valueUnless (ends : List Token) (position : Position) : (fuel : Nat) → Reader Nat
  | 0 => malformed
  | fuel + 1 => do
    if ← take? .value then nodeUnless ends position fuel else absent

/-- The items of an indented sequence. -/
def blockItems : (fuel : Nat) → Reader (List Nat)
  | 0 => malformed
  | fuel + 1 => do
    if ← take? .blockEntry then
      let item ← nodeUnless [.blockEntry, .blockEnd] .block fuel
      return item :: (← blockItems fuel)
    else
      expect .blockEnd
      return []

/-- The items of a sequence that is not indented. -/
def unindentedItems : (fuel : Nat) → Reader (List Nat)
  | 0 => malformed
  | fuel + 1 => do
    if ← take? .blockEntry then
      let item ← nodeUnless [.blockEntry, .key, .value, .blockEnd] .block fuel
      return item :: (← unindentedItems fuel)
    else return []

/-- The entries of a block mapping. -/
def blockEntries : (fuel : Nat) → Reader (List (Nat × Nat))
  | 0 => malformed
  | fuel + 1 => do
    if ← take? .key then
      let ends : List Token := [.key, .value, .blockEnd]
      let k ← nodeUnless ends .underKey fuel
      let v ← valueUnless ends .underKey fuel
      return (k, v) :: (← blockEntries fuel)
    else
      expect .blockEnd
      return []

/-- The items of a sequence in brackets. An item may be a mapping with a single entry. -/
def flowItems (first : Bool) : (fuel : Nat) → Reader (List Nat)
  | 0 => malformed
  | fuel + 1 => do
    if ← take? .flowSequenceEnd then return []
    else
      if !first then expect .flowEntry
      match ← peek with
      | .flowSequenceEnd =>
        advance
        return []
      | .key =>
        advance
        let item ← collection none .mapping do
          let k ← nodeUnless [.value, .flowEntry, .flowSequenceEnd] .flow fuel
          let v ← valueUnless [.flowEntry, .flowSequenceEnd] .flow fuel
          return .mapping [(k, v)]
        return item :: (← flowItems false fuel)
      | _ =>
        let item ← node .flow fuel
        return item :: (← flowItems false fuel)

/-- The entries of a mapping in braces. An entry may be a key alone. -/
def flowEntries (first : Bool) : (fuel : Nat) → Reader (List (Nat × Nat))
  | 0 => malformed
  | fuel + 1 => do
    if ← take? .flowMappingEnd then return []
    else
      if !first then expect .flowEntry
      match ← peek with
      | .flowMappingEnd =>
        advance
        return []
      | .key =>
        advance
        let k ← nodeUnless [.value, .flowEntry, .flowMappingEnd] .flow fuel
        let v ← valueUnless [.flowEntry, .flowMappingEnd] .flow fuel
        return (k, v) :: (← flowEntries false fuel)
      | _ =>
        let k ← node .flow fuel
        let v ← absent
        return (k, v) :: (← flowEntries false fuel)

end

/-! ## Documents -/

/-- The handles that need no directive. -/
def standardHandles : List (String × String) := [("!", "!"), ("!!", Tag.stem)]

/-- What the directives that come next make the handles stand for, after those that set up
`handles`. Each is checked before the next one is read. The fuel bounds their number. -/
def directives : (fuel : Nat) → (versioned : Bool) → (handles : List (String × String)) →
    Reader (List (String × String))
  | 0, _, handles => return handles ++ standardHandles
  | fuel + 1, versioned, handles => do
    match ← peek with
    | .directive d =>
      advance
      match d with
      | .version major =>
        if versioned || major != 1 then malformed else directives fuel true handles
      | .handle name stem =>
        if handles.any fun e => e.1 = name then malformed
        else directives fuel versioned (handles ++ [(name, stem)])
      | .reserved => directives fuel versioned handles
    | _ => return handles ++ standardHandles

/-- The directives of a document and the mark after them. -/
def documentMark (fuel : Nat) : Reader Unit := do
  let handles ← directives fuel false []
  modify fun s => { s with handles := handles }
  expect .documentStart

/-- The node of a document that starts with a mark. -/
def markedDocument (fuel : Nat) : Reader Nat := do
  documentMark fuel
  match ← peek with
  | .directive _ => absent
  | .documentStart => absent
  | .documentEnd => absent
  | .streamEnd => absent
  | _ => node .block fuel

/-- Passes the marks at the end of a document. The fuel bounds their number. -/
def documentEnds : (fuel : Nat) → Reader Unit
  | 0 => return ()
  | fuel + 1 => do if ← take? .documentEnd then documentEnds fuel

/-- Nothing comes after the document. What would be another one is read up to its mark before
it is refused. -/
def lastDocument (fuel : Nat) : Reader Unit := do
  documentEnds fuel
  if (← peek) != .streamEnd then
    documentMark fuel
    malformed

/-- The node of the one document; none where there is no document. -/
def singleDocument (fuel : Nat) : Reader (Option Nat) := do
  match ← peek with
  | .streamEnd => return none
  | t =>
    let n ← match t with
      | .directive _ => markedDocument fuel
      | .documentStart => markedDocument fuel
      | _ => do
        modify fun s => { s with handles := standardHandles }
        node .block fuel
    lastDocument fuel
    return some n

end Reader

/-- A graph and the node in it that is a document. -/
structure Outline where
  graph : Graph
  root : Nat

/-- The one document that the tokens hold; none where they hold none. -/
def Outline.ofTokens (ts : Tokens) : Except Problem (Option Outline) := do
  let (root, s) ← (Reader.singleDocument (4 * ts.tokens.length + 4)).run
    { rest := ts.tokens, ending := ts.ending }
  return root.map fun n => ⟨s.graph, n⟩

end AccessPolicy.Yaml
