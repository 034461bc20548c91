import AccessPolicy.Yaml.Block
import AccessPolicy.Yaml.Plain
import AccessPolicy.Yaml.Quoted
import AccessPolicy.Yaml.Source
import AccessPolicy.Yaml.Token

/-!
# Cutting a text into tokens

`Tokens.ofSource` cuts a source into tokens. A `Lexer` holds the position, the indentations of
the open block collections, and the tokens found so far.

Whether a token is a key is known only when a colon follows it. Until then it is pending,
once for every level of brackets, and the token of the key is inserted before it when the
colon comes. A pending key is given up at the end of its line or after 1024 characters; one
that has to be a key must not be given up.

Where a source ends at a wall, a token is found only if characters follow it, and only if
nothing behind the wall decides what it is (`Lexer.isCutShort`); otherwise it meets the wall.
-/

namespace AccessPolicy.Yaml

/-- A token that becomes a key if a colon follows. -/
structure PendingKey where
  /-- How many tokens are before it. -/
  number : Nat
  /-- No other token may stand here. -/
  required : Bool
  start : Cursor

structure Lexer where
  cursor : Cursor
  /-- The indentation of the innermost block collection. -/
  indent : Int := -1
  /-- The indentations around it. -/
  outerIndents : List Int := []
  /-- A key may start here. -/
  allowsKey : Bool := true
  pending : Option PendingKey := none
  /-- The pending keys outside the innermost brackets, one for each level. -/
  outerPending : List (Option PendingKey) := []
  /-- The tokens found, the last one first. -/
  found : List Token := []
  /-- How many tokens were found. -/
  count : Nat := 0

namespace Lexer

/-- The position is inside brackets. -/
def inFlow (l : Lexer) : Bool :=
  !l.outerPending.isEmpty

def column (l : Lexer) : Int :=
  l.cursor.column

/-- The lexer with one more token. -/
def emit (t : Token) (l : Lexer) : Lexer :=
  { l with found := t :: l.found, count := l.count + 1 }

/-- The lexer with a token inserted after the first `number`. -/
def insert (t : Token) (number : Nat) (l : Lexer) : Lexer :=
  let later := l.count - number
  { l with found := l.found.take later ++ t :: l.found.drop later, count := l.count + 1 }

/-- The lexer with one more token of `width` characters. -/
def emitMark (t : Token) (width : Nat) (l : Lexer) : Lexer :=
  { l.emit t with cursor := l.cursor.forward width }

/-! ## Pending keys -/

/-- The key can still be completed at the cursor. -/
def isFresh (c : Cursor) (k : PendingKey) : Bool :=
  k.start.line = c.line && c.index - k.start.index ≤ 1024

/-- The pending key, unless it is given up at the cursor. -/
def keepFresh (c : Cursor) : Option PendingKey → Except Problem (Option PendingKey)
  | none => .ok none
  | some k =>
    if isFresh c k then .ok (some k)
    else if k.required then .error .malformed
    else .ok none

/-- Gives up the pending keys that came too long ago. -/
def dropStale (l : Lexer) : Except Problem Lexer := do
  return { l with
    pending := ← keepFresh l.cursor l.pending
    outerPending := ← l.outerPending.mapM (keepFresh l.cursor) }

/-- Gives up the pending key of the innermost level. -/
def dropPending (l : Lexer) : Except Problem Lexer :=
  if l.pending.any (·.required) then .error .malformed else .ok { l with pending := none }

/-- Makes the next token a pending key, where a key may start. -/
def savePending (l : Lexer) : Except Problem Lexer := do
  if l.allowsKey then
    let required := !l.inFlow && l.indent = l.column
    let l ← l.dropPending
    return { l with pending := some ⟨l.count, required, l.cursor⟩ }
  else return l

/-! ## Indentation -/

/-- Ends the block collections that are indented by more than `column`, given the
indentations around the innermost one. -/
def unwindFrom (column : Int) : (outer : List Int) → Lexer → Lexer
  | [], l => l
  | indent :: outer, l =>
    if column < l.indent then
      unwindFrom column outer { l.emit .blockEnd with indent := indent, outerIndents := outer }
    else l

/-- Ends the block collections that are indented by more than `column`. -/
def unwind (column : Int) (l : Lexer) : Lexer :=
  if l.inFlow then l else unwindFrom column l.outerIndents l

/-- The lexer inside a block collection that is indented by `column`. -/
def openIndent (column : Int) (l : Lexer) : Lexer :=
  { l with indent := column, outerIndents := l.indent :: l.outerIndents }

/-- Starts a block collection here, unless it goes on. -/
def startBlock (t : Token) (l : Lexer) : Lexer :=
  if l.indent < l.column then (l.openIndent l.column).emit t else l

/-! ## Single tokens -/

/-- The end of the text. -/
def streamEnd (l : Lexer) : Except Problem Lexer := do
  let l ← (l.unwind (-1)).dropPending
  return { l.emit .streamEnd with allowsKey := false }

/-- A directive, or a mark that separates documents. -/
def betweenDocuments (l : Lexer) : Except Problem Lexer := do
  let l ← (l.unwind (-1)).dropPending
  return { l with allowsKey := false }

def directive (l : Lexer) : Except Problem Lexer := do
  let l ← l.betweenDocuments
  let (d, c) ← l.cursor.directive
  return { l.emit (.directive d) with cursor := c }

def openFlow (t : Token) (l : Lexer) : Except Problem Lexer := do
  let l ← l.savePending
  return { l.emitMark t 1 with
    allowsKey := true, pending := none, outerPending := l.pending :: l.outerPending }

def closeFlow (t : Token) (l : Lexer) : Except Problem Lexer := do
  let l ← l.dropPending
  match l.outerPending with
  | [] => l.cursor.next.refuse
  | pending :: outer =>
    return { l.emitMark t 1 with allowsKey := false, pending := pending, outerPending := outer }

def flowEntry (l : Lexer) : Except Problem Lexer := do
  let l ← l.dropPending
  return { l.emitMark .flowEntry 1 with allowsKey := true }

def blockEntry (l : Lexer) : Except Problem Lexer := do
  if !l.inFlow && !l.allowsKey then .error .malformed
  else
    let l := if l.inFlow then l else l.startBlock .blockSequenceStart
    let l ← l.dropPending
    return { l.emitMark .blockEntry 1 with allowsKey := true }

/-- The mark of a key that is no pending one. -/
def explicitKey (l : Lexer) : Except Problem Lexer := do
  if !l.inFlow && !l.allowsKey then .error .malformed
  else
    let l := if l.inFlow then l else l.startBlock .blockMappingStart
    let l ← l.dropPending
    return { l.emitMark .key 1 with allowsKey := !l.inFlow }

/-- A colon, which completes the pending key if there is one. -/
def value (l : Lexer) : Except Problem Lexer :=
  match l.pending with
  | some k =>
    let l := { l with pending := none, allowsKey := false }.insert .key k.number
    let column : Int := k.start.column
    let l :=
      if !l.inFlow && l.indent < column then
        (l.openIndent column).insert .blockMappingStart k.number
      else l
    .ok (l.emitMark .value 1)
  | none =>
    if !l.inFlow && !l.allowsKey then .error .malformed
    else
      let l := if l.inFlow then l else l.startBlock .blockMappingStart
      .ok { l.emitMark .value 1 with allowsKey := !l.inFlow }

/-- What was passed from `start` on is a token, unless its last line may separate documents. -/
def checkLastLine (start c : Cursor) : Except Problem Unit :=
  if c.hidesSeparatorSince start then .error c.ending else .ok ()

/-- A token that may be a key and does not allow one right after it. -/
def part {α : Type} (token : α → Token) (read : Cursor → Except Problem (α × Cursor))
    (l : Lexer) : Except Problem Lexer := do
  let l ← l.savePending
  let (a, c) ← read l.cursor
  checkLastLine l.cursor c
  return { l.emit (token a) with cursor := c, allowsKey := false }

def plain (l : Lexer) : Except Problem Lexer := do
  let l ← l.savePending
  let (text, breaksLine, c) := l.cursor.plain l.inFlow (l.indent + 1)
  checkLastLine l.cursor c
  return { l.emit (.scalar true text) with cursor := c, allowsKey := breaksLine }

def block (folded : Bool) (l : Lexer) : Except Problem Lexer := do
  let l ← l.dropPending
  let (text, c) ← l.cursor.block folded l.indent
  return { l.emit (.scalar false text) with cursor := c, allowsKey := true }

/-! ## All tokens -/

/-- What starts with this character depends on characters behind a wall. -/
def isCutShort (x : Char) (l : Lexer) : Bool :=
  let c := l.cursor
  (c.column = 0 && (x = '-' || x = '.') && c.hidesSeparator) ||
    (c.isShort 2 &&
      (if x = '%' then c.column != 0
      else if x = '?' || x = ':' then !l.inFlow
      else if x = '|' || x = '>' then l.inFlow
      else ['-', '@', '\x60', '\t'].contains x))

/-- The token that starts with this character. -/
def tokenAt (x : Char) (l : Lexer) : Except Problem Lexer :=
  let c := l.cursor
  let after := c.peek 1
  if l.isCutShort x then .error c.ending
  else if x = '%' && c.column = 0 then l.directive
  else if c.column = 0 && c.startsWith ['-', '-', '-'] then
    l.betweenDocuments.map fun l => l.emitMark .documentStart 3
  else if c.column = 0 && c.startsWith ['.', '.', '.'] then
    l.betweenDocuments.map fun l => l.emitMark .documentEnd 3
  else if x = '[' then l.openFlow .flowSequenceStart
  else if x = '\x7b' then l.openFlow .flowMappingStart
  else if x = ']' then l.closeFlow .flowSequenceEnd
  else if x = '\x7d' then l.closeFlow .flowMappingEnd
  else if x = ',' then l.flowEntry
  else if x = '-' && endsWord after then l.blockEntry
  else if x = '?' && (l.inFlow || endsWord after) then l.explicitKey
  else if x = ':' && (l.inFlow || endsWord after) then l.value
  else if x = '*' then l.part .reference fun c => c.next.name
  else if x = '&' then l.part .anchor fun c => c.next.name
  else if x = '!' then l.part .tag Cursor.tag
  else if x = '|' && !l.inFlow then l.block false
  else if x = '>' && !l.inFlow then l.block true
  else if x = '\x27' then l.part (.scalar false) (Cursor.quoted false)
  else if x = '\x22' then l.part (.scalar false) (Cursor.quoted true)
  else if startsPlain l.inFlow x after then l.plain
  else .error .malformed

/-- Passes spaces, comments and ends of lines; outside brackets a key may start on a new
line. The fuel bounds the number of lines. -/
def toNextToken : (fuel : Nat) → Lexer → Lexer
  | 0, l => l
  | fuel + 1, l =>
    let c := (l.cursor.skip (· = ' ')).skipComment
    match c.lineBreak? with
    | none => { l with cursor := c }
    | some (_, c) =>
      toNextToken fuel { l with cursor := c, allowsKey := l.allowsKey || !l.inFlow }

/-- The tokens that are certain where reading goes no further : those before the first
pending key. -/
def certain (l : Lexer) (ending : Problem) : Tokens :=
  let numbers := (l.pending :: l.outerPending).filterMap fun k => k.map (·.number)
  ⟨l.found.reverse.take (numbers.foldl min l.count), ending⟩

/-- There are characters at the cursor, unless the text has come to its end. -/
def checkSupply (l : Lexer) : Except Problem Unit :=
  match l.cursor.wall with
  | some p => if l.cursor.rest.isEmpty then .error p else .ok ()
  | none => .ok ()

/-- Reads the next token, and says whether it was the last one. -/
def step (l : Lexer) : Except Problem (Bool × Lexer) := do
  let l := toNextToken (l.cursor.rest.length + 1) l
  l.checkSupply
  let l ← l.dropStale
  match l.cursor.head with
  | none => return (true, ← l.streamEnd)
  | some x =>
    let l ← (l.unwind l.column).tokenAt x
    l.checkSupply
    return (false, l)

/-- Reads tokens up to the end of the text. The fuel bounds the number of steps. -/
def run : (fuel : Nat) → Lexer → Tokens
  | 0, l => l.certain .malformed
  | fuel + 1, l =>
    match l.dropStale with
    | .error e => l.certain e
    | .ok l =>
      match l.step with
      | .error e => l.certain e
      | .ok (true, l) => ⟨l.found.reverse, .malformed⟩
      | .ok (false, l) => run fuel l

end Lexer

/-- The tokens of a source. -/
def Tokens.ofSource (source : Source) : Tokens :=
  let start : Cursor := { rest := source.text, wall := source.wall }
  let start := if start.head = some byteOrderMark then start.next else start
  Lexer.run (source.text.length + 1) { cursor := start }

end AccessPolicy.Yaml
