import AccessPolicy.Yaml.Cursor

/-!
# Block text

Text that is set off by its indentation. A bar keeps the ends of lines, an angle folds
them. The indentation is that of the first line that is not empty, or given by a digit; a
sign says what becomes of the empty lines at the end.
-/

namespace AccessPolicy.Yaml

/-- What becomes of the ends of lines at the end of a block text. -/
inductive Chomping where
  /-- One is kept. -/
  | clip
  /-- None is kept. -/
  | strip
  /-- All are kept. -/
  | keep
deriving DecidableEq, Repr

def Chomping.ofSign? : Char → Option Chomping
  | '+' => some .keep
  | '-' => some .strip
  | _ => none

namespace Cursor

/-- The sign of a block text, if it is here. -/
def chomping (c : Cursor) : Chomping × Cursor :=
  match c.head.bind Chomping.ofSign? with
  | some chomping => (chomping, c.next)
  | none => (.clip, c)

/-- The digit that gives the indentation, if it is here; it is not zero. -/
def indentDigit (c : Cursor) : Except Problem (Option Nat × Cursor) :=
  match c.head with
  | some x =>
    if x = '0' then .error .malformed
    else if x.isDigit then .ok (some (x.toNat - 48), c.next)
    else .ok (none, c)
  | none => .ok (none, c)

/-- The line that opens a block text : sign and digit in either order. -/
def blockHeader (c : Cursor) : Except Problem (Chomping × Option Nat × Cursor) := do
  let (first, c) := c.chomping
  let (digit, c) ← c.indentDigit
  let (sign, c) := if first = .clip ∧ digit.isSome then c.chomping else (first, c)
  if endsField c.head then return (sign, digit, ← c.restOfLine) else .error .malformed

/-- Empty lines, as the ends of lines, and the widest indentation in them. The fuel bounds
the number of characters. -/
def blockStart : (fuel widest : Nat) → Cursor → List Char × Nat × Cursor
  | 0, widest, c => ([], widest, c)
  | fuel + 1, widest, c =>
    if c.head = some ' ' then blockStart fuel (max widest c.next.column) c.next
    else
      match c.lineBreak? with
      | none => ([], widest, c)
      | some (b, c) =>
        let (more, widest, c) := blockStart fuel widest c
        (b :: more, widest, c)

/-- The cursor after spaces up to the indentation. The fuel bounds their number. -/
def skipIndent (indent : Nat) : (fuel : Nat) → Cursor → Cursor
  | 0, c => c
  | fuel + 1, c =>
    if c.column < indent ∧ c.head = some ' ' then skipIndent indent fuel c.next else c

/-- Empty lines in a text with this indentation, as the ends of lines. The fuel bounds their
number. -/
def blockBreaks (indent : Nat) : (fuel : Nat) → Cursor → List Char × Cursor
  | 0, c => ([], c)
  | fuel + 1, c =>
    let c := c.skipIndent indent indent
    match c.lineBreak? with
    | none => ([], c)
    | some (b, c) =>
      let (more, c) := blockBreaks indent fuel c
      (b :: more, c)

/-- What comes of the lines of a block text. -/
structure BlockLines where
  text : List Char
  /-- The end of the last line that is not empty; none where the text ends. -/
  lastBreak : List Char
  /-- The ends of the empty lines after it. -/
  emptyEnd : List Char
  after : Cursor

/-- A line of the text starts here. -/
def atBlockLine (indent : Nat) (c : Cursor) : Bool :=
  c.column = indent && !c.rest.isEmpty

/-- What stands between two lines of a block text, given the end of the first, whether both
start with a word, and the empty lines between them. -/
def betweenLines (folded words : Bool) (lineBreak empty : List Char) : List Char :=
  if folded && words && lineBreak = ['\n'] then (if empty.isEmpty then [' '] else [])
  else lineBreak

/-- The lines of a block text after the empty lines `empty`. The fuel bounds their number. -/
def blockLines (folded : Bool) (indent : Nat) :
    (fuel : Nat) → (empty : List Char) → Cursor → BlockLines
  | 0, empty, c => ⟨[], [], empty, c⟩
  | fuel + 1, empty, c =>
    if !c.atBlockLine indent then ⟨[], [], empty, c⟩
    else
      let startsWord := !c.head.any isSpacing
      let (line, c) := c.take fun x => !isBreak x
      let lineBreak := (c.lineBreak?.map (·.1)).toList
      let c := c.afterBreak
      let (next, c) := c.blockBreaks indent (c.rest.length + 1)
      if c.atBlockLine indent then
        let words := startsWord && !c.head.any isSpacing
        let more := blockLines folded indent fuel next c
        { more with text := empty ++ line ++ betweenLines folded words lineBreak next ++ more.text }
      else ⟨empty ++ line, lineBreak, next, c⟩

/-- The block text that starts here, in a collection that is indented by `outer`. -/
def block (folded : Bool) (outer : Int) (c : Cursor) : Except Problem (Text × Cursor) := do
  let (chomping, digit, c) ← c.next.blockHeader
  let least := (max (outer + 1) 1).toNat
  let fuel := c.rest.length + 1
  let (empty, indent, c) :=
    match digit with
    | none =>
      let (empty, widest, c) := blockStart fuel 0 c
      (empty, max least widest, c)
    | some n =>
      let (empty, c) := c.blockBreaks (least + n - 1) fuel
      (empty, least + n - 1, c)
  let lines := blockLines folded indent fuel empty c
  let ending := match chomping with
    | .clip => lines.lastBreak
    | .strip => []
    | .keep => lines.lastBreak ++ lines.emptyEnd
  return (.ofChars (lines.text ++ ending), lines.after)

end Cursor

end AccessPolicy.Yaml
