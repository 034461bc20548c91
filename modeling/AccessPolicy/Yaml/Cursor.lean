import AccessPolicy.Document.Fault

/-!
# Reading positions

A YAML text is read from a `Cursor` : the characters still to come, how many were passed,
and the line and column reached. `Cursor.next` passes one character, `Cursor.take` a run of
a class.

Four characters end a line, the line feed and U+0085, U+2028, U+2029. The line feed and
U+0085 read as a line feed, the other two as themselves. Carriage returns do not occur :
they are replaced before the text is read.
-/

namespace AccessPolicy.Yaml

/-- Why a text gives no document. -/
inductive Problem where
  /-- The text is not well-formed. -/
  | malformed
  /-- A part of the text stands for a value that cannot be made. -/
  | fault (f : Fault)

/-! ## Classes of characters -/

def isBreak (c : Char) : Bool :=
  c = '\n' || c = '\x85' || c = '\u2028' || c = '\u2029'

/-- Space and tab. -/
def isSpacing (c : Char) : Bool :=
  c = ' ' || c = '\t'

/-- A line or the text ends here. -/
def endsLine : Option Char → Bool
  | none => true
  | some c => isBreak c

/-- A space, or the end of a line or of the text, is here. -/
def endsField : Option Char → Bool
  | none => true
  | some c => c = ' ' || isBreak c

/-- Spacing, or the end of a line or of the text, is here. -/
def endsWord : Option Char → Bool
  | none => true
  | some c => isSpacing c || isBreak c

/-- The character that may open a text without being part of it. -/
def byteOrderMark : Char := '\uFEFF'

/-! ## Cursors -/

structure Cursor where
  /-- The characters to come. -/
  rest : List Char
  /-- What is met after them, if it is not the end of the text. -/
  wall : Option Problem := none
  /-- How many characters were passed. -/
  index : Nat := 0
  line : Nat := 0
  column : Nat := 0

namespace Cursor

/-- The next character. -/
def head (c : Cursor) : Option Char :=
  c.rest.head?

/-- What becomes of a token in which the characters end. -/
def ending (c : Cursor) : Problem :=
  c.wall.getD .malformed

/-- There is a wall, and fewer than `n` characters before it. -/
def isShort (c : Cursor) (n : Nat) : Bool :=
  c.wall.isSome && 0 < n && (c.rest.drop (n - 1)).isEmpty

/-- The token that is being read does not go on like this. -/
def refuse {α : Type} (c : Cursor) : Except Problem α :=
  .error (if c.rest.isEmpty then c.ending else .malformed)

/-- The character after `n` others. -/
def peek (c : Cursor) (n : Nat) : Option Char :=
  c.rest[n]?

/-- The cursor after one character; byte order marks have no width. -/
def next (c : Cursor) : Cursor :=
  match c.rest with
  | [] => c
  | x :: rest =>
    let c := { c with rest := rest, index := c.index + 1 }
    if isBreak x then { c with line := c.line + 1, column := 0 }
    else if x = byteOrderMark then c
    else { c with column := c.column + 1 }

/-- The cursor after `n` characters. -/
def forward (c : Cursor) : Nat → Cursor
  | 0 => c
  | n + 1 => c.next.forward n

/-- The characters of the class that come next, and the cursor after them. -/
def take (p : Char → Bool) (c : Cursor) : List Char × Cursor :=
  let run := c.rest.takeWhile p
  (run, c.forward run.length)

/-- The cursor after the characters of the class. -/
def skip (p : Char → Bool) (c : Cursor) : Cursor :=
  (c.take p).2

/-- The end of a line, as it reads, and the cursor after it. -/
def lineBreak? (c : Cursor) : Option (Char × Cursor) :=
  match c.head with
  | some x => if isBreak x then some (if x = '\x85' then '\n' else x, c.next) else none
  | none => none

/-- The cursor after the end of the line, if it is here. -/
def afterBreak (c : Cursor) : Cursor :=
  match c.lineBreak? with
  | some (_, c) => c
  | none => c

/-- The mark stands here as a word of its own. -/
def startsWith (c : Cursor) (mark : List Char) : Bool :=
  mark.isPrefixOf c.rest && endsWord (c.peek mark.length)

/-- A line that separates documents starts here. -/
def atSeparator (c : Cursor) : Bool :=
  c.startsWith ['-', '-', '-'] || c.startsWith ['.', '.', '.']

/-- Whether a line that separates documents starts here depends on what is behind a wall. -/
def hidesSeparator (c : Cursor) : Bool :=
  c.isShort 3 || (c.isShort 4 && c.atSeparator)

/-- The cursor is on a later line than `start`, and whether that line separates documents
depends on what is behind a wall. -/
def hidesSeparatorSince (c start : Cursor) : Bool :=
  start.line < c.line && if c.column = 0 then c.hidesSeparator else c.isShort (3 - c.column)

/-- The cursor after a comment, if one starts here. -/
def skipComment (c : Cursor) : Cursor :=
  if c.head = some '#' then c.skip fun x => !isBreak x else c

/-- The cursor after the rest of a line that holds nothing but a comment. -/
def restOfLine (c : Cursor) : Except Problem Cursor :=
  let c := (c.skip (· = ' ')).skipComment
  if endsLine c.head then .ok c.afterBreak else .error .malformed

end Cursor

/-- What the ends of lines between two words read as : a single line feed reads as a space,
and of several the first is dropped. -/
def foldBreaks (first : Char) (others : List Char) : List Char :=
  if first != '\n' then first :: others
  else if others.isEmpty then [' ']
  else others

end AccessPolicy.Yaml
