import AccessPolicy.Yaml.Cursor

/-!
# Plain text

Text without quotes. It ends where a colon before spacing would make it a key, where a
comment starts, and inside brackets at their marks. It may go on over several lines as
long as these are indented far enough; the ends of lines between two words are folded.
-/

namespace AccessPolicy.Yaml

/-- The marks of collections in brackets. -/
def isFlowMark (c : Char) : Bool :=
  c = ',' || c = '[' || c = ']' || c = '\x7b' || c = '\x7d'

/-- A plain word ends before this character, given the one after it. -/
def endsPlainWord (inFlow : Bool) (c : Char) (after : Option Char) : Bool :=
  endsWord (some c) ||
    (c = ':' && (endsWord after || (inFlow && after.any isFlowMark))) ||
    (inFlow && (c = '?' || isFlowMark c))

/-- The plain word at the start of a text. -/
def plainWord (inFlow : Bool) : List Char → List Char
  | [] => []
  | c :: cs => if endsPlainWord inFlow c cs.head? then [] else c :: plainWord inFlow cs

/-- A plain text may start with this character, given the one after it. -/
def startsPlain (inFlow : Bool) (c : Char) (after : Option Char) : Bool :=
  !(endsWord (some c) || isFlowMark c || "-?:#&*!|>'\"%@\x60".toList.contains c) ||
    (!endsWord after && (c = '-' || (!inFlow && (c = '?' || c = ':'))))

/-- What stands between two plain words. -/
structure Gap where
  /-- What the gap reads as; empty where the text ends. -/
  text : List Char
  /-- The gap goes over the end of a line. -/
  breaksLine : Bool
  after : Cursor

namespace Cursor

/-- Empty lines and the indentation after them : the ends of lines, unless a separator of
documents comes, and the cursor after them. The fuel bounds the number of characters. -/
def emptyLines : (fuel : Nat) → Cursor → Option (List Char) × Cursor
  | 0, c => (some [], c)
  | fuel + 1, c =>
    if c.head = some ' ' then emptyLines fuel c.next
    else
      match c.lineBreak? with
      | none => (some [], c)
      | some (b, c) =>
        if c.atSeparator then (none, c)
        else
          let (more, c) := emptyLines fuel c
          (more.map (b :: ·), c)

/-- The gap that starts here. -/
def gap (c : Cursor) : Gap :=
  let (spaces, c) := c.take (· = ' ')
  match c.lineBreak? with
  | none => ⟨spaces, false, c⟩
  | some (b, c) =>
    if c.atSeparator then ⟨[], true, c⟩
    else
      match emptyLines c.rest.length c with
      | (none, c) => ⟨[], true, c⟩
      | (some more, c) => ⟨foldBreaks b more, true, c⟩

/-- The words of a plain text with the gaps between them, whether the last gap breaks the
line, and the cursor after it. `before` is the gap passed so far. The fuel bounds the
number of words. -/
def plainFrom (inFlow : Bool) (indent : Int) :
    (fuel : Nat) → (before : Gap) → List Char × Bool × Cursor
  | 0, before => ([], before.breaksLine, before.after)
  | fuel + 1, before =>
    let c := before.after
    let word := if c.head = some '#' then [] else plainWord inFlow c.rest
    if word.isEmpty then ([], before.breaksLine, c)
    else
      let gap := (c.forward word.length).gap
      if gap.text.isEmpty || gap.after.head = some '#' ||
          (!inFlow && gap.after.column < indent) then
        (before.text ++ word, gap.breaksLine, gap.after)
      else
        let (more, breaksLine, c) := plainFrom inFlow indent fuel gap
        (before.text ++ word ++ more, breaksLine, c)

/-- A plain text whose lines are indented by at least `indent`, whether the gap after it
breaks the line, and the cursor after the gap. -/
def plain (inFlow : Bool) (indent : Int) (c : Cursor) : Text × Bool × Cursor :=
  let (text, breaksLine, c) := plainFrom inFlow indent (c.rest.length + 1) ⟨[], false, c⟩
  (.ofChars text, breaksLine, c)

end Cursor

end AccessPolicy.Yaml
