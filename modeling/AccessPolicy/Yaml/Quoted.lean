import AccessPolicy.Yaml.Tag

/-!
# Text in quotes

In single quotes a quote is written twice and everything else stands for itself. In double
quotes a backslash starts an escape : a letter for one character, a code point in
hexadecimal, or the end of the line, which then reads as nothing. In both, spacing around
the ends of lines is dropped and the ends of lines are folded.

An escape may name any code point, also a half; two halves that come one after the other
stay what they are.
-/

namespace AccessPolicy.Yaml

/-! ## Escapes -/

/-- The code point that a letter after a backslash stands for. -/
def escapedCode? : Char → Option Nat
  | '0' => some 0
  | 'a' => some 0x07
  | 'b' => some 0x08
  | 't' => some 0x09
  | '\t' => some 0x09
  | 'n' => some 0x0A
  | 'v' => some 0x0B
  | 'f' => some 0x0C
  | 'r' => some 0x0D
  | 'e' => some 0x1B
  | ' ' => some 0x20
  | '\x22' => some 0x22
  | '\\' => some 0x5C
  | '/' => some 0x2F
  | 'N' => some 0x85
  | '_' => some 0xA0
  | 'L' => some 0x2028
  | 'P' => some 0x2029
  | _ => none

/-- How many hexadecimal digits follow a letter after a backslash. -/
def escapeWidth? : Char → Option Nat
  | 'x' => some 2
  | 'u' => some 4
  | 'U' => some 8
  | _ => none

/-- The number that hexadecimal digits stand for, if all of them are such digits. -/
def hexNumber? : (acc : Nat) → List Char → Option Nat
  | acc, [] => some acc
  | acc, c :: cs =>
    match hexValue? c with
    | some x => hexNumber? (acc * 16 + x) cs
    | none => none

/-- The code point of a number, if it is one. -/
def codePoint (n : Nat) : Except Problem CodePoint :=
  if n < 0x110000 then .ok (.ofNat n)
  else if n < 0x80000000 then .error (.fault .badNumeral)
  else .error (.fault .overflow)

namespace Cursor

/-! ## Ends of lines -/

/-- Empty lines and the spacing after them, as the ends of lines. The fuel bounds the number
of lines. -/
def quotedLines : (fuel : Nat) → Cursor → Except Problem (List Char × Cursor)
  | 0, c => .ok ([], c)
  | fuel + 1, c =>
    if c.atSeparator then (c.forward 3).refuse
    else
      let c := c.skip isSpacing
      match c.lineBreak? with
      | none => .ok ([], c)
      | some (b, c) => do
        let (more, c) ← quotedLines fuel c
        return (b :: more, c)

/-- Spacing and ends of lines between two words. -/
def quotedGap (c : Cursor) : Except Problem (List Char × Cursor) :=
  let (spaces, c) := c.take isSpacing
  match c.lineBreak? with
  | none => if c.rest.isEmpty then c.refuse else .ok (spaces, c)
  | some (b, c) => do
    let (more, c) ← quotedLines (c.rest.length + 1) c
    return (foldBreaks b more, c)

/-! ## Words -/

/-- The escape whose backslash was passed. -/
def escape (c : Cursor) : Except Problem (Text × Cursor) :=
  match c.head with
  | none => c.refuse
  | some x =>
    match escapedCode? x, escapeWidth? x with
    | some n, _ => .ok ([.ofNat n], c.next)
    | none, some width => do
      let digits := c.next.rest.take width
      match hexNumber? 0 digits with
      | none => .error .malformed
      | some n =>
        if digits.length < width then .error c.ending
        else return ([← codePoint n], c.forward (width + 1))
    | none, none =>
      if isBreak x then do
        let (breaks, c) ← quotedLines (c.rest.length + 1) c.next
        return (.ofChars breaks, c)
      else .error .malformed

/-- The code points up to the closing quote, and the cursor after it. The fuel bounds the
number of characters. -/
def quotedFrom (double : Bool) : (fuel : Nat) → Cursor → Except Problem (Text × Cursor)
  | 0, _ => .error .malformed
  | fuel + 1, c =>
    match c.head with
    | none => c.refuse
    | some x => do
      if x = (if double then '\x22' else '\x27') then
        if !double && c.peek 1 = some '\x27' then
          let (more, c) ← quotedFrom double fuel (c.forward 2)
          return (.char '\x27' :: more, c)
        else return ([], c.next)
      else
        let (piece, c) ←
          if endsWord (some x) then do
            let (gap, c) ← c.quotedGap
            pure (Text.ofChars gap, c)
          else if double && x = '\\' then c.next.escape
          else pure ([.char x], c.next)
        let (more, c) ← quotedFrom double fuel c
        return (piece ++ more, c)

/-- The text in quotes that starts here. -/
def quoted (double : Bool) (c : Cursor) : Except Problem (Text × Cursor) :=
  quotedFrom double (c.rest.length + 1) c.next

end Cursor

end AccessPolicy.Yaml
