import AccessPolicy.Text.Printable
import AccessPolicy.Text.Numeral

/-!
# Quoted text

A text inside a message is quoted : single quotes, or double quotes where the text holds a
single quote and no double one. `Quoted.text` writes a text, `Quoted.bytes` a sequence of
bytes with a `b` in front. Backslash, the quote in use and what is not printable are
escaped, so that no half is left in the result.
-/

namespace AccessPolicy.Quoted

/-- The quote that goes around text whose characters satisfy these tests. -/
def mark (hasSingle hasDouble : Bool) : Char :=
  if hasSingle && !hasDouble then '\x22' else '\x27'

/-- The three control characters that have a letter of their own. -/
def letter? (c : Char) : Option Char :=
  if c = '\n' then some 'n' else if c = '\r' then some 'r' else if c = '\t' then some 't' else none

/-- The escape of a code point by its number. -/
def numbered (n : Nat) : List Char :=
  if n < 0x100 then '\\' :: 'x' :: Text.hex 2 n
  else if n < 0x10000 then '\\' :: 'u' :: Text.hex 4 n
  else '\\' :: 'U' :: Text.hex 8 n

/-- One code point inside quotes. -/
def escape (quote : Char) : CodePoint → List Char
  | .half n => numbered (CodePoint.half n).toNat
  | .char c =>
    if c = quote ∨ c = '\\' then ['\\', c]
    else match letter? c with
      | some l => ['\\', l]
      | none => if Text.isPrintable c then [c] else numbered c.toNat

/-- A text in quotes. -/
def text (t : Text) : String :=
  let quote := mark (t.contains '\x27') (t.contains '\x22')
  String.ofList (quote :: t.flatMap (escape quote) ++ [quote])

/-- One byte inside quotes. -/
def escapeByte (quote : Char) (b : UInt8) : List Char :=
  let c := Char.ofNat b.toNat
  if c = quote ∨ c = '\\' then ['\\', c]
  else match letter? c with
    | some l => ['\\', l]
    | none => if 0x20 ≤ b.toNat ∧ b.toNat < 0x7F then [c] else '\\' :: 'x' :: Text.hex 2 b.toNat

/-- A sequence of bytes in quotes. -/
def bytes (bs : List UInt8) : String :=
  let quote := mark (bs.contains 0x27) (bs.contains 0x22)
  String.ofList ('b' :: quote :: bs.flatMap (escapeByte quote) ++ [quote])

end AccessPolicy.Quoted
