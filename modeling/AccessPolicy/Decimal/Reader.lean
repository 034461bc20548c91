import AccessPolicy.Decimal.Binary64
import AccessPolicy.Text.Numeral

/-!
# Reading floating-point numerals

`Binary64.read` accepts digits with a point and a power of ten, single underscores between
digits, one sign, margins around, and the words `inf`, `infinity` and `nan` in any case.
The value is the floating-point value nearest to the numeral.
-/

namespace AccessPolicy

/-- A floating-point numeral without its sign : `digits · 10 ^ exponent`, and how many
digits were written. -/
structure Numeral where
  digits : Nat
  count : Nat
  exponent : Int

namespace Numeral

/-- The value nearest to the numeral. A numeral whose leading digit lies outside the range
of the format is decided by its exponent. -/
def nearest (n : Numeral) : Binary64 :=
  if n.digits = 0 then ⟨0⟩
  else
    let size : Int := (toString n.digits).length + n.exponent
    if size > 310 then Binary64.infinity
    else if size < -330 then ⟨0⟩
    else Binary64.ofFloat (Float.ofScientific n.digits (n.exponent < 0) n.exponent.natAbs)

/-- Digits with single underscores between them : their value and number, and the rest. The
flag says that the character before was a digit. -/
def scanDigits : (acc count : Nat) → (afterDigit : Bool) → List Char →
    Option (Nat × Nat × List Char)
  | acc, count, _, [] => some (acc, count, [])
  | acc, count, afterDigit, c :: cs =>
    if '0' ≤ c ∧ c ≤ '9' then scanDigits (acc * 10 + (c.toNat - 48)) (count + 1) true cs
    else if c = '_' then
      match afterDigit, cs with
      | true, d :: _ => if '0' ≤ d ∧ d ≤ '9' then scanDigits acc count false cs else none
      | _, _ => none
    else some (acc, count, c :: cs)

/-- The power of ten at the end of a numeral. -/
def readExponent : List Char → Option Int
  | [] => some 0
  | c :: cs =>
    if c = 'e' ∨ c = 'E' then
      let (negative, rest) := Text.splitSign cs
      match scanDigits 0 0 false rest with
      | some (n, count, []) =>
        if count = 0 then none else some (if negative then -(n : Int) else n)
      | _ => none
    else none

/-- Digits, a point and digits, of which one side may be missing, and a power of ten. -/
def read (cs : List Char) : Option Numeral := do
  let (whole, n, rest) ← scanDigits 0 0 false cs
  let (digits, count, rest) ← match rest with
    | '.' :: rest => scanDigits whole n false rest
    | rest => some (whole, n, rest)
  if count = 0 then none
  else
    let e ← readExponent rest
    some ⟨digits, count, e - ((count - n : Nat) : Int)⟩

end Numeral

/-- The value of a floating-point numeral without its sign. -/
def Binary64.readUnsigned (cs : List Char) : Option Binary64 :=
  let word := cs.map Char.toLower
  if word = "inf".toList ∨ word = "infinity".toList then some infinity
  else if word = "nan".toList then some nan
  else (Numeral.read cs).map Numeral.nearest

/-- The value of a floating-point numeral. -/
def Binary64.read (text : List Char) : Option Binary64 :=
  let (negative, rest) := Text.splitSign ((Text.trimBy Text.isMargin text).map Text.foldDigit)
  (readUnsigned rest).map fun x => if negative && !x.isNaN then x.negate else x

end AccessPolicy
