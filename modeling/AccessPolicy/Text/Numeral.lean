import AccessPolicy.Text.Blank
import AccessPolicy.Text.Digit

/-!
# Numerals

Writing and reading integers in a base.

`Text.hex` writes the fixed-width hexadecimal form used in escapes, `Text.padded` a
decimal of a least width. `Text.readInteger` reads a numeral : margins around it, one
sign, the mark of its base (`0b`, `0o`, `0x`), then digits of any script with single
underscores between them.
-/

namespace AccessPolicy.Text

/-! ## Writing -/

/-- The lower-case hexadecimal digit of a value below sixteen. -/
def hexDigit (n : Nat) : Char :=
  if n < 10 then digitChar n else Char.ofNat (87 + n)

/-- The last `width` hexadecimal digits of `n`. -/
def hex : (width : Nat) → (n : Nat) → List Char
  | 0, _ => []
  | width + 1, n => hex width (n / 16) ++ [hexDigit (n % 16)]

/-- The last `width` octal digits of `n`. -/
def octal : (width : Nat) → (n : Nat) → List Char
  | 0, _ => []
  | width + 1, n => octal width (n / 8) ++ [digitChar (n % 8)]

/-- `n` in decimal, filled with zeros on the left up to `width` digits. -/
def padded (width n : Nat) : String :=
  let digits := toString n
  String.ofList (List.replicate (width - digits.length) '0') ++ digits

/-! ## Reading -/

/-- The value of an ASCII letter or digit as a digit. -/
def digitValue? (c : Char) : Option Nat :=
  if '0' ≤ c ∧ c ≤ '9' then some (c.toNat - 48)
  else if 'a' ≤ c ∧ c ≤ 'z' then some (c.toNat - 87)
  else if 'A' ≤ c ∧ c ≤ 'Z' then some (c.toNat - 55)
  else none

/-- Digits of the base with single underscores between them, added to `acc`. The flag says
that the character before was a digit. -/
def readDigits (base : Nat) : (acc : Nat) → (afterDigit : Bool) → List Char → Option Nat
  | acc, true, [] => some acc
  | _, false, [] => none
  | acc, afterDigit, c :: cs =>
    if c = '_' then
      if afterDigit then readDigits base acc false cs else none
    else
      match digitValue? c with
      | some d => if d < base then readDigits base (acc * base + d) true cs else none
      | none => none

/-- A leading sign, as whether it is a minus, and the text after it. -/
def splitSign : List Char → Bool × List Char
  | '-' :: cs => (true, cs)
  | '+' :: cs => (false, cs)
  | cs => (false, cs)

/-- The letter that marks a base after a leading zero. -/
def baseMark? : Nat → Option (Char × Char)
  | 2 => some ('b', 'B')
  | 8 => some ('o', 'O')
  | 16 => some ('x', 'X')
  | _ => none

/-- The text after the mark of the base, and one underscore that may follow the mark. -/
def dropBaseMark (base : Nat) : List Char → List Char
  | '0' :: c :: cs =>
    match baseMark? base with
    | some (lower, upper) =>
      if c = lower ∨ c = upper then
        match cs with
        | '_' :: rest => rest
        | rest => rest
      else '0' :: c :: cs
    | none => '0' :: c :: cs
  | cs => cs

/-- The integer that a numeral in the base stands for. -/
def readInteger (base : Nat) (text : List Char) : Option Int :=
  let (negative, rest) := splitSign ((trimBy isMargin text).map foldDigit)
  (readDigits base 0 false (dropBaseMark base rest)).map fun n =>
    if negative then -(n : Int) else n

example : readInteger 8 "0640".toList = some 416 := by decide

end AccessPolicy.Text
