import AccessPolicy.Text.CodePoint
import AccessPolicy.Text.Ranges

/-!
# Blank characters

A character is blank if it separates words : the white space of Unicode 14 and the four
information separators U+001C to U+001F. `Text.isBlank` is the class, and `Text.isMargin`
the smaller one that numerals may be surrounded by.
-/

namespace AccessPolicy.Text

/-- The blank code points : 29 in all. -/
def blankRanges : Ranges :=
  [(0x9, 0xD), (0x1C, 0x20), (0x85, 0x85), (0xA0, 0xA0),
   (0x1680, 0x1680), (0x2000, 0x200A), (0x2028, 0x2029), (0x202F, 0x202F),
   (0x205F, 0x205F), (0x3000, 0x3000)]

example : blankRanges.count = 29 := by decide

/-- The character is white space or an information separator. -/
def isBlank (c : Char) : Bool :=
  blankRanges.contains c

/-- A numeral may stand between these : every blank but the information separators. -/
def isMargin (c : Char) : Bool :=
  isBlank c && !(0x1C ≤ c.toNat && c.toNat ≤ 0x1F)

/-- The text without the characters of the class at its two ends. -/
def trimBy (p : Char → Bool) (cs : List Char) : List Char :=
  ((cs.dropWhile p).reverse.dropWhile p).reverse

end AccessPolicy.Text

namespace AccessPolicy

/-- The code point is a blank character. -/
def CodePoint.isBlank : CodePoint → Bool
  | .char c => Text.isBlank c
  | .half _ => false

end AccessPolicy
