/-!
# Code points

A `Text` is a list of code points. A code point is a character, or one of the halves of
which UTF-16 puts two together for a character beyond U+FFFF. Escapes may name halves, and
two halves that come one after the other stay two code points.

`Text.chars` reads a text by its characters, `Text.string?` is the string that a text
without halves is, and `Text.unicode` puts pairs of halves together.
-/

namespace AccessPolicy

/-- A character, or a half by its distance from U+D800. -/
inductive CodePoint where
  | char (c : Char)
  | half (n : Fin 0x800)
deriving DecidableEq, Repr

abbrev Text := List CodePoint

instance : Coe Char CodePoint := ⟨.char⟩

namespace CodePoint

/-- The number of a code point. -/
def toNat : CodePoint → Nat
  | .char c => c.toNat
  | .half n => 0xD800 + n

/-- The code point of a number. -/
def ofNat (n : Nat) : CodePoint :=
  if h : 0xD800 ≤ n ∧ n < 0xE000 then .half ⟨n - 0xD800, by omega⟩ else .char (Char.ofNat n)

/-- The character of a code point; a half reads as the replacement character. -/
def character : CodePoint → Char
  | .char c => c
  | .half _ => '\uFFFD'

/-- The character, unless the code point is a half. -/
def char? : CodePoint → Option Char
  | .char c => some c
  | .half _ => none

end CodePoint

namespace Text

/-- The text of characters. -/
def ofChars (cs : List Char) : Text :=
  cs.map .char

/-- The text of a string. -/
def ofString (s : String) : Text :=
  ofChars s.toList

instance : Coe String Text := ⟨ofString⟩

/-- The text read by its characters. -/
def chars (t : Text) : List Char :=
  t.map CodePoint.character

/-- The string that the text is, if it holds no half. -/
def string? (t : Text) : Option String :=
  (t.mapM CodePoint.char?).map String.ofList

/-- The character that two halves write, if they are a first and a second half. -/
def paired? : CodePoint → CodePoint → Option Char
  | .half a, .half b =>
    if a < 0x400 ∧ 0x400 ≤ b then
      some (Char.ofNat (0x10000 + a * 0x400 + (b - 0x400 : Nat)))
    else none
  | _, _ => none

/-- The characters of the text, with pairs of halves put together. -/
def joinHalves : Text → List Char
  | [] => []
  | [a] => [a.character]
  | a :: b :: rest =>
    match paired? a b with
    | some c => c :: joinHalves rest
    | none => a.character :: joinHalves (b :: rest)

/-- The text as a string, with pairs of halves put together. -/
def unicode (t : Text) : String :=
  String.ofList (joinHalves t)

/-- The order of texts by the numbers of their code points. -/
def le : Text → Text → Bool
  | [], _ => true
  | _ :: _, [] => false
  | a :: as, b :: bs => a.toNat < b.toNat || (a.toNat == b.toNat && le as bs)

theorem chars_ofChars (cs : List Char) : chars (ofChars cs) = cs := by
  simp [chars, ofChars, Function.comp_def, CodePoint.character]

end Text

end AccessPolicy
