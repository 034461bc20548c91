import AccessPolicy.Decimal.Reader
import AccessPolicy.Text.Base64
import AccessPolicy.Text.Split
import AccessPolicy.Yaml.Tag
import AccessPolicy.Yaml.Timestamp

/-!
# Scalars

What kind of value a text without quotes is taken for (`recognise`), and the value of a
text of a given kind (`readScalar`).

Integers are written in decimal, octal after a zero, binary, hexadecimal, or in base sixty
with colons; underscores may stand anywhere after the first digit. A floating-point number
needs a point, and a sign in its exponent. A text that is marked as of a kind is read by
looser rules, and may turn out not to be readable.
-/

namespace AccessPolicy.Yaml

/-! ## Recognition -/

/-- A digit or an underscore. -/
def isDigitPart (c : Char) : Bool :=
  c.isDigit || c = '_'

/-- The text after a sign, if there is one. -/
def dropSign : List Char → List Char
  | c :: cs => if c = '+' ∨ c = '-' then cs else c :: cs
  | [] => []

/-- A digit of the class, and digits and underscores after it. -/
def isWholeNumber (first : Char → Bool) : List Char → Bool
  | c :: cs => first c && cs.all isDigitPart
  | [] => false

/-- The numbers after the first in base sixty : below sixty, in one or two digits. -/
def isSixtieth : List Char → Bool
  | [c] => c.isDigit
  | [c, d] => '0' ≤ c && c ≤ '5' && d.isDigit
  | _ => false

/-- A number in base sixty : numbers with colons between them. -/
def isBaseSixty (first : Char → Bool) (cs : List Char) : Bool :=
  match Text.split ':' cs with
  | whole :: part :: parts => isWholeNumber first whole && (part :: parts).all isSixtieth
  | _ => false

/-- An exponent with a sign, or nothing. -/
def isExponent : List Char → Bool
  | [] => true
  | e :: sign :: digits =>
    (e = 'e' || e = 'E') && (sign = '+' || sign = '-') && !digits.isEmpty && digits.all Char.isDigit
  | _ => false

def isFloat (cs : List Char) : Bool :=
  let body := dropSign cs
  let (whole, tail) := body.span (· != '.')
  let afterPoint := tail.drop 1
  let withPoint :=
    if whole.isEmpty then
      cs.head? = some '.' && afterPoint.head?.any Char.isDigit &&
        isExponent (afterPoint.dropWhile isDigitPart)
    else
      !tail.isEmpty && isWholeNumber Char.isDigit whole &&
        isExponent (afterPoint.dropWhile isDigitPart)
  withPoint ||
    (!tail.isEmpty && isBaseSixty Char.isDigit whole && afterPoint.all isDigitPart) ||
    [".inf", ".Inf", ".INF"].contains (String.ofList body) ||
    [".nan", ".NaN", ".NAN"].contains (String.ofList cs)

/-- The digits are not missing, and all are in the class or underscores. -/
def isDigitRun (p : Char → Bool) (cs : List Char) : Bool :=
  !cs.isEmpty && cs.all fun c => p c || c = '_'

def isInteger (cs : List Char) : Bool :=
  match dropSign cs with
  | ['0'] => true
  | '0' :: 'b' :: digits => isDigitRun (fun c => c = '0' || c = '1') digits
  | '0' :: 'x' :: digits => isDigitRun (fun c => (hexValue? c).isSome) digits
  | '0' :: digits => isDigitRun (fun c => '0' ≤ c && c ≤ '7') digits
  | body =>
    let nonzero (c : Char) : Bool := c.isDigit && c != '0'
    isWholeNumber nonzero body || isBaseSixty nonzero body

/-- The words that stand for truth values, in lower case. -/
def truthValues : List (String × Bool) := [
  ("yes", true), ("no", false), ("true", true), ("false", false), ("on", true), ("off", false)]

/-- The three ways to write a word : in lower case, capitalised and in upper case. -/
def isSpelling (written word : List Char) : Bool :=
  written = word || written = (word.take 1).map Char.toUpper ++ word.drop 1 ||
    written = word.map Char.toUpper

/-- The text without a line feed at its end. -/
def withoutLineFeed (cs : List Char) : List Char :=
  if cs.getLast? = some '\n' then cs.dropLast else cs

/-- The kind that a text is taken for. A line feed at its end does not count, but a text that
is nothing else is no empty text. -/
def recognise (text : Text) : Tag :=
  let cs := withoutLineFeed text.chars
  let word := String.ofList cs
  if truthValues.any fun e => isSpelling cs e.1.toList then .bool
  else if isFloat cs then .float
  else if isInteger cs then .int
  else if word = "<<" then .merge
  else if word = "~" || text.isEmpty || isSpelling cs "null".toList then .null
  else if Timestamp.isTimestamp cs then .timestamp
  else if word = "=" then .value
  else if ["!", "&", "*"].contains word then .unknown
  else .text

/-! ## Values -/

def badNumeral {α : Type} : Except Problem α :=
  .error (.fault .badNumeral)

/-- The most decimal digits that an integer is read from. -/
def mostDigits : Nat := 4300

/-- The integer that a numeral in the base stands for. -/
def readNumeral (base : Nat) (cs : List Char) : Except Problem Int :=
  if base = 10 ∧ mostDigits < (cs.filter fun c => (Text.digit? c).isSome).length then badNumeral
  else
    match Text.readInteger base cs with
    | some n => .ok n
    | none => badNumeral

/-- The magnitude of an integer, from a text without sign and underscores. -/
def readMagnitude (cs : List Char) : Except Problem Int :=
  match cs with
  | [] => .error (.fault .emptyNumeral)
  | ['0'] => .ok 0
  | '0' :: 'b' :: digits => readNumeral 2 digits
  | '0' :: 'x' :: digits => readNumeral 16 digits
  | '0' :: digits => readNumeral 8 ('0' :: digits)
  | cs =>
    if cs.contains ':' then do
      let parts ← (Text.split ':' cs).mapM (readNumeral 10)
      return parts.foldl (fun n part => n * 60 + part) 0
    else readNumeral 10 cs

/-- A text without its underscores, and whether it starts with a minus, and what is after
its sign. An empty text is no numeral. -/
def signed (cs : List Char) : Except Problem (Bool × List Char) :=
  match cs.filter (· != '_') with
  | [] => .error (.fault .emptyNumeral)
  | cs => .ok (cs.head? = some '-', dropSign cs)

def readInt (cs : List Char) : Except Problem Int := do
  let (negative, body) ← signed cs
  let n ← readMagnitude body
  return if negative then -n else n

/-- The floating-point value of a numeral. -/
def readBinary (cs : List Char) : Except Problem Float :=
  match Binary64.read cs with
  | some x => .ok x.toFloat
  | none => badNumeral

/-- The sum of parts by powers of sixty, the last part first. -/
def sumSixties : (power : Nat) → (sum : Float) → List Float → Float
  | _, sum, [] => sum
  | power, sum, part :: parts =>
    sumSixties (power + 1) (sum + part * Float.ofScientific (Nat.pow 60 power) false 0) parts

/-- How many parts a number in base sixty may have for its powers to be floating-point
values. -/
def mostSixties : Nat := 174

/-- The floating-point value of a text without sign and underscores, in lower case. -/
def readFloatMagnitude (cs : List Char) : Except Problem Binary64 :=
  let word := String.ofList cs
  if word = ".inf" then .ok Binary64.infinity
  else if word = ".nan" then .ok Binary64.nan
  else if cs.contains ':' then do
    let parts ← (Text.split ':' cs).mapM readBinary
    if mostSixties < parts.length then .error (.fault .overflow)
    else return Binary64.ofFloat (sumSixties 0 0 parts.reverse)
  else return Binary64.ofFloat (← readBinary cs)

def readFloat (cs : List Char) : Except Problem Binary64 := do
  let (negative, body) ← signed (cs.map Char.toLower)
  let x ← readFloatMagnitude body
  return if negative && !x.isNaN then x.negate else x

/-- The text is the word for not-a-number, with a sign or without. -/
def isNaNWord (text : Text) : Bool :=
  match signed (text.chars.map Char.toLower) with
  | .ok (_, body) => body = ".nan".toList
  | .error _ => false

def readBool (cs : List Char) : Except Problem Bool :=
  match truthValues.find? fun e => e.1.toList = cs.map Char.toLower with
  | some (_, b) => .ok b
  | none => .error (.fault .badTruthValue)

def readBytes (cs : List Char) : Except Problem (List UInt8) :=
  match if cs.all fun c => c.toNat < 0x80 then Base64.decode cs else none with
  | some bytes => .ok bytes
  | none => .error .malformed

def readTimestamp (cs : List Char) : Except Problem Scalar :=
  match Timestamp.ofText? (withoutLineFeed cs) with
  | some t => t.scalar
  | none => .error (.fault .badDate)

/-- The value of a text of a kind. Kinds of collections have none. -/
def readScalar (tag : Tag) (text : Text) : Except Problem Scalar :=
  let cs := text.chars
  match tag with
  | .null => .ok .null
  | .bool => (readBool cs).map .bool
  | .int => (readInt cs).map .int
  | .float => (readFloat cs).map .float
  | .binary => (readBytes cs).map .bytes
  | .timestamp => readTimestamp cs
  | .text => .ok (.text text)
  | _ => .error .malformed

end AccessPolicy.Yaml
