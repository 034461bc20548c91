import AccessPolicy.Text.Split
import AccessPolicy.Text.Numeral

/-!
# Addresses and address blocks

The texts that name a host or a block of hosts : an address of version 4 in dotted decimal,
or of version 6 in colon-separated hexadecimal with an optional zone after `%`, and behind a
slash the length of the block's common part. A version 4 block may give a mask in dotted
decimal instead. `Address.isBlock` decides the form; the address need not be the first of
its block.
-/

namespace AccessPolicy.Address

def isDigit (c : Char) : Bool := '0' ≤ c && c ≤ '9'

def isHexDigit (c : Char) : Bool :=
  isDigit c || ('a' ≤ c && c ≤ 'f') || ('A' ≤ c && c ≤ 'F')

/-- The value of a row of decimal digits. -/
def decimalValue (cs : List Char) : Nat :=
  cs.foldl (fun n c => n * 10 + (c.toNat - 48)) 0

/-- The most digits that a length is read from, with the zeros at its start. -/
def mostDigits : Nat := 4300

/-- The length of a block's common part, at most `limit`. -/
def isLength (limit : Nat) (cs : List Char) : Bool :=
  !cs.isEmpty && cs.length ≤ mostDigits && cs.all isDigit && decimalValue cs ≤ limit

/-! ## Version 4 -/

/-- One to three digits without a leading zero, at most 255. -/
def octet? (cs : List Char) : Option Nat :=
  if cs.isEmpty || !cs.all isDigit || 3 < cs.length then none
  else if cs.head? == some '0' && cs.length != 1 then none
  else if decimalValue cs ≤ 255 then some (decimalValue cs) else none

/-- The number that an address in dotted decimal stands for. -/
def dotted? (cs : List Char) : Option Nat :=
  match (Text.split '.' cs).map octet? with
  | [some a, some b, some c, some d] => some (((a * 256 + b) * 256 + c) * 256 + d)
  | _ => none

/-- Thirty-two bits of which the ones come first. -/
def isMask (n : Nat) : Bool :=
  (List.range 33).any fun zeros => n == 0x100000000 - Nat.pow 2 zeros

/-- A mask, or the complement of one, in dotted decimal. -/
def isDottedMask (cs : List Char) : Bool :=
  match dotted? cs with
  | some n => isMask n || isMask (0xFFFFFFFF - n)
  | none => false

/-! ## Version 6 -/

/-- One to four hexadecimal digits. -/
def isHextet (cs : List Char) : Bool :=
  !cs.isEmpty && cs.length ≤ 4 && cs.all isHexDigit

/-- The pieces between colons, with an address of version 4 at the end counted as two; none
where the end has a dot and is no such address. -/
def colonPieces? (cs : List Char) : Option (List (List Char)) :=
  let pieces := Text.split ':' cs
  let last := pieces.getLastD []
  if last.contains '.' then
    if (dotted? last).isSome then some (pieces.dropLast ++ [['0'], ['0']]) else none
  else some pieces

/-- The pieces on one side of the gap `::`. The side is a row of hextets, or only the empty
piece that the colon at the end of the text leaves. -/
def isSide : List (List Char) → Bool
  | [[]] => true
  | pieces => pieces.all isHextet

/-- How many hextets a side of the gap writes. -/
def sideLength : List (List Char) → Nat
  | [[]] => 0
  | pieces => pieces.length

/-- Eight hextets, or fewer around one gap. -/
def isColonPieces (pieces : List (List Char)) : Bool :=
  match ((pieces.drop 1).dropLast).findIdx? List.isEmpty with
  | none => pieces.length == 8 && pieces.all isHextet
  | some i =>
    let upper := pieces.take (i + 1)
    let lower := pieces.drop (i + 2)
    isSide upper && isSide lower && sideLength upper + sideLength lower ≤ 7

/-- An address in colon-separated hexadecimal. -/
def isColon (cs : List Char) : Bool :=
  3 ≤ (Text.split ':' cs).length &&
    match colonPieces? cs with
    | some pieces => pieces.length ≤ 9 && isColonPieces pieces
    | none => false

/-- An address of version 6 with an optional zone, which is not empty and has no `%`. -/
def isZoned (cs : List Char) : Bool :=
  match Text.split '%' cs with
  | [address] => isColon address
  | [address, zone] => isColon address && !zone.isEmpty
  | _ => false

/-! ## Blocks -/

/-- The text names an address or a block of addresses. -/
def isBlock (text : Text) : Bool :=
  match Text.split '/' text.chars with
  | [address] => (dotted? address).isSome || isZoned address
  | [address, size] =>
    ((dotted? address).isSome && (isLength 32 size || isDottedMask size)) ||
      (isZoned address && isLength 128 size)
  | _ => false

end AccessPolicy.Address
