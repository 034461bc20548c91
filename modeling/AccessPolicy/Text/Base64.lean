/-!
# Base 64

Bytes written with six bits to a character. `Base64.decode` passes over characters outside
the alphabet. The padding ends the text once a group is complete; a group that is left
incomplete at the end is an error.
-/

namespace AccessPolicy.Base64

/-- The six bits that a character stands for. -/
def sextet? (c : Char) : Option Nat :=
  if 'A' ≤ c ∧ c ≤ 'Z' then some (c.toNat - 65)
  else if 'a' ≤ c ∧ c ≤ 'z' then some (c.toNat - 71)
  else if '0' ≤ c ∧ c ≤ '9' then some (c.toNat + 4)
  else if c = '+' then some 62
  else if c = '/' then some 63
  else none

/-- Decodes from inside a group of four characters. `place` characters of the group were
read, `bits` are those not yet part of a byte, and `pads` pads came since the last of
them. -/
def decodeFrom : (place bits pads : Nat) → List Char → Option (List UInt8)
  | 0, _, _, [] => some []
  | _ + 1, _, _, [] => none
  | place, bits, pads, c :: cs =>
    if c = '=' then
      if 2 ≤ place ∧ 4 ≤ place + pads + 1 then some []
      else decodeFrom place bits (if 2 ≤ place then pads + 1 else pads) cs
    else
      match sextet? c with
      | none => decodeFrom place bits pads cs
      | some x =>
        match place with
        | 0 => decodeFrom 1 x 0 cs
        | 1 => (decodeFrom 2 (x % 16) 0 cs).map (UInt8.ofNat (bits * 4 + x / 16) :: ·)
        | 2 => (decodeFrom 3 (x % 4) 0 cs).map (UInt8.ofNat (bits * 16 + x / 4) :: ·)
        | _ => (decodeFrom 0 0 0 cs).map (UInt8.ofNat (bits * 64 + x) :: ·)

/-- The bytes that a text stands for. -/
def decode (text : List Char) : Option (List UInt8) :=
  decodeFrom 0 0 0 text

example : decode "aGk=".toList = some [104, 105] := by decide

end AccessPolicy.Base64
