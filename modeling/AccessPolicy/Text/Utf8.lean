/-!
# UTF-8 with a diagnosis

`Utf8.decode` reads bytes as UTF-8 text. Well-formed bytes give the text they encode; any
others give a `Utf8.Defect`, which says where the first ill-formed sequence stands, how
long it is and why it is refused.
-/

namespace AccessPolicy.Utf8

/-- Why a byte sequence is no character. -/
inductive Reason where
  /-- No character starts with this byte. -/
  | invalidStart
  /-- A byte that has to continue the character does not. -/
  | invalidContinuation
  /-- The text ends inside a character. -/
  | unexpectedEnd
deriving DecidableEq, Repr

/-- The first ill-formed sequence of a byte text. -/
structure Defect where
  /-- Where the sequence starts. -/
  position : Nat
  /-- How many bytes it has. -/
  length : Nat
  /-- The byte at its start. -/
  first : UInt8
  reason : Reason
deriving DecidableEq, Repr

/-- The byte values that may follow a leading byte, and how many bytes follow in all; none
where no character of more than one byte starts so. -/
def leading? (b : UInt8) : Option (Nat × Nat × Nat) :=
  let n := b.toNat
  if 0xC2 ≤ n ∧ n ≤ 0xDF then some (1, 0x80, 0xBF)
  else if n = 0xE0 then some (2, 0xA0, 0xBF)
  else if n = 0xED then some (2, 0x80, 0x9F)
  else if 0xE1 ≤ n ∧ n ≤ 0xEF then some (2, 0x80, 0xBF)
  else if n = 0xF0 then some (3, 0x90, 0xBF)
  else if n = 0xF4 then some (3, 0x80, 0x8F)
  else if 0xF1 ≤ n ∧ n ≤ 0xF3 then some (3, 0x80, 0xBF)
  else none

/-- Whether `count` continuation bytes follow, of which the first lies in `lo..hi` : how
many do, and the reason if they do not suffice. -/
def continuation : (count lo hi : Nat) → List UInt8 → Nat × Option Reason
  | 0, _, _, _ => (0, none)
  | _ + 1, _, _, [] => (0, some .unexpectedEnd)
  | count + 1, lo, hi, b :: bs =>
    if lo ≤ b.toNat ∧ b.toNat ≤ hi then
      let (n, reason) := continuation count 0x80 0xBF bs
      (n + 1, reason)
    else (0, some .invalidContinuation)

/-- The first ill-formed sequence of `bytes`, which stand at `position`. The fuel bounds
the number of characters. -/
def defectFrom : (fuel position : Nat) → List UInt8 → Option Defect
  | 0, _, _ => none
  | _ + 1, _, [] => none
  | fuel + 1, position, b :: bs =>
    if b.toNat < 0x80 then defectFrom fuel (position + 1) bs
    else match leading? b with
      | none => some ⟨position, 1, b, .invalidStart⟩
      | some (count, lo, hi) =>
        match continuation count lo hi bs with
        | (n, some reason) => some ⟨position, n + 1, b, reason⟩
        | (n, none) => defectFrom fuel (position + n + 1) (bs.drop n)

/-- The defect that bytes which are no UTF-8 text have. -/
def defect (bytes : List UInt8) : Defect :=
  (defectFrom bytes.length 0 bytes).getD ⟨0, 1, 0, .invalidStart⟩

/-- The text that the bytes encode, or the first defect. -/
def decode (bytes : List UInt8) : Except Defect String :=
  match String.fromUTF8? (ByteArray.mk bytes.toArray) with
  | some text => .ok text
  | none => .error (defect bytes)

/-- The UTF-8 bytes of a text. -/
def encode (text : String) : List UInt8 :=
  text.toList.flatMap String.utf8EncodeChar

end AccessPolicy.Utf8
