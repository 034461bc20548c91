/-!
# Binary floating-point values

A value of the binary format with 64 bits, held as its bits so that equality is decidable
and exact arithmetic on it stays in the integers. A finite value is `± m · 2 ^ q`
(`Binary64.magnitude`); `Binary64.integer?` is the integer it stands for, if it stands for
one.
-/

namespace AccessPolicy

/-- A floating-point value, by its bits. -/
structure Binary64 where
  bits : UInt64
deriving DecidableEq, Repr

/-- A finite non-negative value `m · 2 ^ q`. -/
structure Magnitude where
  m : Nat
  q : Int
  /-- The gap to the value below is half the gap to the value above. -/
  narrowBelow : Bool
deriving DecidableEq, Repr

namespace Binary64

/-- The one not-a-number that documents hold. -/
def nan : Binary64 := ⟨0x7FF8000000000000⟩

def infinity : Binary64 := ⟨0x7FF0000000000000⟩

/-- The value with the sign bit turned. -/
def negate (x : Binary64) : Binary64 := ⟨x.bits ^^^ 0x8000000000000000⟩

def ofFloat (x : Float) : Binary64 :=
  if x.isNaN then nan else ⟨x.toBits⟩

def toFloat (x : Binary64) : Float := Float.ofBits x.bits

/-- The eleven bits of the exponent. -/
def exponentBits (x : Binary64) : Nat := ((x.bits >>> 52) &&& 0x7FF).toNat

/-- The fifty-two bits of the fraction. -/
def fractionBits (x : Binary64) : Nat := (x.bits &&& 0xFFFFFFFFFFFFF).toNat

def isNegative (x : Binary64) : Bool := x.bits >>> 63 != 0

def isNaN (x : Binary64) : Bool := x.exponentBits == 0x7FF && x.fractionBits != 0

def isInfinite (x : Binary64) : Bool := x.exponentBits == 0x7FF && x.fractionBits == 0

/-- Both zeros, whatever their sign. -/
def isZero (x : Binary64) : Bool := x.exponentBits == 0 && x.fractionBits == 0

/-- The absolute value of a finite value. -/
def magnitude (x : Binary64) : Magnitude :=
  let e := x.exponentBits
  let f := x.fractionBits
  if e == 0 then ⟨f, -1074, false⟩
  else ⟨0x10000000000000 + f, (e : Int) - 1075, f == 0 && e > 1⟩

/-- The integer that the value stands for, if it stands for one. -/
def integer? (x : Binary64) : Option Int :=
  if x.exponentBits == 0x7FF then none
  else
    let mag := x.magnitude
    let n : Option Nat :=
      if 0 ≤ mag.q then some (mag.m * Nat.pow 2 mag.q.toNat)
      else if mag.m % Nat.pow 2 (-mag.q).toNat == 0 then some (mag.m / Nat.pow 2 (-mag.q).toNat)
      else none
    n.map fun n => if x.isNegative then -(n : Int) else n

end Binary64

end AccessPolicy
