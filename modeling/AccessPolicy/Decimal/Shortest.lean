import AccessPolicy.Decimal.Binary64
import AccessPolicy.Text.Numeral

/-!
# The shortest decimal of a floating-point value

A floating-point value stands for an interval of reals, those that round to it. Its text is
the decimal with the fewest digits in that interval, of those the closest to the value, and
on a tie the even one. `Magnitude.readsBack` decides membership in exact arithmetic,
`Magnitude.shortest` searches the grids of one digit, two digits and so on, and
`Binary64.text` lays the digits out.
-/

namespace AccessPolicy

/-- The value `digits · 10 ^ exponent`. -/
structure Decimal where
  digits : Nat
  exponent : Int
deriving DecidableEq, Repr

namespace Magnitude

/-- Compares `a · 10 ^ i` with `n · 2 ^ j`. -/
def compareScaled (a : Nat) (i : Int) (n : Nat) (j : Int) : Ordering :=
  compare (a * Nat.pow 10 i.toNat * Nat.pow 2 (-j).toNat)
    (n * Nat.pow 2 j.toNat * Nat.pow 10 (-i).toNat)

/-- The decimal lies among the reals that round to the value : nearest, ties to even. -/
def readsBack (x : Magnitude) (d : Decimal) : Bool :=
  let lo := if x.narrowBelow then 4 * x.m - 1 else 4 * x.m - 2
  let below := compareScaled d.digits d.exponent lo (x.q - 2)
  let above := compareScaled d.digits d.exponent (4 * x.m + 2) (x.q - 2)
  let closed := x.m % 2 == 0
  (below == .gt || (closed && below == .eq)) && (above == .lt || (closed && above == .eq))

/-- The least `k` such that the value is below `10 ^ k`; the value is not zero. -/
def scale (x : Magnitude) : Int :=
  let estimate := ((x.m.log2 : Int) + x.q) * 30103 / 100000
  let candidates := [estimate - 1, estimate, estimate + 1, estimate + 2]
  (candidates.find? fun k => compareScaled 1 k x.m x.q == .gt).getD (estimate + 3)

/-- The largest point of the grid of step `10 ^ e` that is not above the value. -/
def floorOn (x : Magnitude) (e : Int) : Nat :=
  (x.m * Nat.pow 2 x.q.toNat * Nat.pow 10 (-e).toNat) /
    (Nat.pow 2 (-x.q).toNat * Nat.pow 10 e.toNat)

/-- The upper of two neighbouring grid points is the better one : it is closer, or as close
and even. -/
def upperIsBetter (x : Magnitude) (lower : Nat) (e : Int) : Bool :=
  match compareScaled (2 * lower + 1) e (2 * x.m) x.q with
  | .lt => true
  | .gt => false
  | .eq => lower % 2 == 1

/-- The decimal on the grid of step `10 ^ e` that stands for the value, if one does. -/
def onGrid (x : Magnitude) (e : Int) : Option Decimal :=
  let lower := x.floorOn e
  let fitsLower := lower != 0 && x.readsBack ⟨lower, e⟩
  let fitsUpper := x.readsBack ⟨lower + 1, e⟩
  match fitsLower, fitsUpper with
  | true, true => some (if x.upperIsBetter lower e then ⟨lower + 1, e⟩ else ⟨lower, e⟩)
  | true, false => some ⟨lower, e⟩
  | false, true => some ⟨lower + 1, e⟩
  | false, false => none

/-- The value itself as a decimal. -/
def exactDecimal (x : Magnitude) : Decimal :=
  ⟨x.m * Nat.pow 2 x.q.toNat * Nat.pow 5 (-x.q).toNat, min x.q 0⟩

/-- The decimal of fewest digits that stands for a value other than zero. -/
def shortest (x : Magnitude) : Decimal :=
  let k := x.scale
  ((List.range 17).findSome? fun (n : Nat) => x.onGrid (k - (n + 1 : Nat))).getD x.exactDecimal

end Magnitude

/-- The digits of a decimal without trailing zeros. -/
def Decimal.significant (d : Decimal) : List Char :=
  ((toString d.digits).toList.reverse.dropWhile (· == '0')).reverse

/-- How many digits stand before the point when the decimal is written out. -/
def Decimal.point (d : Decimal) : Int :=
  ((toString d.digits).length : Int) + d.exponent

/-- Digits with the point behind the first `point` of them, zeros filled in, and at least
one digit on each side. -/
def Decimal.positional (digits : List Char) (point : Int) : List Char :=
  if point ≤ 0 then
    '0' :: '.' :: (List.replicate (-point).toNat '0' ++ digits)
  else if digits.length ≤ point.toNat then
    digits ++ List.replicate (point.toNat - digits.length) '0' ++ ['.', '0']
  else
    digits.take point.toNat ++ '.' :: digits.drop point.toNat

/-- Digits with the point behind the first, and the power of ten with a sign and at least
two digits. -/
def Decimal.scientific (digits : List Char) (point : Int) : List Char :=
  let e := point - 1
  let mantissa := match digits with
    | [] => []
    | [d] => [d]
    | d :: ds => d :: '.' :: ds
  mantissa ++ 'e' :: (if e < 0 then '-' else '+') :: (Text.padded 2 e.natAbs).toList

/-- The text of a floating-point value : positional from `1e-04` to below `1e+16`, with an
exponent elsewhere. -/
def Binary64.text (x : Binary64) : String :=
  if x.isNaN then "nan"
  else
    let sign := if x.isNegative then ['-'] else []
    let digits :=
      if x.isInfinite then "inf".toList
      else if x.isZero then "0.0".toList
      else
        let d := x.magnitude.shortest
        if -4 < d.point && d.point ≤ 16 then Decimal.positional d.significant d.point
        else Decimal.scientific d.significant d.point
    String.ofList (sign ++ digits)

end AccessPolicy
