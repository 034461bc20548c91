/-!
# Ranges of code points

A character class is a list of closed ranges of code points. `Ranges.contains` is
membership, and `Ranges.count` the number of code points of a list whose ranges lie apart.
-/

namespace AccessPolicy

/-- Closed ranges of code points, ascending and apart. -/
abbrev Ranges := List (Nat × Nat)

namespace Ranges

/-- The character lies in one of the ranges. -/
def contains (rs : Ranges) (c : Char) : Bool :=
  rs.any fun r => r.1 ≤ c.toNat && c.toNat ≤ r.2

/-- How many code points the ranges hold together. -/
def count (rs : Ranges) : Nat :=
  rs.foldl (fun n r => n + (r.2 + 1 - r.1)) 0

end Ranges

end AccessPolicy
