/-!
# Sorting

A stable insertion sort by a given comparison.
-/

namespace AccessPolicy.Sorted

/-- Puts a member in front of the first one that it may precede. -/
def insert {α : Type} (le : α → α → Bool) (a : α) : List α → List α
  | [] => [a]
  | b :: bs => if le a b then a :: b :: bs else b :: insert le a bs

/-- The members in ascending order; equal ones keep their order. -/
def sort {α : Type} (le : α → α → Bool) : List α → List α
  | [] => []
  | a :: as => insert le a (sort le as)

end AccessPolicy.Sorted
