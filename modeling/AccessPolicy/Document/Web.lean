import AccessPolicy.Document.Key

/-!
# Webs

A value that contains itself has no finite form as a tree. It is held as a place in a
`Web` : a list of cells, each of which is one layer of a value (`Shape`) and names the
places of its members. Every value that is written as text with anchors in it is some place
of a web, whether it contains itself or not.
-/

namespace AccessPolicy

/-- One layer of a value, with members of a given type. -/
inductive Shape (α : Type) where
  | scalar (s : Scalar)
  | sequence (items : List α)
  | tuple (items : List α)
  | mapping (entries : List (Key × α))
  | set (members : List Key)

namespace Shape

/-- The layer with every member replaced. -/
def map {α β : Type} (f : α → β) : Shape α → Shape β
  | .scalar s => .scalar s
  | .sequence items => .sequence (items.map f)
  | .tuple items => .tuple (items.map f)
  | .mapping es => .mapping (es.map fun e => (e.1, f e.2))
  | .set ks => .set ks

/-- The layer with every member replaced, from first to last. -/
def mapM {m : Type → Type} [Monad m] {α β : Type} (f : α → m β) : Shape α → m (Shape β)
  | .scalar s => return .scalar s
  | .sequence items => return .sequence (← items.mapM f)
  | .tuple items => return .tuple (← items.mapM f)
  | .mapping es => return .mapping (← es.mapM fun e => do return (e.1, ← f e.2))
  | .set ks => return .set ks

/-- The members, apart from keys. -/
def members {α : Type} : Shape α → List α
  | .scalar _ => []
  | .sequence items => items
  | .tuple items => items
  | .mapping es => es.map (·.2)
  | .set _ => []

/-- The keys. -/
def keys {α : Type} : Shape α → List Key
  | .scalar s => [.scalar s]
  | .mapping es => es.map (·.1)
  | .set ks => ks
  | _ => []

end Shape

/-- Values whose members are places among them. -/
structure Web where
  cells : Array (Shape Nat)

namespace Web

/-- The layer at a place. -/
def cell (w : Web) (place : Nat) : Shape Nat :=
  (w.cells[place]?).getD (.scalar .null)

/-- How often a walk along all members of all cells can go on. -/
def span (w : Web) : Nat :=
  w.cells.foldl (fun n c => n + c.members.length) (w.cells.size + 1)

/-- The places seen so far and those that can be reached from the places to be visited. The
fuel bounds the number of visits. -/
def reachFrom (w : Web) : (fuel : Nat) → (seen todo : List Nat) → List Nat
  | 0, seen, _ => seen
  | _ + 1, seen, [] => seen
  | fuel + 1, seen, place :: todo =>
    if seen.contains place then w.reachFrom fuel seen todo
    else w.reachFrom fuel (place :: seen) ((w.cell place).members ++ todo)

/-- The places that can be reached from a place, with the place itself. -/
def reach (w : Web) (place : Nat) : List Nat :=
  w.reachFrom (w.span + 1) [] [place]

/-- All scalars and keys that can be reached from a place. -/
def scalars (w : Web) (place : Nat) : List Key :=
  (w.reach place).flatMap fun p => (w.cell p).keys

end Web

end AccessPolicy
