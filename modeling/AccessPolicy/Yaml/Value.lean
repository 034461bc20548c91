import AccessPolicy.Document.Slots
import AccessPolicy.Document.View
import AccessPolicy.Yaml.Flatten
import AccessPolicy.Yaml.Grammar

/-!
# From nodes to documents

`Outline.document` makes the value of a node. Every node gets one value, a cell of a web,
however often it is referred to. Scalars are made when they are met; a collection is begun
empty and filled after all those begun before it, level by level, so of several problems
the one on the least level is met first. A collection that is not filled yet can be a
member, also of itself, but not a key.

Not every node has a value : a scalar may not be readable as its kind, a collection may be of
a kind that it cannot be, and a key may be no scalar.
-/

namespace AccessPolicy.Yaml

/-- What was made so far. -/
structure Making where
  graph : Graph
  /-- How many entries the graph had at first, which bounds the merging ones. -/
  entryCount : Nat
  cells : Array (Shape Nat) := #[]
  /-- The places of the values of nodes. -/
  places : Array (Option Nat)
  /-- The collections to be filled, by node and place, the last one first. -/
  waiting : List (Nat × Nat) := []
  /-- The place of the value of every word for not-a-number. -/
  notANumber : Option Nat := none

abbrev Maker := StateT Making (Except Problem)

namespace Maker

/-- The place of a new cell. -/
def newCell (s : Shape Nat) : Maker Nat :=
  modifyGet fun m => (m.cells.size, { m with cells := m.cells.push s })

/-- The place of a collection that is begun. -/
def beginCollection (n : Nat) (s : Shape Nat) : Maker Nat := do
  let place ← newCell s
  modify fun m => { m with waiting := (n, place) :: m.waiting }
  return place

/-- The place of the value of a scalar. A mapping has no date even where its text is one. -/
def makeScalar (tag : Tag) (n : Nat) : Maker Nat := do
  let m ← get
  let text ← m.graph.text n
  match m.graph.content n, tag with
  | .mapping _, .timestamp => throw (.fault .noPattern)
  | _, _ =>
    let s ← readScalar tag text
    if tag = .float && isNaNWord text then
      match m.notANumber with
      | some place => return place
      | none =>
        let place ← newCell (.scalar s)
        modify fun m => { m with notANumber := some place }
        return place
    else newCell (.scalar s)

/-- The place of the value of a node whose value is not begun. -/
def beginValue (n : Nat) : Maker Nat := do
  match (← get).graph.tag n with
  | .sequence => beginCollection n (.sequence [])
  | .orderedMap => beginCollection n (.sequence [])
  | .pairs => beginCollection n (.sequence [])
  | .mapping => beginCollection n (.mapping [])
  | .set => beginCollection n (.set [])
  | .merge => throw .malformed
  | .value => throw .malformed
  | .unknown => throw .malformed
  | tag => makeScalar tag n

/-- The place of the value of a node. -/
def value (n : Nat) : Maker Nat := do
  match (← get).places[n]?.join with
  | some place => return place
  | none =>
    let place ← beginValue n
    modify fun m => { m with places := m.places.setIfInBounds n (some place) }
    return place

/-! ## Collections -/

/-- A key and the place of its value, by which values that are no one's equal are told
apart. -/
structure PlacedKey where
  key : Key
  place : Nat

/-- The keys are one value, or stand for the same one. -/
def PlacedKey.same (a b : PlacedKey) : Bool :=
  a.place == b.place || a.key.same b.key

/-- Sets the value of an entry. -/
def setEntry (k : PlacedKey) (v : Nat) : List (PlacedKey × Nat) → List (PlacedKey × Nat)
  | [] => [(k, v)]
  | (k', v') :: es => if k.same k' then (k', v) :: es else (k', v') :: setEntry k v es

/-- The key that the value of a node is. -/
def key (n : Nat) : Maker PlacedKey := do
  let place ← value n
  match (← get).cells[place]? with
  | some (.scalar s) => return ⟨.scalar s, place⟩
  | _ => throw .malformed

/-- The entries of a mapping, with what is merged into it. -/
def entries (n : Nat) : Maker (List (Key × Nat)) := do
  match (← get).graph.content n with
  | .mapping _ =>
    let m ← get
    let g ← Graph.flatten (m.entryCount + 1) n m.graph
    modify fun m => { m with graph := g }
    let es ← (g.entries n).foldlM (fun es e => do
      let k ← key e.1
      let v ← value e.2
      return setEntry k v es) []
    return es.map fun e => (e.1.key, e.2)
  | _ => throw .malformed

/-- The items of a sequence. -/
def items (n : Nat) : Maker (List Nat) := do
  match (← get).graph.content n with
  | .sequence items => return items
  | _ => throw .malformed

/-- The pair that a mapping with a single entry stands for. -/
def pair (n : Nat) : Maker Nat := do
  match (← get).graph.content n with
  | .mapping [(k, v)] => newCell (.tuple [← value k, ← value v])
  | _ => throw .malformed

/-- Fills a collection. -/
def fill (n place : Nat) : Maker Unit := do
  let shape : Shape Nat ← match (← get).graph.tag n with
    | .sequence => .sequence <$> (← items n).mapM value
    | .mapping => .mapping <$> entries n
    | .set => pure (.set (Slots.ofKeys ((← entries n).map (·.1))))
    | _ => .sequence <$> (← items n).mapM pair
  modify fun m => { m with cells := m.cells.setIfInBounds place shape }

/-- Fills the collections that wait, and those that are begun while they are filled. The fuel
bounds the number of levels. -/
def fillAll : (fuel : Nat) → Maker Unit
  | 0 => return ()
  | fuel + 1 => do
    match (← get).waiting.reverse with
    | [] => return ()
    | level =>
      modify fun m => { m with waiting := [] }
      level.forM fun e => fill e.1 e.2
      fillAll fuel

/-- The place of the value of a node, with all that belongs to it. -/
def whole (n : Nat) : Maker Nat := do
  let place ← value n
  fillAll ((← get).graph.size + 1)
  return place

end Maker

/-- What was made, as a web. -/
def Making.web (m : Making) : Web :=
  ⟨m.cells⟩

/-- Nothing is made of the outline yet. -/
def Outline.start (o : Outline) : Making where
  graph := o.graph
  entryCount := o.graph.entryCount
  places := Array.replicate o.graph.size none

/-- The place of the value of the first node, and what was made for it. -/
def Outline.made (o : Outline) : Except Problem (Nat × Making) :=
  (Maker.whole o.root).run o.start

/-- The document that an outline stands for. -/
def Outline.document (o : Outline) : Except Problem Document := do
  let (place, m) ← o.made
  return m.web.document place

end AccessPolicy.Yaml
