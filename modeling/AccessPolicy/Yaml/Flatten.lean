import AccessPolicy.Yaml.Node

/-!
# Merged mappings

A mapping may name mappings to be merged into it. `Graph.flatten` puts their entries before
its own, so that its own values win, and of several merged mappings the first one wins.

A merge changes the graph : the entry that named the merged mappings is gone, wherever the
mapping is referred to, and the mappings that were merged are flattened themselves. A key
that would stand for its mapping is an ordinary text from then on.
-/

namespace AccessPolicy.Yaml

namespace Graph

/-- The node that the first merging entry of a list names, and the other entries. -/
def splitMerge (g : Graph) : List (Nat × Nat) → Option (Nat × List (Nat × Nat))
  | [] => none
  | e :: es =>
    if g.tag e.1 = .merge then some (e.2, es)
    else (g.splitMerge es).map fun (v, rest) => (v, e :: rest)

/-- The graph in which the keys are ordinary texts where they stood for their mapping. -/
def settleKeys (g : Graph) (es : List (Nat × Nat)) : Graph :=
  es.foldl (fun g e => if g.tag e.1 = .value then g.setTag e.1 .text else g) g

/-- The entries of a list of nodes one by one, each flattened by `f`. -/
def flattenEach (f : Nat → Graph → Except Problem Graph) :
    List Nat → Graph → Except Problem (List (List (Nat × Nat)) × Graph)
  | [], g => .ok ([], g)
  | n :: ns, g =>
    match g.content n with
    | .mapping _ => do
      let g ← f n g
      let es := g.entries n
      let (more, g) ← flattenEach f ns g
      return (es :: more, g)
    | _ => .error .malformed

/-- The mappings to be merged that a node names, the last one first. -/
def mergedNodes (g : Graph) (n : Nat) : Except Problem (List Nat) :=
  match g.content n with
  | .mapping _ => .ok [n]
  | .sequence items => .ok items
  | .scalar _ => .error .malformed

/-- Merges into a mapping what its merging entries name, after `merged`, which was merged into
it before. The fuel bounds the number of merging entries. -/
def flattenFrom : (fuel : Nat) → (merged : List (Nat × Nat)) → (n : Nat) → Graph →
    Except Problem Graph
  | 0, _, _, _ => .error .malformed
  | fuel + 1, merged, n, g =>
    let es := g.entries n
    match g.splitMerge es with
    | none =>
      let g := g.settleKeys es
      .ok (if merged.isEmpty then g else g.setContent n (.mapping (merged ++ es)))
    | some (source, rest) => do
      let g := g.setContent n (.mapping rest)
      let (lists, g) ← flattenEach (flattenFrom fuel []) (← g.mergedNodes source) g
      flattenFrom fuel (merged ++ lists.reverse.flatten) n g

/-- How many entries all mappings have together. -/
def entryCount (g : Graph) : Nat :=
  (List.range g.size).foldl (fun count n => count + (g.entries n).length) 0

/-- Merges into a mapping what its entries name. The fuel bounds the number of merging
entries. -/
def flatten (fuel n : Nat) (g : Graph) : Except Problem Graph :=
  flattenFrom fuel [] n g

end Graph

end AccessPolicy.Yaml
