import AccessPolicy.Document.Basic
import AccessPolicy.Document.Slots

/-!
# Copies

Merging copies what it takes over. A copy of a document holds the same values in the same
order, except that a set is filled anew, member by member (`Slots.ofCopy`). `Document.copied`
is the copy.
-/

namespace AccessPolicy

/-- The layer with a set filled anew. -/
def Shape.copied {α : Type} : Shape α → Shape α
  | .set ks => .set (Slots.ofCopy ks)
  | s => s

/-- The web with every set filled anew. -/
def Web.copied (w : Web) : Web :=
  ⟨w.cells.map Shape.copied⟩

mutual

/-- The copy of a document. -/
def Document.copied : Document → Document
  | .scalar s => .scalar s
  | .sequence items => .sequence (Document.copiedAll items)
  | .tuple items => .tuple (Document.copiedAll items)
  | .mapping es => .mapping (Document.copiedEntries es)
  | .set ks => .set (Slots.ofCopy ks)
  | .cyclic w place => .cyclic w.copied place

def Document.copiedAll : List Document → List Document
  | [] => []
  | d :: ds => d.copied :: Document.copiedAll ds

def Document.copiedEntries : List (Key × Document) → List (Key × Document)
  | [] => []
  | (k, v) :: es => (k, v.copied) :: Document.copiedEntries es

end

end AccessPolicy
