import AccessPolicy.Document.Basic

/-!
# Views of a document

`Document.layer` is one layer of a document. All other views read it, so that a document
that contains itself is seen as what it is : a sequence by its items, a mapping by its
entries.

The members in a layer of a cyclic document are documents again (`Web.layer`). One from
which every way ends is made into a tree; each place is made into one once, so that a value
with many names for its parts does not grow (`Web.visit`).
-/

namespace AccessPolicy

/-! ## Documents of a web -/

/-- What is known about a place of a web. -/
inductive Finding where
  | unknown
  /-- The ways from the place are being followed. -/
  | followed
  /-- Some way from the place never ends. -/
  | endless
  | finite (d : Document)

/-- The document with this layer. -/
def Document.ofLayer : Shape Document → Document
  | .scalar s => .scalar s
  | .sequence items => .sequence items
  | .tuple items => .tuple items
  | .mapping es => .mapping es
  | .set ks => .set ks

namespace Web

/-- The tree that the value at a place is, if every way from the place ends. A place that is
met while its own ways are followed lies on a way that never ends. The fuel bounds the
length of a way. -/
def visit (w : Web) : (fuel place : Nat) → StateM (Array Finding) (Option Document)
  | 0, _ => return none
  | fuel + 1, place => do
    match (← get)[place]? with
    | some (.finite d) => return some d
    | some .unknown =>
      modify fun found => found.setIfInBounds place .followed
      let members ← (w.cell place).mapM (w.visit fuel)
      let d := (members.mapM id).map Document.ofLayer
      modify fun found => found.setIfInBounds place (d.elim .endless .finite)
      return d
    | _ => return none

/-- The document at a place. -/
def member (w : Web) (place : Nat) : StateM (Array Finding) Document := do
  return (← w.visit (w.cells.size + 1) place).getD (.cyclic w place)

/-- Nothing is known about the places of the web. -/
def nothingFound (w : Web) : Array Finding :=
  Array.replicate w.cells.size .unknown

/-- The document at a place. -/
def document (w : Web) (place : Nat) : Document :=
  ((w.member place).run w.nothingFound).1

/-- The layer at a place, with the documents of its members. -/
def layer (w : Web) (place : Nat) : Shape Document :=
  (((w.cell place).mapM w.member).run w.nothingFound).1

end Web

namespace Document

/-- One layer of the document. -/
def layer : Document → Shape Document
  | .scalar s => .scalar s
  | .sequence items => .sequence items
  | .tuple items => .tuple items
  | .mapping es => .mapping es
  | .set ks => .set ks
  | .cyclic w place => w.layer place

/-! ## Parts -/

/-- The entries of a mapping. -/
def entries? (d : Document) : Option Entries :=
  match d.layer with
  | .mapping es => some es
  | _ => none

/-- The entries of a mapping; none of anything else. -/
def entries (d : Document) : Entries :=
  d.entries?.getD []

/-- The items of a sequence. -/
def items? (d : Document) : Option (List Document) :=
  match d.layer with
  | .sequence items => some items
  | _ => none

/-- The text that a document is. -/
def text? : Document → Option Text
  | .scalar (.text s) => some s
  | _ => none

/-- The members of a document that has members : the characters of a text, the numbers of
bytes, the keys of a mapping. -/
def members? (d : Document) : Option (List Document) :=
  match d.layer with
  | .scalar (.text s) => some (s.map fun c => .text [c])
  | .scalar (.bytes bs) => some (bs.map fun b => .int b.toNat)
  | .scalar _ => none
  | .sequence items => some items
  | .tuple items => some items
  | .mapping es => some (Key.toDocuments (Entries.keys es))
  | .set ks => some (Key.toDocuments ks)

/-! ## Kinds -/

/-- The name of the kind of value. -/
def kindName (d : Document) : String :=
  match d.layer with
  | .scalar .null => "NoneType"
  | .scalar (.bool _) => "bool"
  | .scalar (.int _) => "int"
  | .scalar (.float _) => "float"
  | .scalar (.text _) => "str"
  | .scalar (.bytes _) => "bytes"
  | .scalar (.date _) => "date"
  | .scalar (.moment _) => "datetime"
  | .sequence _ => "list"
  | .tuple _ => "tuple"
  | .mapping _ => "dict"
  | .set _ => "set"

def isMapping (d : Document) : Bool :=
  d.entries?.isSome

def isBool : Document → Bool
  | .scalar (.bool _) => true
  | _ => false

/-- Null, false, zero and whatever is empty count as not given. -/
def isGiven (d : Document) : Bool :=
  match d.layer with
  | .scalar .null => false
  | .scalar (.bool b) => b
  | .scalar (.int n) => n != 0
  | .scalar (.float x) => !x.isZero
  | .scalar (.text s) => !s.isEmpty
  | .scalar (.bytes bs) => !bs.isEmpty
  | .scalar (.date _) => true
  | .scalar (.moment _) => true
  | .sequence items => !items.isEmpty
  | .tuple items => !items.isEmpty
  | .mapping es => !es.isEmpty
  | .set ks => !ks.isEmpty

/-- The document, or the text where it counts as not given. -/
def orText (d : Document) (s : Text) : Document :=
  if d.isGiven then d else .text s

end Document

end AccessPolicy
