import AccessPolicy.Yaml.Scalar

/-!
# Nodes

What the text of a document says, before values are made of it : scalars, sequences and
mappings, each with its kind. The nodes of a text form a `Graph` : a node names its parts by
their numbers, so that a reference is the number of the node that it names. A node may be a
part of itself.
-/

namespace AccessPolicy.Yaml

/-- What a node holds; its parts are given by their numbers. -/
inductive Content where
  | scalar (text : Text)
  | sequence (items : List Nat)
  | mapping (entries : List (Nat × Nat))

structure Node where
  tag : Tag
  content : Content

/-- The node where nothing is written. -/
def Node.absent : Node := ⟨.null, .scalar []⟩

/-- Nodes by number. -/
structure Graph where
  nodes : Array Node := #[]

namespace Graph

def size (g : Graph) : Nat :=
  g.nodes.size

def node (g : Graph) (n : Nat) : Node :=
  (g.nodes[n]?).getD .absent

def tag (g : Graph) (n : Nat) : Tag :=
  (g.node n).tag

def content (g : Graph) (n : Nat) : Content :=
  (g.node n).content

/-- The entries of a mapping. -/
def entries (g : Graph) (n : Nat) : List (Nat × Nat) :=
  match g.content n with
  | .mapping es => es
  | _ => []

/-- The graph with one more node, whose number is the size that the graph had. -/
def add (g : Graph) (x : Node) : Graph :=
  ⟨g.nodes.push x⟩

/-- The graph with another content in a node. -/
def setContent (g : Graph) (n : Nat) (c : Content) : Graph :=
  ⟨g.nodes.modify n fun x => { x with content := c }⟩

/-- The graph with another kind for a node. -/
def setTag (g : Graph) (n : Nat) (t : Tag) : Graph :=
  ⟨g.nodes.modify n fun x => { x with tag := t }⟩

/-- The text of a node where a scalar is wanted : that of a mapping is the one under its
value key. The fuel bounds the number of mappings on the way to the text; where it ends, the
way does not. -/
def textFrom (g : Graph) : (fuel n : Nat) → Except Problem Text
  | 0, _ => .error (.fault .tooDeep)
  | fuel + 1, n =>
    match g.content n with
    | .scalar text => .ok text
    | .sequence _ => .error .malformed
    | .mapping es =>
      match es.find? fun e => g.tag e.1 = .value with
      | some (_, v) => g.textFrom fuel v
      | none => .error .malformed

/-- The text of a node where a scalar is wanted. -/
def text (g : Graph) (n : Nat) : Except Problem Text :=
  g.textFrom (g.size + 1) n

end Graph

end AccessPolicy.Yaml
