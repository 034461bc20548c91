import AccessPolicy.Document.Web

/-!
# Documents

A document is what a configuration file or a caller hands over before anything about it is
known : scalars, sequences, and mappings that keep the order in which their keys first
came. A document that contains itself is a place in a `Web`.

A mapping is read by `Entries.lookup` and written by `Entries.insert`, which keeps the
spelling and the place of a key that is already there.
-/

namespace AccessPolicy

/-- A configuration value. -/
inductive Document where
  | scalar (s : Scalar)
  | sequence (items : List Document)
  | tuple (items : List Document)
  | mapping (entries : List (Key × Document))
  | set (members : List Key)
  /-- The value at a place from which there is a way that never ends. -/
  | cyclic (w : Web) (place : Nat)

instance : Inhabited Document := ⟨.scalar .null⟩

/-- The entries of a mapping, in order of first arrival. -/
abbrev Entries := List (Key × Document)

/-! ## Short names -/

@[match_pattern] abbrev Document.null : Document := .scalar .null

@[match_pattern] abbrev Document.bool (b : Bool) : Document := .scalar (.bool b)

@[match_pattern] abbrev Document.int (n : Int) : Document := .scalar (.int n)

@[match_pattern] abbrev Document.text (s : Text) : Document := .scalar (.text s)

/-! ## Mappings -/

namespace Entries

/-- The value of the entry that the key names. -/
def lookup (k : Key) : Entries → Option Document
  | [] => none
  | (k', v) :: es => if k.same k' then some v else lookup k es

/-- The key names an entry. -/
def has (k : Key) (es : Entries) : Bool :=
  (lookup k es).isSome

/-- Sets the value of an entry. An entry that is there keeps its key and its place; a new
one goes to the end. -/
def insert (k : Key) (v : Document) : Entries → Entries
  | [] => [(k, v)]
  | (k', v') :: es => if k.same k' then (k', v) :: es else (k', v') :: insert k v es

/-- The mapping that a list of assignments builds. -/
def ofList (es : List (Key × Document)) : Entries :=
  es.foldl (fun acc e => insert e.1 e.2 acc) []

/-- The keys, in order. -/
def keys (es : Entries) : List Key :=
  es.map (·.1)

/-- The value of the entry with a text for key. -/
def get? (es : Entries) (name : Text) : Option Document :=
  lookup (.text name) es

/-- The value of the entry with a text for key; null where there is none. -/
def getD (es : Entries) (name : Text) : Document :=
  (es.get? name).getD .null

end Entries

/-! ## Documents as keys, keys as documents -/

mutual

/-- The document that a key is. -/
def Key.toDocument : Key → Document
  | .scalar s => .scalar s
  | .tuple ks => .tuple (Key.toDocuments ks)

/-- The documents that keys are. -/
def Key.toDocuments : List Key → List Document
  | [] => []
  | k :: ks => k.toDocument :: Key.toDocuments ks

end

mutual

/-- The key that a document is : scalars are keys, and tuples of keys. -/
def Document.toKey? : Document → Option Key
  | .scalar s => some (.scalar s)
  | .tuple items => (Document.toKeys? items).map .tuple
  | _ => none

/-- The keys that documents are, if all of them are. -/
def Document.toKeys? : List Document → Option (List Key)
  | [] => some []
  | d :: ds =>
    match d.toKey?, Document.toKeys? ds with
    | some k, some ks => some (k :: ks)
    | _, _ => none

end

end AccessPolicy
