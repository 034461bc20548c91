import AccessPolicy.Document.Fault

/-!
# Writing documents as JSON

Documents are written over several lines, two spaces a level, in ASCII. The writer goes
from left to right and stops at the first value that cannot be written : one that JSON has
no form for, one that contains itself, or an integer that is too long. Its result
(`Written`) is the text up to there and what was wrong.

A scalar in an array is written together with what stands in front of it, so that a scalar
that cannot be written leaves nothing of that; any other member leaves what stands in front
of it (`Json.Writer`). `Document.json` writes a document.
-/

namespace AccessPolicy

/-- What a writer has put out, and why it did not reach the end. -/
structure Written where
  text : String
  fault : Option Fault := none

namespace Written

/-- A value that cannot be written. -/
def refused (f : Fault) : Written := ⟨"", some f⟩

/-- One after the other; what follows a refused value is not written. -/
def andThen (a b : Written) : Written :=
  if a.fault.isNone then ⟨a.text ++ b.text, b.fault⟩ else a

/-- The text, and then what follows. -/
def after (text : String) (w : Written) : Written :=
  { w with text := text ++ w.text }

end Written

namespace Json

/-! ## Scalars -/

/-- A sixteen-bit unit as an escape. -/
def unitEscape (n : Nat) : List Char :=
  '\\' :: 'u' :: Text.hex 4 n

/-- One character inside a JSON string. -/
def escapeChar (c : Char) : List Char :=
  if c = '\x22' ∨ c = '\\' then ['\\', c]
  else if c = '\n' then ['\\', 'n']
  else if c = '\r' then ['\\', 'r']
  else if c = '\t' then ['\\', 't']
  else if c = '\x08' then ['\\', 'b']
  else if c = '\x0c' then ['\\', 'f']
  else if 0x20 ≤ c.toNat ∧ c.toNat ≤ 0x7E then [c]
  else if c.toNat < 0x10000 then unitEscape c.toNat
  else
    let n := c.toNat - 0x10000
    unitEscape (0xD800 + n / 0x400) ++ unitEscape (0xDC00 + n % 0x400)

/-- One code point inside a JSON string. -/
def escape : CodePoint → List Char
  | .char c => escapeChar c
  | .half n => unitEscape (CodePoint.half n).toNat

/-- A JSON string. -/
def string (s : Text) : String :=
  String.ofList ('\x22' :: s.flatMap escape ++ ['\x22'])

/-- A floating-point value; the three that are no numbers have names. -/
def float (x : Binary64) : String :=
  if x.isNaN then "NaN"
  else if x.isInfinite then (if x.isNegative then "-Infinity" else "Infinity")
  else x.text

/-- The JSON form of a scalar, or why it has none. -/
def scalar (s : Scalar) : Except Fault String :=
  match s with
  | .null => .ok "null"
  | .bool b => .ok (if b then "true" else "false")
  | .int n => if s.isShowable then .ok (toString n) else .error .longNumeral
  | .float x => .ok (float x)
  | .text t => .ok (string t)
  | _ => .error .noJson

/-- The name of an object's member : a scalar is named by its JSON form. -/
def name : Key → Except Fault String
  | .scalar (.text s) => .ok (string s)
  | .scalar s => do return "\x22" ++ (← scalar s) ++ "\x22"
  | .tuple _ => .error .noJson

/-! ## Layers -/

/-- What comes of a value, given what stands in front of it. -/
abbrev Writer := String → Written

/-- A scalar. -/
def scalarWriter (s : Scalar) : Writer := fun front =>
  match scalar s with
  | .ok text => ⟨front ++ text, none⟩
  | .error .longNumeral => .refused .longNumeral
  | .error f => ⟨front, some f⟩

/-- A new line at a level. -/
def newline (level : Nat) : String :=
  String.ofList ('\n' :: List.replicate (2 * level) ' ')

/-- The members of an array, each on a line of its own, after what stands in front of the
first one. -/
def items (level : Nat) : (front : String) → List Writer → Written
  | _, [] => ⟨"", none⟩
  | front, w :: ws => (w (front ++ newline level)).andThen (items level "," ws)

/-- The members of an object. The comma is written once the name is known to have a form. -/
def entries (level : Nat) : (front : String) → List (Key × Writer) → Written
  | _, [] => ⟨"", none⟩
  | front, (k, w) :: es =>
    match name k with
    | .error f => .refused f
    | .ok text =>
      (Written.after (front ++ text ++ ": ") (w "")).andThen
        (entries level ("," ++ newline level) es)

/-- An array at a level. -/
def array (level : Nat) (ws : List Writer) : Writer := fun front =>
  if ws.isEmpty then ⟨front ++ "[]", none⟩
  else
    .after front ((items (level + 1) "[" ws).andThen ⟨newline level ++ "]", none⟩)

/-- An object at a level. -/
def object (level : Nat) (es : List (Key × Writer)) : Writer := fun front =>
  if es.isEmpty then ⟨front ++ "\x7b\x7d", none⟩
  else
    .after (front ++ "\x7b" ++ newline (level + 1))
      ((entries (level + 1) "" es).andThen ⟨newline level ++ "\x7d", none⟩)

/-- A layer at a level, by the writers of its members. -/
def layer (level : Nat) : Shape Writer → Writer
  | .scalar s => scalarWriter s
  | .sequence ws => array level ws
  | .tuple ws => array level ws
  | .mapping es => object level es
  | .set _ => fun front => ⟨front, some .noJson⟩

end Json

/-! ## Documents -/

/-- The value at a place inside the values at the places of `path`. The fuel bounds the
number of layers. -/
def Web.jsonIn (w : Web) : (fuel level : Nat) → (path : List Nat) → (place : Nat) → Json.Writer
  | 0, _, _, _ => fun front => ⟨front, some .circular⟩
  | fuel + 1, level, path, place =>
    if path.contains place then fun front => ⟨front, some .circular⟩
    else Json.layer level ((w.cell place).map (w.jsonIn fuel (level + 1) (place :: path)))

mutual

/-- A document at a level. -/
def Document.jsonAt (level : Nat) : Document → Json.Writer
  | .scalar s => Json.layer level (.scalar s)
  | .sequence items => Json.layer level (.sequence (Document.jsonItems (level + 1) items))
  | .tuple items => Json.layer level (.tuple (Document.jsonItems (level + 1) items))
  | .mapping es => Json.layer level (.mapping (Document.jsonEntries (level + 1) es))
  | .set ks => Json.layer level (.set ks)
  | .cyclic w place => w.jsonIn (w.cells.size + 1) level [] place

/-- The members of an array at a level. -/
def Document.jsonItems (level : Nat) : List Document → List Json.Writer
  | [] => []
  | d :: ds => d.jsonAt level :: Document.jsonItems level ds

/-- The members of an object at a level. -/
def Document.jsonEntries (level : Nat) : List (Key × Document) → List (Key × Json.Writer)
  | [] => []
  | (k, v) :: es => (k, v.jsonAt level) :: Document.jsonEntries level es

end

/-- The document as JSON text. -/
def Document.json (d : Document) : Written :=
  d.jsonAt 0 ""

end AccessPolicy
