import AccessPolicy.Decimal.Shortest
import AccessPolicy.Document.View
import AccessPolicy.Text.Quoted

/-!
# Documents in messages

`Document.shown` is a document as a message shows it by itself : a text as it is.
`Document.quoted` is a document as a member of another : a text in quotes, dates by their
fields. The two agree on everything that has members. A document that contains itself shows
dots in brackets where it would start again.

An integer of very many digits cannot be shown. `Document.isShowable` says whether a
document holds none.
-/

namespace AccessPolicy

/-! ## Scalars -/

/-- A distance from universal time, in microseconds. Only the days may be less than zero. -/
def Moment.quotedOffset (n : Int) : String :=
  if n = 0 then "datetime.timezone.utc"
  else
    let seconds := Int.fdiv n 1000000
    let parts := [
      ("days=", Int.fdiv seconds 86400),
      ("seconds=", Int.fmod seconds 86400),
      ("microseconds=", Int.fmod n 1000000)]
    let given := (parts.filter fun part => part.2 != 0).map fun part => part.1 ++ toString part.2
    "datetime.timezone(datetime.timedelta(" ++ ", ".intercalate given ++ "))"

/-- A moment by its fields, without the smallest ones where they are zero. -/
def Moment.quoted (m : Moment) : String :=
  let small :=
    if m.microsecond = 0 then (if m.second = 0 then [] else [m.second])
    else [m.second, m.microsecond]
  let fields := [m.date.year, m.date.month, m.date.day, m.hour, m.minute] ++ small
  let zone := match m.offset with
    | none => []
    | some n => ["tzinfo=" ++ Moment.quotedOffset n]
  "datetime.datetime(" ++ ", ".intercalate (fields.map toString ++ zone) ++ ")"

/-- A day by its fields. -/
def Date.quoted (d : Date) : String :=
  "datetime.date(" ++ ", ".intercalate ([d.year, d.month, d.day].map toString) ++ ")"

/-- A scalar as a member of another value. -/
def Scalar.quoted : Scalar → String
  | .null => "None"
  | .bool b => if b then "True" else "False"
  | .int n => toString n
  | .float x => x.text
  | .text s => Quoted.text s
  | .bytes bs => Quoted.bytes bs
  | .date d => d.quoted
  | .moment m => m.quoted

/-- A scalar as a message shows it. -/
def Scalar.shown : Scalar → Text
  | .text s => s
  | .date d => d.text
  | .moment m => m.textWith " "
  | s => s.quoted

/-! ## Layers -/

/-- The members of a tuple in brackets; a single one is followed by a comma. -/
def tupleText : List String → String
  | [] => "()"
  | [item] => "(" ++ item ++ ",)"
  | items => "(" ++ ", ".intercalate items ++ ")"

/-- The members of a set in braces. -/
def setText : List String → String
  | [] => "set()"
  | items => "\x7b" ++ ", ".intercalate items ++ "\x7d"

mutual

/-- A key as a member of another value. -/
def Key.quoted : Key → String
  | .scalar s => s.quoted
  | .tuple ks => tupleText (Key.quotedAll ks)

def Key.quotedAll : List Key → List String
  | [] => []
  | k :: ks => k.quoted :: Key.quotedAll ks

end

/-- A key as a message shows it. -/
def Key.shown : Key → Text
  | .scalar s => s.shown
  | k => k.quoted

/-- A layer whose members are already in quotes. -/
def Shape.quoted : Shape String → String
  | .scalar s => s.quoted
  | .sequence items => "[" ++ ", ".intercalate items ++ "]"
  | .tuple items => tupleText items
  | .mapping es =>
    "\x7b" ++ ", ".intercalate (es.map fun e => e.1.quoted ++ ": " ++ e.2) ++ "\x7d"
  | .set ks => setText (Key.quotedAll ks)

/-- What stands for a layer inside itself. -/
def Shape.ellipsis {α : Type} : Shape α → String
  | .mapping _ => "\x7b...\x7d"
  | .tuple _ => "(...)"
  | _ => "[...]"

/-! ## Documents -/

/-- The value at a place inside the values at the places of `path`. The fuel bounds the
number of layers. -/
def Web.quotedIn (w : Web) : (fuel : Nat) → (path : List Nat) → (place : Nat) → String
  | 0, _, _ => ""
  | fuel + 1, path, place =>
    let cell := w.cell place
    if path.contains place then cell.ellipsis
    else (cell.map (w.quotedIn fuel (place :: path))).quoted

mutual

/-- A document as a member of another value. -/
def Document.quoted : Document → String
  | .scalar s => Shape.quoted (.scalar s)
  | .sequence items => Shape.quoted (.sequence (Document.quotedAll items))
  | .tuple items => Shape.quoted (.tuple (Document.quotedAll items))
  | .mapping es => Shape.quoted (.mapping (Document.quotedEntries es))
  | .set ks => Shape.quoted (.set ks)
  | .cyclic w place => w.quotedIn (w.cells.size + 1) [] place

def Document.quotedAll : List Document → List String
  | [] => []
  | d :: ds => d.quoted :: Document.quotedAll ds

def Document.quotedEntries : List (Key × Document) → List (Key × String)
  | [] => []
  | (k, v) :: es => (k, v.quoted) :: Document.quotedEntries es

end

/-- A document as a message shows it. -/
def Document.shown : Document → Text
  | .scalar s => s.shown
  | d => d.quoted

/-! ## Numbers too long to be shown -/

/-- The most digits that an integer is shown with. -/
def mostShownDigits : Nat := 4300

def Scalar.isShowable : Scalar → Bool
  | .int n => n.natAbs < Nat.pow 10 mostShownDigits
  | _ => true

mutual

def Key.isShowable : Key → Bool
  | .scalar s => s.isShowable
  | .tuple ks => Key.areShowable ks

def Key.areShowable : List Key → Bool
  | [] => true
  | k :: ks => k.isShowable && Key.areShowable ks

end

mutual

/-- The document holds no integer that is too long to be shown. -/
def Document.isShowable : Document → Bool
  | .scalar s => s.isShowable
  | .sequence items => Document.areShowable items
  | .tuple items => Document.areShowable items
  | .mapping es => Document.entriesShowable es
  | .set ks => Key.areShowable ks
  | .cyclic w place => Key.areShowable (w.scalars place)

def Document.areShowable : List Document → Bool
  | [] => true
  | d :: ds => d.isShowable && Document.areShowable ds

def Document.entriesShowable : List (Key × Document) → Bool
  | [] => true
  | (k, v) :: es => k.isShowable && v.isShowable && Document.entriesShowable es

end

end AccessPolicy
