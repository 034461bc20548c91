import AccessPolicy.Text.Numeral
import AccessPolicy.Text.Utf8
import AccessPolicy.Yaml.Cursor

/-!
# Names, tags and directives

Anchors and aliases are named by letters, digits, `-` and `_`. A tag is written in full
between angle brackets, or as a handle and a suffix; directives at the start of a document
say what its handles stand for.

A `Tag` is what a tag comes to : one of the kinds of value that documents are made of, or
unknown. `Tag.ofUri` reads it off the full form.
-/

namespace AccessPolicy.Yaml

/-! ## Kinds of value -/

/-- The kind of value that a node stands for. -/
inductive Tag where
  | null
  | bool
  | int
  | float
  | binary
  | timestamp
  | orderedMap
  | pairs
  | set
  | text
  | sequence
  | mapping
  /-- The key whose value is merged into the mapping. -/
  | merge
  /-- The key whose value stands for the mapping where a scalar is wanted. -/
  | value
  | unknown
deriving DecidableEq, Repr

namespace Tag

/-- What the full forms of all known tags start with. -/
def stem : String := "tag:yaml.org,2002:"

/-- The known tags by the end of their full forms. -/
def table : List (String × Tag) := [
  ("null", .null), ("bool", .bool), ("int", .int), ("float", .float), ("binary", .binary),
  ("timestamp", .timestamp), ("omap", .orderedMap), ("pairs", .pairs), ("set", .set),
  ("str", .text), ("seq", .sequence), ("map", .mapping), ("merge", .merge), ("value", .value)]

/-- The tag with this full form. -/
def ofUri (uri : String) : Tag :=
  match table.find? fun e => stem ++ e.1 = uri with
  | some (_, tag) => tag
  | none => .unknown

end Tag

/-- A tag as it is written. -/
inductive WrittenTag where
  /-- The full form, or a single exclamation mark. -/
  | full (uri : String)
  | short (handle suffix : String)
deriving DecidableEq, Repr

/-- A line that sets up a document. -/
inductive Directive where
  | version (major : Nat)
  | handle (name stem : String)
  /-- Any other directive has no effect. -/
  | reserved
deriving DecidableEq, Repr

/-! ## Reading -/

/-- Letters, digits, `-` and `_`. -/
def isNameCharacter (c : Char) : Bool :=
  c.isAlphanum || c = '-' || c = '_'

/-- The characters of a tag's full form that stand for themselves. -/
def isUriCharacter (c : Char) : Bool :=
  c.isAlphanum || "-;/?:@&=+$,_.!~*'()[]".toList.contains c

/-- What may follow the name of an anchor or an alias. -/
def endsName (after : Option Char) : Bool :=
  endsWord after || after.any fun c => "?:,]\x7d%@\x60".toList.contains c

/-- The value of a hexadecimal digit. -/
def hexValue? (c : Char) : Option Nat :=
  (Text.digitValue? c).filter (· < 16)

namespace Cursor

/-- The name of an anchor or an alias. -/
def name (c : Cursor) : Except Problem (String × Cursor) :=
  let (run, c) := c.take isNameCharacter
  if run.isEmpty || !endsName c.head then c.refuse else .ok (String.ofList run, c)

/-- Bytes written as a percent sign and two hexadecimal digits each, given what becomes of
one in which the characters end. -/
def percentBytes (ending : Problem) : List Char → Except Problem (List UInt8)
  | '%' :: a :: b :: rest =>
    match hexValue? a, hexValue? b with
    | some x, some y => do return UInt8.ofNat (x * 16 + y) :: (← percentBytes ending rest)
    | _, _ => .error .malformed
  | ['%', a] => .error (if (hexValue? a).isSome then ending else .malformed)
  | ['%'] => .error ending
  | _ => .ok []

/-- The full form of a tag as far as it goes. The fuel bounds the number of its pieces. -/
def uriFrom : (fuel : Nat) → Cursor → Except Problem (List Char × Cursor)
  | 0, c => .ok ([], c)
  | fuel + 1, c =>
    match c.head with
    | some x =>
      if x = '%' then do
        let bytes ← percentBytes c.ending c.rest
        let c := c.forward (3 * bytes.length)
        match Utf8.decode bytes with
        | .error _ => c.refuse
        | .ok text =>
          let (more, c) ← uriFrom fuel c
          return (text.toList ++ more, c)
      else if isUriCharacter x then do
        let (run, c) := c.take isUriCharacter
        let (more, c) ← uriFrom fuel c
        return (run ++ more, c)
      else .ok ([], c)
    | none => .ok ([], c)

/-- The full form of a tag, or a part of it. -/
def uri (c : Cursor) : Except Problem (String × Cursor) := do
  let (text, after) ← uriFrom (c.rest.length + 1) c
  if after.index = c.index then after.refuse else return (String.ofList text, after)

/-- A handle : an exclamation mark, or a name between two of them. -/
def handle (c : Cursor) : Except Problem (String × Cursor) :=
  if c.head != some '!' then c.refuse
  else if c.peek 1 = some ' ' then .ok ("!", c.next)
  else
    let (run, c) := c.next.take isNameCharacter
    if c.head = some '!' then .ok ("!" ++ String.ofList run ++ "!", c.next) else c.refuse

/-- The word after the exclamation mark that is here, and whether its end is known. -/
def tagWord (c : Cursor) : List Char × Bool :=
  let (word, after) := c.next.take fun x => !endsField (some x)
  (word, !after.isShort 1)

/-- A tag. -/
def tag (c : Cursor) : Except Problem (WrittenTag × Cursor) := do
  let (tag, c) ←
    if c.peek 1 = some '<' then do
      let (uri, c) ← (c.forward 2).uri
      if c.head = some '>' then pure (WrittenTag.full uri, c.next) else c.refuse
    else if endsWord (c.peek 1) then pure (WrittenTag.full "!", c.next)
    else do
      let (word, ends) := c.tagWord
      let (handle, c) ←
        if word.contains '!' then c.handle
        else if ends then pure ("!", c.next)
        else throw c.ending
      let (suffix, c) ← c.uri
      pure (WrittenTag.short handle suffix, c)
  if endsField c.head then return (tag, c) else .error .malformed

/-- A decimal number in a directive. -/
def number (c : Cursor) : Except Problem (Nat × Cursor) :=
  let (run, c) := c.take Char.isDigit
  if run.isEmpty || c.isShort 1 then c.refuse
  else if 4300 < run.length then .error (.fault .badNumeral)
  else .ok (run.foldl (fun n x => n * 10 + (x.toNat - 48)) 0, c)

/-- The version that a directive demands. -/
def version (c : Cursor) : Except Problem (Directive × Cursor) := do
  let (major, c) ← (c.skip (· = ' ')).number
  if c.head != some '.' then c.refuse
  else
    let (_, c) ← c.next.number
    if endsField c.head then return (.version major, c) else .error .malformed

/-- A handle and what it stands for. -/
def handleMeaning (c : Cursor) : Except Problem (Directive × Cursor) := do
  let (handle, c) ← (c.skip (· = ' ')).handle
  if c.head != some ' ' then c.refuse
  else
    let (stem, c) ← (c.skip (· = ' ')).uri
    if endsField c.head then return (.handle handle stem, c) else .error .malformed

/-- A directive with the line that it stands on. -/
def directive (c : Cursor) : Except Problem (Directive × Cursor) := do
  let (run, c) := c.next.take isNameCharacter
  if run.isEmpty || !endsField c.head then c.refuse
  else
    let (directive, c) ←
      if run = "YAML".toList then c.version
      else if run = "TAG".toList then c.handleMeaning
      else pure (.reserved, c.skip fun x => !isBreak x)
    return (directive, ← c.restOfLine)

end Cursor

end AccessPolicy.Yaml
