import AccessPolicy.Text.Split

/-!
# Paths

A path is a root and the names below it. `Path.ofText` drops empty names and names that are
a single dot; names of two dots stay, since what they lead to depends on the files.
`Path.text` is the normal form of the text.

The file system knows paths by their bytes. A text stands for bytes in UTF-8, and a half
from U+DC80 to U+DCFF for the single byte whose number its last two digits are; a text with
other halves names nothing (`Text.isName`).
-/

namespace AccessPolicy

/-! ## Names as bytes -/

/-- How many bytes of a name a code point stands for. -/
def CodePoint.nameSize? : CodePoint → Option Nat
  | .char c => some c.utf8Size
  | .half n => if 0x480 ≤ n.val ∧ n.val < 0x500 then some 1 else none

/-- The text stands for bytes. -/
def Text.isName (t : Text) : Bool :=
  t.all fun c => c.nameSize?.isSome

/-- How many bytes the text stands for. -/
def Text.nameSize (t : Text) : Nat :=
  t.foldl (fun n c => n + c.nameSize?.getD 0) 0

/-! ## Paths -/

/-- A path in normal form. -/
structure Path where
  /-- Empty for a relative path. Exactly two slashes at the start of a text are a root of
  their own. -/
  root : Text
  names : List Text
deriving DecidableEq, Repr

namespace Path

/-- The root that a text starts with. -/
def rootOf : Text → Text
  | .char '/' :: .char '/' :: .char '/' :: _ => "/"
  | .char '/' :: .char '/' :: _ => "//"
  | .char '/' :: _ => "/"
  | _ => []

/-- The path that a text stands for. -/
def ofText (s : Text) : Path where
  root := rootOf s
  names := (Text.split (.char '/') s).filter fun name => name != [] && name != "."

/-- The path as text; a single dot where there is nothing to write. -/
def text (p : Path) : Text :=
  if p.root = [] ∧ p.names = [] then "." else p.root ++ Text.joined "/" p.names

/-- The path of a name in the directory. -/
def child (p : Path) (name : Text) : Path :=
  { p with names := p.names ++ [name] }

/-- The path of the directory that holds the path; a root and the empty path hold
themselves. -/
def parent (p : Path) : Path :=
  { p with names := p.names.dropLast }

/-- The last name. -/
def name (p : Path) : Text :=
  p.names.getLastD []

/-- The path can be asked for : its text stands for bytes, and none of them is the one that
ends texts. -/
def isAddress (p : Path) : Bool :=
  p.text.isName && !p.text.contains '\x00'

end Path

end AccessPolicy
