import AccessPolicy.Files.Path
import AccessPolicy.Text.Quoted

/-!
# File trees

A file tree holds directories and files, each at a place : the names that lead to it from
the root. Links are left out : nothing has two names, and only two dots lead back. Paths are
looked up name by name (`FileTree.resolve`), which fails at a missing directory, at a file in a
directory's place, and at a name that is too long. The operations on a tree give a new tree or
a `SystemError`, whose text names the path.

`lookup_set` and `lookup_erase` say what the two basic changes do to every place.
-/

namespace AccessPolicy

/-- The names that lead from the root to a directory or a file. -/
abbrev Place := List Text

/-- What stands at a place. -/
inductive Node where
  | directory
  | file (content : List UInt8) (mode : Nat)
deriving DecidableEq

/-- Why the file system refuses an operation. -/
inductive SystemError where
  | noEntry
  | exists
  | notDirectory
  | isDirectory
  | nameTooLong
deriving DecidableEq, Repr

namespace SystemError

def number : SystemError → Nat
  | .noEntry => 2
  | .exists => 17
  | .notDirectory => 20
  | .isDirectory => 21
  | .nameTooLong => 36

def text : SystemError → String
  | .noEntry => "No such file or directory"
  | .exists => "File exists"
  | .notDirectory => "Not a directory"
  | .isDirectory => "Is a directory"
  | .nameTooLong => "File name too long"

/-- The error with the path that it arose at. -/
def message (e : SystemError) (p : Path) : Text :=
  "[Errno " ++ toString e.number ++ "] " ++ e.text ++ ": " ++ Quoted.text p.text

end SystemError

/-- Directories and files by place. The root is always there. -/
structure FileTree where
  nodes : List (Place × Node)
deriving DecidableEq

namespace FileTree

/-- The tree with nothing below the root. -/
def empty : FileTree := ⟨[]⟩

/-! ## Places -/

/-- The node that a list of nodes has at a place. -/
def find (p : Place) : List (Place × Node) → Option Node
  | [] => none
  | e :: es => if e.1 = p then some e.2 else find p es

/-- What stands at a place. -/
def lookup (t : FileTree) (p : Place) : Option Node :=
  if p = [] then some .directory else find p t.nodes

/-- A list of nodes with a node set; a new one goes to the end. -/
def put (p : Place) (n : Node) : List (Place × Node) → List (Place × Node)
  | [] => [(p, n)]
  | e :: es => if e.1 = p then (p, n) :: es else e :: put p n es

/-- The tree with a node at a place. -/
def set (t : FileTree) (p : Place) (n : Node) : FileTree :=
  ⟨put p n t.nodes⟩

/-- The tree without the node at a place. -/
def erase (t : FileTree) (p : Place) : FileTree :=
  ⟨t.nodes.filter fun e => e.1 != p⟩

theorem find_put (p q : Place) (n : Node) (es : List (Place × Node)) :
    find q (put p n es) = if p = q then some n else find q es := by
  induction es with
  | nil => simp [put, find]
  | cons e es ih =>
    by_cases he : e.1 = p
    · by_cases hq : p = q <;> simp [put, find, he, hq]
    · by_cases hq : e.1 = q
      · subst hq
        simp [put, find, he, Ne.symm he]
      · simp [put, find, he, hq, ih]

theorem lookup_set (t : FileTree) {p : Place} (q : Place) (n : Node) (h : p ≠ []) :
    (t.set p n).lookup q = if p = q then some n else t.lookup q := by
  unfold lookup set
  by_cases hq : q = []
  · subst hq
    simp [h]
  · simp [hq, find_put]

theorem find_filter (p q : Place) (es : List (Place × Node)) :
    find q (es.filter fun e => e.1 != p) = if p = q then none else find q es := by
  induction es with
  | nil => simp [find]
  | cons e es ih =>
    by_cases he : e.1 = p
    · by_cases hq : p = q <;> simp_all [find]
    · by_cases hq : e.1 = q
      · have : p ≠ q := fun h => he (hq.trans h.symm)
        simp_all [find]
      · simp_all [find]

theorem lookup_erase (t : FileTree) {p : Place} (q : Place) (h : p ≠ []) :
    (t.erase p).lookup q = if p = q then none else t.lookup q := by
  unfold lookup erase
  by_cases hq : q = []
  · subst hq
    simp [h]
  · simp [hq, find_filter]

/-! ## Paths -/

/-- Follows names from a place. Each name is looked up in a directory. -/
def walk (t : FileTree) (current : Place) : List Text → Except SystemError Place
  | [] => .ok current
  | name :: names =>
    match t.lookup current with
    | none => .error .noEntry
    | some (.file _ _) => .error .notDirectory
    | some .directory =>
      if name = ".." then t.walk current.dropLast names
      else if 255 < name.nameSize then .error .nameTooLong
      else t.walk (current ++ [name]) names

/-- The place that a path leads to. The directories on the way are there; the place itself
may be empty. -/
def resolve (t : FileTree) (p : Path) : Except SystemError Place :=
  if 4096 ≤ p.text.nameSize then .error .nameTooLong else t.walk [] p.names

/-- The node that a path leads to. -/
def nodeAt (t : FileTree) (p : Path) : Except SystemError Node := do
  match t.lookup (← t.resolve p) with
  | some n => .ok n
  | none => .error .noEntry

/-- Something stands where the path leads. A path that leads nowhere has nothing there. -/
def hasNode (t : FileTree) (p : Path) : Except SystemError Bool :=
  if !p.isAddress then .ok false
  else
    match t.nodeAt p with
    | .ok _ => .ok true
    | .error .nameTooLong => .error .nameTooLong
    | .error _ => .ok false

/-- A directory stands where the path leads. -/
def isDirectory (t : FileTree) (p : Path) : Bool :=
  p.isAddress &&
    match t.nodeAt p with
    | .ok .directory => true
    | _ => false

/-- The bytes of the file where the path leads. -/
def read (t : FileTree) (p : Path) : Except SystemError (List UInt8) := do
  match ← t.nodeAt p with
  | .file content _ => .ok content
  | .directory => .error .isDirectory

/-! ## Changes -/

/-- Makes one directory. -/
def makeDirectory (t : FileTree) (p : Path) : Except SystemError FileTree := do
  let place ← t.resolve p
  match t.lookup place with
  | some _ => .error .exists
  | none => .ok (t.set place .directory)

/-- The permission bits of a file that is made without any being asked for. -/
def defaultMode : Nat := 0o644

/-- Replaces the content of a file; a new file gets the default permission bits. -/
def write (t : FileTree) (p : Path) (content : List UInt8) : Except SystemError FileTree := do
  let place ← t.resolve p
  match t.lookup place with
  | some .directory => .error .isDirectory
  | some (.file _ mode) => .ok (t.set place (.file content mode))
  | none => .ok (t.set place (.file content defaultMode))

/-- Changes the permission bits of a file. -/
def setMode (t : FileTree) (place : Place) (mode : Nat) : FileTree :=
  match t.lookup place with
  | some (.file content _) => t.set place (.file content mode)
  | _ => t

/-- Moves a file over whatever file stands at the other place. -/
def rename (t : FileTree) (source : Place) (target : Path) : Except SystemError FileTree := do
  let place ← t.resolve target
  match t.lookup source, t.lookup place with
  | none, _ => .error .noEntry
  | some _, some .directory => .error .isDirectory
  | some n, _ => .ok ((t.erase source).set place n)

/-- Puts a file at a place, with the directories above it. -/
def putFile (t : FileTree) (place : Place) (content : List UInt8) : FileTree :=
  let above := ((List.range place.length).map place.take).filter fun q => q != []
  let t := above.foldl (fun t q => if (t.lookup q).isSome then t else t.set q .directory) t
  match t.lookup place with
  | some (.file _ mode) => t.set place (.file content mode)
  | _ => t.set place (.file content defaultMode)

/-- Puts a directory at a place, with the directories above it. -/
def putDirectory (t : FileTree) (place : Place) : FileTree :=
  let above := ((List.range (place.length + 1)).map place.take).filter fun q => q != []
  above.foldl (fun t q => if (t.lookup q).isSome then t else t.set q .directory) t

/-- Removes what stands at a place and below it. -/
def remove (t : FileTree) (place : Place) : FileTree :=
  ⟨t.nodes.filter fun e => !place.isPrefixOf e.1⟩

/-- The last names of all places. -/
def lastNames (t : FileTree) : List Text :=
  t.nodes.map fun e => e.1.getLastD []

/-- Names with a stem and a number of at least eight digits, one more than there are places. -/
def numberedNames (t : FileTree) (stem : Text) : List Text :=
  (List.range (t.nodes.length + 1)).map fun n => stem ++ Text.padded 8 n

/-- A name that is longer than the last names of all places. -/
def longName (t : FileTree) (stem : Text) : Text :=
  let longest := (t.lastNames.map List.length).foldl max 0
  stem ++ List.replicate (longest + 1) (.char 'x')

/-- A name that nothing in the tree has : the first numbered one that is free. -/
def freshName (t : FileTree) (stem : Text) : Text :=
  ((t.numberedNames stem).find? fun name => !t.lastNames.contains name).getD (t.longName stem)

end FileTree

end AccessPolicy
