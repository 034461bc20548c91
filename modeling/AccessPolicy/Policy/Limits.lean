import AccessPolicy.Document.Fault
import AccessPolicy.Policy.Vocabulary
import AccessPolicy.Text.Sorted

/-!
# Limits

Which operations are granted to which principals. In a document a principal either names its
operations or points at the defaults; in `Limits` every principal holds its operations.

`Limits.groups` puts principals with the same operations together : the groups are ordered
by their operations' places in the vocabulary, the principals of a group by class and then
by name.
-/

namespace AccessPolicy

/-- Names with their operations, in order of first arrival. -/
abbrev Roster := List (Text × List Text)

/-- Sets the operations of a name. A name that is there keeps its place. -/
def Roster.insert (name : Text) (ops : List Text) : Roster → Roster
  | [] => [(name, ops)]
  | e :: es => if e.1 = name then (name, ops) :: es else e :: Roster.insert name ops es

/-- The operations granted to each principal. -/
structure Limits where
  defaults : List Text := []
  hosts : Roster := []
  users : Roster := []
  ldapGroups : Roster := []

/-! ## Reading -/

/-- The operations among the members of a document, each once and in canonical order. -/
def Operations.ofDocument (d : Document) : Except Fault (List Text) := do
  let members ← d.members
  match Document.toKeys? members with
  | some _ => return Operations.canonical (members.filterMap Document.text?)
  | none => throw .noKey

/-- What a principal's value grants : null and the word for the defaults grant those. -/
def Operations.resolve (d : Document) (defaults : List Text) : Except Fault (List Text) :=
  match d with
  | .null => .ok defaults
  | .text s => if s = defaultsWord then .ok defaults else Operations.ofDocument d
  | d => Operations.ofDocument d

/-- The principals that entries describe. -/
def Roster.ofEntries (defaults : List Text) (es : Entries) : Except Fault Roster :=
  es.foldlM (fun roster e => do
    if !e.1.isShowable then throw .longNumeral
    return roster.insert e.1.shown (← Operations.resolve e.2 defaults)) []

/-- The limits that entries describe. -/
def Limits.ofEntries (es : Entries) : Except Fault Limits := do
  let given := es.getD "defaults"
  let defaults ← if given.isGiven then Operations.ofDocument given else pure []
  let roster (c : PrincipalClass) : Except Fault Roster := do
    Roster.ofEntries defaults (← (es.getD c.name).givenEntries)
  return {
    defaults := defaults
    hosts := ← roster .hosts
    users := ← roster .users
    ldapGroups := ← roster .ldapGroups }

/-- The limits that a document describes. -/
def Limits.ofDocument (d : Document) : Except Fault Limits := do
  Limits.ofEntries (← d.givenEntries)

namespace Limits

/-- The principals of a class. -/
def principals (l : Limits) : PrincipalClass → Roster
  | .hosts => l.hosts
  | .users => l.users
  | .ldapGroups => l.ldapGroups

/-- Nobody is granted anything. -/
def isEmpty (l : Limits) : Bool :=
  PrincipalClass.all.all fun c => (l.principals c).isEmpty

end Limits

/-! ## Groups -/

/-- A class and a name in it. -/
structure Principal where
  kind : PrincipalClass
  name : Text
deriving DecidableEq, Repr

/-- Principals that are granted the same operations. -/
structure Group where
  operations : List Text
  principals : List Principal
deriving DecidableEq, Repr

/-- Adds a principal to the group of its operations, which is opened at the end if it is
not there. -/
def Group.add (ops : List Text) (p : Principal) : List Group → List Group
  | [] => [⟨ops, [p]⟩]
  | g :: gs =>
    if g.operations = ops then ⟨g.operations, g.principals ++ [p]⟩ :: gs
    else g :: Group.add ops p gs

/-- The places of operations in the vocabulary; none where one of them is not in it. -/
def Operations.places? : List Text → Option (List Nat)
  | [] => some []
  | op :: ops =>
    match operations.findIdx? (· == op), Operations.places? ops with
    | some i, some is => some (i :: is)
    | _, _ => none

/-- The order of operation lists by their places in the vocabulary, shorter ones first where
one begins the other. -/
def Operations.placesLe : List Nat → List Nat → Bool
  | [], _ => true
  | _ :: _, [] => false
  | i :: is, j :: js => i < j || (i == j && Operations.placesLe is js)

namespace Limits

/-- All principals with their operations, ordered by class and then by name. -/
def ordered (l : Limits) : List (Principal × List Text) :=
  PrincipalClass.all.flatMap fun c =>
    let byName := Sorted.sort (fun a b => Text.le a.1 b.1) (l.principals c)
    byName.map fun e => (⟨c, e.1⟩, e.2)

/-- The groups in the order in which their first principals come. -/
def unorderedGroups (l : Limits) : List Group :=
  l.ordered.foldl (fun gs e => Group.add e.2 e.1 gs) []

/-- The groups in the order of their operations. -/
def groups (l : Limits) : Except Fault (List Group) := do
  let placed ← l.unorderedGroups.mapM fun g =>
    match Operations.places? g.operations with
    | some places => pure (places, g)
    | none => throw Fault.noOperation
  return (Sorted.sort (fun a b => Operations.placesLe a.1 b.1) placed).map (·.2)

end Limits

end AccessPolicy
