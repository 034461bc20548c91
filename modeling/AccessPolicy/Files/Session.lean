import AccessPolicy.Document.Fault
import AccessPolicy.Files.Tree

/-!
# Sessions on a file tree

A session is a file tree together with what has happened to it : the calls made so far, the
files staged beside their targets, and the log. An `Action` runs on a session and gives a
value or a `Failure`; what was changed before a failure stays changed.

Every call to the file system is announced by `Action.call`, which consults a `FaultPlan` :
the plan says which calls fail and how.
-/

namespace AccessPolicy

/-- The calls that a fault plan can make fail. -/
inductive Call where
  | read
  | makeDirectory
  | createTemporary
  | write
  | setMode
  | setOwner
  | rename
  | openMarker
deriving DecidableEq, Repr

/-- How a call or a step ends that does not succeed. -/
inductive Failure where
  /-- The file system refused. -/
  | system (message : Text)
  /-- An account is not known. -/
  | lookup (message : Text)
  /-- A failure that is already worded for the caller. -/
  | reported (message : Text)
  /-- A value that the step cannot work on. -/
  | fault (f : Fault)

/-- Which calls fail : the calls of one kind are counted from zero. -/
abbrev FaultPlan := Call → Nat → Option Failure

/-- The plan in which no call fails. -/
def FaultPlan.none : FaultPlan := fun _ _ => Option.none

/-- The plan in which one call fails. -/
def FaultPlan.single (c : Call) (index : Nat) (f : Failure) : FaultPlan :=
  fun c' n => if c' = c ∧ n = index then some f else Option.none

/-! ## Log -/

inductive LogLevel where
  | debug
  | info
  | warning
  | error
deriving DecidableEq, Repr

def LogLevel.name : LogLevel → String
  | .debug => "DEBUG"
  | .info => "INFO"
  | .warning => "WARNING"
  | .error => "ERROR"

structure LogLine where
  level : LogLevel
  message : Text
deriving DecidableEq, Repr

/-- The line as it is written. -/
def LogLine.text (l : LogLine) : Text :=
  "[" ++ l.level.name ++ "] " ++ l.message

/-! ## Sessions -/

/-- A temporary file and the path that it is to be moved to. -/
structure Staged where
  temporary : Place
  target : Path
deriving DecidableEq

structure Session where
  tree : FileTree
  calls : List Call := []
  staged : List Staged := []
  log : List LogLine := []

/-- A step that changes a session and ends in a value or a failure. -/
def Action (α : Type) : Type :=
  Session → Except Failure α × Session

namespace Action

def pure {α : Type} (a : α) : Action α :=
  fun s => (.ok a, s)

/-- One action after another; a failure ends both. -/
def bind {α β : Type} (x : Action α) (f : α → Action β) : Action β :=
  fun s =>
    match x s with
    | (.ok a, s') => f a s'
    | (.error e, s') => (.error e, s')

instance : Monad Action where
  pure := pure
  bind := bind

def fail {α : Type} (e : Failure) : Action α :=
  fun s => (.error e, s)

/-- Runs the handler on the failure of an action, on the session that the failure left. -/
def onFailure {α : Type} (x : Action α) (handler : Failure → Action α) : Action α :=
  fun s =>
    match x s with
    | (.ok a, s') => (.ok a, s')
    | (.error e, s') => handler e s'

/-- Runs the last action however the first one ends. -/
def endingWith {α : Type} (x : Action α) (last : Action Unit) : Action α :=
  fun s =>
    match x s with
    | (r, s') => (r, (last s').2)

def get : Action Session :=
  fun s => (.ok s, s)

def modify (f : Session → Session) : Action Unit :=
  fun s => (.ok (), f s)

/-- Announces a call, which fails if the plan says so. -/
def call (plan : FaultPlan) (c : Call) : Action Unit :=
  fun s =>
    let s' := { s with calls := s.calls ++ [c] }
    match plan c (s.calls.count c) with
    | some e => (.error e, s')
    | none => (.ok (), s')

/-- A look at the tree that the file system may refuse. -/
def query {α : Type} (p : Path) (f : FileTree → Except SystemError α) : Action α :=
  fun s =>
    match f s.tree with
    | .ok a => (.ok a, s)
    | .error e => (.error (.system (e.message p)), s)

/-- A change of the tree that the file system may refuse. -/
def change (p : Path) (f : FileTree → Except SystemError FileTree) : Action Unit :=
  fun s =>
    match f s.tree with
    | .ok t => (.ok (), { s with tree := t })
    | .error e => (.error (.system (e.message p)), s)

def note (level : LogLevel) (message : Text) : Action Unit :=
  modify fun s => { s with log := s.log ++ [⟨level, message⟩] }

/-- Lifts a result whose failure is a fault. -/
def ofFault {α : Type} : Except Fault α → Action α
  | .ok a => pure a
  | .error f => fail (.fault f)

/-- Runs an action on each member in order. -/
def forEach {α : Type} (f : α → Action Unit) : List α → Action Unit
  | [] => pure ()
  | a :: as => bind (f a) fun _ => forEach f as

end Action

end AccessPolicy
