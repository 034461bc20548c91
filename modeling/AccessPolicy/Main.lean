import Std.Time.DateTime.Timestamp
import Std.Time.Date.PlainDate
import AccessPolicy.Command.Report

/-!
# The program

Reads the part of the file system that a request may look at into a file tree, runs the
request on it, and carries the changes of the tree over to the file system.
-/

namespace AccessPolicy.Program

/-! ## Reading -/

/-- The result of an action, unless it fails. -/
def attempt {α : Type} (x : IO α) : IO (Option α) := do
  try return some (← x)
  catch _ => return none

/-- What stands at a path of the file system. A directory opens but does not read. -/
def nodeAt (path : String) : IO (Option Node) := do
  match ← attempt (IO.FS.Handle.mk path .read) with
  | none => return none
  | some file =>
    match ← attempt file.readBinToEnd with
    | some bytes => return some (.file bytes.toList FileTree.defaultMode)
    | none => return some .directory

/-- The path and the directories above it, from the root. -/
def withAncestors (p : Path) : List Path :=
  (List.range (p.names.length + 1)).map fun n => { p with names := p.names.take n }

/-- The tree with what stands at the path and above it. -/
def readInto (t : FileTree) (p : Path) : IO FileTree :=
  (withAncestors p).foldlM (fun t q => do
    match t.resolve q, ← nodeAt q.text.unicode with
    | .ok (name :: names), some n => return t.set (name :: names) n
    | _, _ => return t) t

/-- The words at the starts of the lines of a file, up to a colon. -/
def accountNames (path : String) : IO (List Text) := do
  let lines := ((← attempt (IO.FS.lines path)).getD #[]).toList
  return lines.map fun line => .ofChars (line.toList.takeWhile (· != ':'))

/-- The directories in which a request may find the site's configuration. -/
def siteCandidates (r : Command.Request) (s : Command.Surroundings) : List Path :=
  match r.site, s.siteVariable with
  | some text, _ => [.ofText text]
  | none, some text =>
    [.ofText text, SiteConfig.sibling (.ofText s.program), SiteConfig.systemDirectory]
  | none, none => [SiteConfig.sibling (.ofText s.program), SiteConfig.systemDirectory]

/-- The directories to which a request may write. -/
def targetCandidates (r : Command.Request) (t : FileTree) (sites : List Path) : List Path :=
  match r.task with
  | some (.apply (some text) _ _) => [.ofText text]
  | some (.apply none _ _) => sites.filterMap fun site =>
    match SiteConfig.settings t site with
    | .ok { confDir := .path p, .. } => some p
    | _ => none
  | _ => []

/-- The files of a deployment in a directory. -/
def deploymentFiles (p : Path) : List Path :=
  (Target.all.map Target.fileName ++ [Deployment.markerName]).map p.child

/-! ## Writing -/

/-- Carries the change of what stands at a path over to the file system. -/
def carryOver (before after : FileTree) (p : Path) : IO Unit := do
  match (before.nodeAt p).toOption, (after.nodeAt p).toOption with
  | none, some .directory => IO.FS.createDir p.text.unicode
  | old, some (.file content mode) =>
    if old != some (.file content mode) then
      let target := p.text.unicode
      let temporary := target ++ ".new"
      IO.FS.writeBinFile temporary ⟨content.toArray⟩
      let access (n : Nat) : IO.AccessRight := ⟨n / 4 % 2 = 1, n / 2 % 2 = 1, n % 2 = 1⟩
      IO.setAccessRights temporary ⟨access (mode / 64), access (mode / 8), access mode⟩
      IO.FS.rename temporary target
  | _, _ => return ()

/-! ## Surroundings -/

/-- The current moment in universal time. -/
def currentMoment : IO Moment := do
  let microseconds := (← Std.Time.Timestamp.now).toNanosecondsSinceUnixEpoch.toInt.toNat / 1000
  let seconds := microseconds / 1000000
  let date := Std.Time.PlainDate.ofEpochDay (.ofNat (seconds / 86400))
  return ⟨⟨date.year.toInt.toNat, date.month.toNat, date.day.toNat⟩, seconds / 3600 % 24,
    seconds / 60 % 60, seconds % 60, microseconds % 1000000, some 0⟩

/-- The name of the host. -/
def hostName : IO String := do
  let text := (← attempt (IO.FS.readFile "/etc/hostname")).getD "localhost"
  return String.ofList (Text.trimBy Text.isBlank text.toList)

/-- Changes of owner are refused, by a message about the account where it is not known. -/
def host : IO Host := do
  let users ← accountNames "/etc/passwd"
  let groups ← accountNames "/etc/group"
  return {
    name := ← hostName
    timestamp := (← currentMoment).textWith "T"
    changeOwner := fun owner group => do
      Ownership.change users.contains groups.contains owner group
      throw (.system "[Errno 1] Operation not permitted") }

def surroundings : IO Command.Surroundings := do
  return {
    siteVariable := ← IO.getEnv siteVariable
    program := (Path.ofText (← IO.appPath).toString).parent.parent.text.unicode
    host := ← host
    duration := .int 0 }

/-! ## Running -/

/-- The line as it is written, with the time. -/
def logText (m : Moment) (l : LogLine) : String :=
  { m with microsecond := 0, offset := none }.textWith " " ++ " " ++ l.text.unicode

/-- What is shown for a run that ends in a failure. -/
def failureText : Failure → String
  | .system message => message.unicode
  | .lookup message => message.unicode
  | .reported message => message.unicode
  | .fault f => "internal error: " ++ (repr f).pretty

def runRequest (r : Command.Request) : IO UInt32 := do
  let s ← surroundings
  let sites := siteCandidates r s
  let policies := (r.policy.map Path.ofText).toList ++ sites.map (·.child SiteConfig.policyFile)
  let sources := policies ++ sites.map (·.child SiteConfig.settingsFile)
  let tree ← sources.foldlM readInto FileTree.empty
  let targets := (targetCandidates r tree sites).flatMap deploymentFiles
  let tree ← targets.foldlM readInto tree
  let report := Command.run r s tree
  (targets.flatMap withAncestors).eraseDups.forM (carryOver tree report.tree)
  let now ← currentMoment
  for l in report.log do IO.eprintln (logText now l)
  IO.print report.output.unicode
  match report.ending with
  | .ok code => return code.toUInt32
  | .error e =>
    IO.eprintln (failureText e)
    return 1

end AccessPolicy.Program

def main (arguments : List String) : IO UInt32 := do
  match AccessPolicy.Command.Request.ofArguments arguments with
  | .ok r => AccessPolicy.Program.runRequest r
  | .error .help =>
    IO.print AccessPolicy.Command.usageText.unicode
    return 0
  | .error .bad =>
    IO.eprint AccessPolicy.Command.usageText.unicode
    return 2
