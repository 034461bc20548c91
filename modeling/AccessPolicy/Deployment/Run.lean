import AccessPolicy.Deployment.Contents
import AccessPolicy.Deployment.Outcome
import AccessPolicy.Document.Json
import AccessPolicy.Files.Ownership
import AccessPolicy.Settings
import AccessPolicy.Text.Newlines
import AccessPolicy.Text.Utf8

/-!
# Deployment

Writing the generated files to their directory. The files that differ from what is there
are written to temporary files beside their targets, with permission bits and owner set;
only when all of them are staged are they moved into place, one by one. A marker file that
is rewritten after any change tells the server to reload.

`Deployment.run` is the whole. A refusal by the file system ends in an `Outcome` without
success; values that nobody checked may end it in another `Failure`.
-/

namespace AccessPolicy

/-- What a deployment asks of the host. -/
structure Host where
  /-- The full name of the host. -/
  name : Text
  /-- The time of the marker. -/
  timestamp : Text
  /-- How a change of owner and group ends. -/
  changeOwner : (owner group : Document) → Except Failure Unit
  /-- The permission bits that a change of owner or group leaves. -/
  keptBits : Nat → Nat := Ownership.keptBits

namespace Deployment

def markerName : Text := ".policy-applied.json"

/-! ## Comparing -/

/-- A defect of a file's text, as the reader of the text reports it. -/
def defectMessage (d : Utf8.Defect) : String :=
  let place :=
    if d.length = 1 then
      "byte 0x" ++ String.ofList (Text.hex 2 d.first.toNat) ++ " in position " ++
        toString d.position
    else
      "bytes in position " ++ toString d.position ++ "-" ++ toString (d.position + d.length - 1)
  let reason := match d.reason with
    | .invalidStart => "invalid start byte"
    | .invalidContinuation => "invalid continuation byte"
    | .unexpectedEnd => "unexpected end of data"
  "'utf-8' codec can't decode " ++ place ++ ": " ++ reason

/-- The text of a file that is there, with unified line ends; none where there is no file. -/
def currentText (plan : FaultPlan) (p : Path) : Action (Option Text) := do
  if ← Action.query p fun t => t.hasNode p then
    Action.call plan .read
    match Utf8.decode (← Action.query p fun t => t.read p) with
    | .ok text => return some (.ofChars (Text.unifyNewlines text.toList))
    | .error d => Action.fail (.system (defectMessage d))
  else return none

/-- A failure of the file system becomes a report that starts with these words. -/
def reportAs {α : Type} (words : Text) (x : Action α) : Action α :=
  x.onFailure fun e =>
    match e with
    | .system message => Action.fail (.reported (words ++ ": " ++ message))
    | e => Action.fail e

/-- The file differs from its new text. -/
def differs (plan : FaultPlan) (p : Path) (text : Text) : Action Bool := do
  let current ← reportAs ("Failed to read " ++ p.text) (currentText plan p)
  if current = some text then
    Action.note .debug ("Unchanged: " ++ p.text)
    return false
  else return true

/-- The files that differ from their new texts, in order. -/
def findChanged (plan : FaultPlan) (dir : Path) (text : Target → Text) :
    List Target → Action (List Target)
  | [] => return []
  | target :: targets => do
    let changed ← differs plan (dir.child target.fileName) (text target)
    let rest ← findChanged plan dir text targets
    return if changed then target :: rest else rest

/-! ## Making the directory -/

/-- Makes one directory. One that is already there is no failure. -/
def makeOne (plan : FaultPlan) (p : Path) : Action Unit :=
  Action.onFailure
    (do
      Action.call plan .makeDirectory
      Action.change p fun t => t.makeDirectory p)
    fun e => do
      let s ← Action.get
      match e with
      | .system _ => if s.tree.isDirectory p then return () else Action.fail e
      | e => Action.fail e

/-- The directory of a path is missing on the way to it. -/
def parentMissing (t : FileTree) (p : Path) : Bool :=
  match t.resolve p with
  | .error .noEntry => true
  | _ => false

/-- Makes a directory with all that is missing above it. The names are the path's own, the
last one first. -/
def makeAll (plan : FaultPlan) (root : Text) : (reversed : List Text) → Action Unit
  | [] => makeOne plan ⟨root, []⟩
  | name :: above => do
    let p : Path := ⟨root, (name :: above).reverse⟩
    if parentMissing (← Action.get).tree p then
      Action.call plan .makeDirectory
      makeAll plan root above
    makeOne plan p

def makeDirectories (plan : FaultPlan) (p : Path) : Action Unit :=
  if !p.text.isName then Action.fail (.fault .unencodable)
  else if p.text.contains '\x00' then Action.fail (.fault .nullCharacter)
  else makeAll plan p.root p.names.reverse

/-! ## Staging -/

/-- The permission bits that a document asks for. -/
def modeBits : Document → Except Fault Nat
  | .scalar (.int n) =>
    if -2147483648 ≤ n ∧ n ≤ 2147483647 then .ok (n % 4096).toNat else .error .modeRange
  | .scalar (.bool b) => .ok b.toNat
  | _ => .error .noMode

/-- Makes an empty temporary file for a target in the directory. -/
def createTemporary (plan : FaultPlan) (dir : Path) (target : Target) : Action Place := do
  Action.call plan .createTemporary
  let s ← Action.get
  let name := s.tree.freshName ("." ++ target.fileName ++ ".")
  let place ← Action.query dir fun t => t.resolve (dir.child name)
  Action.modify fun s => { s with tree := s.tree.set place (.file [] 0o600) }
  return place

/-- The bytes of a text. -/
def encoded (text : Text) : Except Fault (List UInt8) :=
  match text.string? with
  | some s => .ok (Utf8.encode s)
  | none => .error .unencodable

/-- Writes the temporary file and sets its permission bits and owner. -/
def fillTemporary (plan : FaultPlan) (host : Host) (settings : Settings) (text : Text)
    (temporary : Place) : Action Unit := do
  Action.call plan .write
  let bytes ← Action.ofFault (encoded text)
  Action.modify fun s => { s with tree := s.tree.set temporary (.file bytes 0o600) }
  Action.call plan .setMode
  let mode ← Action.ofFault (modeBits settings.fileMode)
  Action.modify fun s => { s with tree := s.tree.setMode temporary mode }
  if settings.owner.isGiven || settings.group.isGiven then
    Action.call plan .setOwner
    match host.changeOwner settings.owner settings.group with
    | .ok () =>
      Action.modify fun s => { s with tree := s.tree.setMode temporary (host.keptBits mode) }
    | .error e => Action.fail e

/-- Removes a temporary file. -/
def discard (temporary : Place) : Action Unit :=
  Action.modify fun s => { s with tree := s.tree.erase temporary }

/-- Stages one file. Where it cannot be filled because of the file system or the owner, the
temporary file goes again. -/
def stage (plan : FaultPlan) (host : Host) (settings : Settings) (dir : Path)
    (text : Target → Text) (target : Target) : Action Unit := do
  let path := dir.child target.fileName
  let temporary ← createTemporary plan dir target
  (fillTemporary plan host settings (text target) temporary).onFailure fun e => do
    match e with
    | .system message =>
      discard temporary
      Action.fail (.reported ("Failed to write " ++ path.text ++ ": " ++ message))
    | .lookup message =>
      discard temporary
      Action.fail (.reported ("Failed to set ownership on " ++ path.text ++ ": " ++ message))
    | e => Action.fail e
  Action.modify fun s => { s with staged := s.staged ++ [⟨temporary, path⟩] }

/-! ## Moving into place -/

/-- Moves one staged file into place. -/
def install (plan : FaultPlan) (staged : Staged) : Action Unit := do
  Action.call plan .rename
  Action.change staged.target fun t => t.rename staged.temporary staged.target
  Action.modify fun s => { s with staged := s.staged.drop 1 }
  Action.note .info ("Wrote " ++ staged.target.text)

/-- Removes the temporary files that were not moved. -/
def discardStaged : Action Unit := do
  let s ← Action.get
  Action.forEach (fun staged => discard staged.temporary) s.staged
  Action.modify fun s => { s with staged := [] }

/-- Stages all files and then moves them into place. A refusal outside the staging of one
file is reported under the name of the first file still staged. -/
def writeAll (plan : FaultPlan) (host : Host) (settings : Settings) (dir : Path)
    (text : Target → Text) (targets : List Target) : Action Unit :=
  Action.endingWith
    (Action.onFailure
      (do
        Action.forEach (stage plan host settings dir text) targets
        Action.forEach (install plan) (← Action.get).staged)
      fun e => do
        match e with
        | .system message =>
          match (← Action.get).staged with
          | [] => Action.fail (.fault .nothingStaged)
          | first :: _ =>
            Action.fail (.reported ("Failed to write " ++ first.target.text ++ ": " ++ message))
        | e => Action.fail e)
    discardStaged

/-! ## The marker -/

/-- What the marker says. -/
def markerEntries (host : Host) (targets : List Target) (b : Blocks) (server : Entries) :
    Entries := [
  (.text "status", .text "applied"),
  (.text "timestamp", .text host.timestamp),
  (.text "changed", .sequence (targets.map fun target => .text target.fileName)),
  (.text "auth_empty", .bool b.auth.isEmpty),
  (.text "limit_fallback", .bool b.limits.isEmpty),
  (.text "server", .mapping server)]

/-- Writes the marker. A value that cannot be written ends it in the middle. -/
def writeMarker (plan : FaultPlan) (host : Host) (settings : Settings) (dir : Path)
    (targets : List Target) (b : Blocks) : Action Unit := do
  let path := dir.child markerName
  let server ← Action.ofFault settings.passthrough
  let written := (Document.mapping (markerEntries host targets b server)).json
  reportAs ("Failed to write " ++ path.text) do
    Action.call plan .openMarker
    Action.change path fun t => t.write path []
    Action.call plan .write
    Action.change path fun t => t.write path (Utf8.encode written.text)
  match written.fault with
  | none => Action.note .info ("Wrote policy-applied marker to " ++ path.text)
  | some f => Action.fail (.fault f)

/-! ## The whole -/

/-- A refusal by the file system becomes an outcome without success. -/
def settle (dryRun : Bool) (x : Action Outcome) : Action Outcome :=
  x.onFailure fun e =>
    match e with
    | .system message => Action.pure { success := false, message := message, dryRun := dryRun }
    | .reported message => Action.pure { success := false, message := message, dryRun := dryRun }
    | e => Action.fail e

/-- The outcome where nothing went wrong. -/
def outcome (dir : Path) (b : Blocks) (dryRun : Bool) (targets : List Target) (message : Text) :
    Outcome where
  success := true
  message := message
  changed := targets.map fun target => dir.child target.fileName
  usedFallback := b.limits.isEmpty
  authWritten := !b.auth.isEmpty
  dryRun := dryRun

/-- Writes the changed files and the marker. -/
def apply (plan : FaultPlan) (host : Host) (settings : Settings) (dir : Path) (b : Blocks)
    (text : Target → Text) (targets : List Target) : Action Outcome := do
  makeDirectories plan dir
  writeAll plan host settings dir text targets
  writeMarker plan host settings dir targets b
  return outcome dir b false targets
    ("Wrote " ++ toString targets.length ++ " file(s) to " ++ dir.text)

/-- Deploys the blocks to a directory. -/
def runIn (plan : FaultPlan) (host : Host) (settings : Settings) (dir : Path) (b : Blocks)
    (text : Target → Text) (dryRun : Bool) : Action Outcome := do
  let found ← (do return Except.ok (← findChanged plan dir text Target.all) :
    Action (Except Outcome (List Target))).onFailure fun e =>
      match e with
      | .reported message =>
        Action.pure (.error { success := false, message := message, dryRun := dryRun })
      | e => Action.fail e
  match found with
  | .error failed => return failed
  | .ok targets =>
    if dryRun then
      return outcome dir b true targets
        ("Dry-run: " ++ toString targets.length ++ " file(s) would change in " ++ dir.text)
    else if targets.isEmpty then
      return outcome dir b false [] ("Policy unchanged in " ++ dir.text)
    else
      let done ← settle false (apply plan host settings dir b text targets)
      if done.success && b.limits.isEmpty then
        Action.note .warning
          "No principals in policy; wrote fallback limit (loopback and local host only)"
      return done

/-- Deploys the blocks as the settings say. -/
def run (plan : FaultPlan) (host : Host) (settings : Settings) (b : Blocks) (dryRun : Bool) :
    Action Outcome := do
  let text ← Action.ofFault (Contents.texts b settings.serverName host.name)
  match settings.confDir with
  | .path dir => runIn plan host settings dir b text dryRun
  | .other _ => Action.fail (.fault .noPath)

end Deployment

end AccessPolicy
