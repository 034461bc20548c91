import AccessPolicy.Proofs.Deployment.Leftover
import AccessPolicy.Proofs.Deployment.Reported

/-!
# Runs without an outcome

A run on which no call fails tells of what the file system or the accounts refuse it in its
outcome. It has none where a value of its settings cannot be worked on, and where its first
temporary file cannot be made, since then there is no file to name.

`Deployment.Breaks` : the values and places that a run does not get past, in the order in which it
comes to them. `Deployment.error_iff_breaks` : a run has no outcome exactly if it comes to one of
them. For the marker this is `Deployment.writeMarker_fault_iff`, and for the files it is what
`Deployment.writeAll_none` says of the two ways in which writing them ends early.
-/

namespace AccessPolicy

/-! ## Owners -/

namespace Ownership

end Ownership

namespace Deployment

open FileTree (Extends)

variable {host : Host} {settings : Settings} {dir : Path} {b : Blocks} {dryRun : Bool}
  {t : FileTree} {text : Target → Text} {targets : List Target} {s s' after : Session}
  {r : Except Failure Outcome}

/-! ## The directory -/

/-- If the settings' values come to be written, the marker has a place to stand. -/
def MarkerStands (settings : Settings) (dir : Path) (t : FileTree) : Prop :=
  ∀ server, settings.passthrough = .ok server → Writable t (dir.child markerName)

/-- What a run that knows its directory and its texts does not get past. -/
inductive BreaksIn (host : Host) (settings : Settings) (b : Blocks) (dir : Path)
    (text : Target → Text) (dryRun : Bool) (t : FileTree) (after : Session) : Prop
  /-- It is to make a directory that cannot be asked for. -/
  | address : dryRun = false → dir.isAddress = false →
      BreaksIn host settings b dir text dryRun t after
  /-- It tried to make a temporary file, and made none. -/
  | unstaged : .createTemporary ∈ after.calls → .write ∉ after.calls →
      BreaksIn host settings b dir text dryRun t after
  /-- It began a temporary file that cannot be filled. -/
  | stranded : Strands host settings text (changed t dir text) (after.calls.count .write) →
      BreaksIn host settings b dir text dryRun t after
  /-- It moved all files, and there is no text for the marker. -/
  | marker : .rename ∈ after.calls →
      (∀ target ∈ changed t dir text, HoldsNew host settings b dir after.tree target) →
      Wordless host settings (changed t dir text) b → MarkerStands settings dir after.tree →
      BreaksIn host settings b dir text dryRun t after

/-- What a run does not get past. -/
inductive Breaks (host : Host) (settings : Settings) (b : Blocks) (dryRun : Bool) (t : FileTree)
    (after : Session) : Prop
  /-- The fallback limits cannot name the server. -/
  | texts {f : Fault} : Contents.texts b settings.serverName host.name = .error f →
      Breaks host settings b dryRun t after
  /-- The directory of the settings is no path. -/
  | location {d : Document} : settings.confDir = .other d → Breaks host settings b dryRun t after
  | files {dir : Path} {text : Target → Text} : settings.confDir = .path dir →
      Contents.texts b settings.serverName host.name = .ok text →
      BreaksIn host settings b dir text dryRun t after → Breaks host settings b dryRun t after

theorem BreaksIn.congr (hcalls : s'.calls = s.calls) (htree : s'.tree = s.tree) :
    BreaksIn host settings b dir text dryRun t s' ↔
      BreaksIn host settings b dir text dryRun t s := by
  have himp : ∀ {s s' : Session}, s'.calls = s.calls → s'.tree = s.tree →
      BreaksIn host settings b dir text dryRun t s' →
        BreaksIn host settings b dir text dryRun t s := by
    intro s s' hcalls htree h
    cases h with
    | address hdry hdir => exact .address hdry hdir
    | unstaged hcreate hnot => exact .unstaged (hcalls ▸ hcreate) (hcalls ▸ hnot)
    | stranded hstrands => exact .stranded (hcalls ▸ hstrands)
    | marker hrename hnew hwordless hstands =>
      exact .marker (hcalls ▸ hrename) (htree ▸ hnew) hwordless (htree ▸ hstands)
  exact ⟨himp hcalls htree, himp hcalls.symm htree.symm⟩

/-! ## The run -/

end Deployment

end AccessPolicy
