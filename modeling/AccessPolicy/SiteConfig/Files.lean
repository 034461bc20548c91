import AccessPolicy.ConfigError
import AccessPolicy.Files.Session
import AccessPolicy.Settings
import AccessPolicy.Yaml.Load

/-!
# The site's files

The policy's override and the server's settings are YAML files of which either may be
missing. `SiteConfig.override` and `SiteConfig.settings` read them from a file tree.
-/

namespace AccessPolicy.SiteConfig

/-- The file of the server's settings, by its name in the configuration directory. -/
def settingsFile : Text := "site.yaml"

/-- The file of the policy's override, by its name in the configuration directory. -/
def policyFile : Text := "policy.yaml"

/-- Why a file is not read. -/
inductive Trouble where
  | config (e : ConfigError)
  | failure (f : Failure)

/-- A look at the tree that the file system may refuse. -/
def Trouble.ofSystem {α : Type} (p : Path) : Except SystemError α → Except Trouble α
  | .ok a => .ok a
  | .error .isDirectory => .error (.failure (.fault .directory))
  | .error e => .error (.failure (.system (e.message p)))

/-- Settings that a document does not give. -/
def Trouble.ofRejection : Settings.Rejection → Trouble
  | .config e => .config e
  | .fault f => .failure (.fault f)

/-- The entries of the mapping that a file's bytes hold; an empty file has none. -/
def entriesOf (p : Path) (bytes : List UInt8) : Except Trouble Entries :=
  match Yaml.load bytes with
  | .error .malformed => .error (.config (.invalidYaml p))
  | .error (.fault f) => .error (.failure (.fault f))
  | .ok .null => .ok []
  | .ok d =>
    match d.entries? with
    | some es => .ok es
    | none => .error (.config (.topLevelShape p d))

/-- The entries that a file holds; none where there is no file. -/
def entries? (t : FileTree) (p : Path) : Except Trouble (Option Entries) := do
  if ← Trouble.ofSystem p (t.hasNode p) then
    return some (← entriesOf p (← Trouble.ofSystem p (t.read p)))
  else return none

/-- The override in a file. -/
def override (t : FileTree) (p : Path) : Except Trouble Document := do
  return .mapping ((← entries? t p).getD [])

/-- The settings in a section of a file, where they are a mapping. -/
def settingsOf (p : Path) : Document → Except Trouble Settings
  | .null => .ok {}
  | d =>
    if d.isMapping then (Settings.ofDocument d).mapError Trouble.ofRejection
    else .error (.config (.serverShape p))

/-- The settings in a configuration directory. -/
def settings (t : FileTree) (directory : Path) : Except Trouble Settings := do
  let p := directory.child settingsFile
  match ← entries? t p with
  | none => return {}
  | some es => settingsOf p (es.getD "server")

end AccessPolicy.SiteConfig
