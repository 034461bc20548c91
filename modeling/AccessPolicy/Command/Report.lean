import AccessPolicy.Command.Arguments
import AccessPolicy.Deployment.Run
import AccessPolicy.Policy.Compile
import AccessPolicy.SiteConfig
import AccessPolicy.SiteConfig.Files

/-!
# Running the command

A `Request` runs on a file tree and leaves a `Report` : how the run ended, what it printed
and logged, and the tree as it is then. A policy that is no valid one and a wrong
configuration end a run with exit code 1 and an error in the log; other troubles end it in a
`Failure`. Only the task of applying a policy changes the tree.

What a task prints it prints text by text, and the first one that the standard output does not
take ends the run in a failure (`Surroundings.ending`). The output is in UTF-8. Strictly that
has no bytes for a half, but an output may also write some halves as the bytes that they stand
for in names of files.
-/

namespace AccessPolicy.Command

/-- What a run finds around it, apart from the files. The environment is Unicode text, as the
command line is. -/
structure Surroundings where
  /-- The environment's variable for the configuration directory. -/
  siteVariable : Option String
  /-- The directory of the program. -/
  program : String
  host : Host
  /-- The halves that the standard output takes. -/
  takesHalf : Fin 0x800 → Bool := fun _ => false
  /-- How long the run is said to take. -/
  duration : Document

/-- What a run leaves. -/
structure Report where
  /-- The exit code, where the run came to an end of its own. -/
  ending : Except Failure Nat
  output : Text
  log : List LogLine
  tree : FileTree

/-! ## Printing -/

namespace Surroundings

variable (s : Surroundings)

/-- The standard output takes the code point. -/
def takesPoint : CodePoint → Bool
  | .char _ => true
  | .half n => s.takesHalf n

/-- The standard output takes the text. -/
def takes (t : Text) : Bool :=
  t.all s.takesPoint

/-- What comes out of printing texts, each with a line feed after it. -/
def printed (texts : List Text) : Text :=
  Text.ofLines (texts.takeWhile s.takes)

/-- How a task ends that prints texts and then has an exit code. -/
def ending (texts : List Text) (code : Nat) : Except Failure Nat :=
  if texts.all s.takes then .ok code else .error (.fault .unencodable)

end Surroundings

/-! ## Early ends -/

/-- Why a task ends early. -/
inductive Stop where
  | violation (v : Violation)
  | config (e : ConfigError)
  | failure (f : Failure)

def Stop.ofTrouble : SiteConfig.Trouble → Stop
  | .config e => .config e
  | .failure f => .failure f

def Stop.ofRejection : Rejection → Stop
  | .violation v => .violation v
  | .fault f => .failure (.fault f)

/-- The report of a task that ends early. -/
def Stop.report (tree : FileTree) (log : List LogLine) : Stop → Report
  | .violation v =>
    ⟨.ok 1, "", log ++ [⟨.error, "Invalid policy at " ++ v.path ++ ": " ++ v.reason⟩], tree⟩
  | .config e => ⟨.ok 1, "", log ++ [⟨.error, "Configuration error: " ++ e.message⟩], tree⟩
  | .failure f => ⟨.error f, "", log, tree⟩

/-! ## Paths -/

/-- The configuration directory that is found where none is given. -/
def foundDirectory (s : Surroundings) (t : FileTree) : Except Stop Path := do
  match s.siteVariable with
  | none => pure ()
  | some text =>
    let _ ← (SiteConfig.Trouble.ofSystem (.ofText text) (t.hasNode (.ofText text))).mapError
      Stop.ofTrouble
  (SiteConfig.directory s.siteVariable (.ofText s.program) t.isDirectory).mapError Stop.config

/-- The paths that a request works on. -/
structure Sources where
  site : Path
  policy : Path

/-- The configuration directory and the policy file of a request. -/
def Request.sources (r : Request) (s : Surroundings) (t : FileTree) : Except Stop Sources := do
  let site ← match r.site with
    | some text => pure (Path.ofText text)
    | none => foundDirectory s t
  match r.policy with
  | some text => return ⟨site, .ofText text⟩
  | none => return ⟨site, site.child SiteConfig.policyFile⟩

/-! ## Steps -/

def readSettings (t : FileTree) (site : Path) : Except Stop Settings :=
  (SiteConfig.settings t site).mapError Stop.ofTrouble

/-- The validated policy of the override in a file. -/
def readPolicy (t : FileTree) (p : Path) : Except Stop Policy := do
  let override ← (SiteConfig.override t p).mapError Stop.ofTrouble
  (Policy.resolve override .null).mapError Stop.ofRejection

/-- What the log says about a block. -/
def blockState (block : Text) : Text :=
  if block.isEmpty then "empty" else "ok"

/-- What the log says about the groups of a policy. -/
def groupLines (l : Limits) : List LogLine :=
  if l.isEmpty then []
  else
    match l.groups with
    | .error _ => []
    | .ok gs =>
      [⟨.debug, "Compiled " ++ toString gs.length ++ " limit group(s) covering " ++
        Text.joined " " (Operations.canonical (Directive.granted gs))⟩]

/-- The blocks of the override in a file, and what the log says about them. -/
def compilePolicy (t : FileTree) (p : Path) (realm : Document) :
    Except Stop (Blocks × List LogLine) := do
  let policy ← readPolicy t p
  let b ← (policy.blocks realm).mapError fun f => Stop.failure (.fault f)
  let states := "auth=" ++ blockState b.auth ++ " limits=" ++ blockState b.limits
  return (b, groupLines policy.limits ++ [⟨.debug, "Compiled policy: " ++ states⟩])

/-! ## Texts -/

/-- A document as JSON, in one text. -/
def jsonTexts (es : Entries) : List Text :=
  [((Document.mapping es).json.text : Text)]

/-- What is printed about a valid policy. -/
def policyTexts (path : Path) (p : Policy) : List Text :=
  let kinds := p.methods.enabled.map MethodKind.name
  let methods : Text := if kinds.isEmpty then "(none)" else Text.joined ", " kinds
  let counts : List Text := PrincipalClass.all.map fun c =>
    "  " ++ c.name ++ ": " ++ toString (p.limits.principals c).length
  ("Policy valid: " ++ path.text) :: ("  Auth methods: " ++ methods) :: counts

/-- A block, or what is printed in place of an empty one. -/
def blockOr (instead block : Text) : Text :=
  if block.isEmpty then instead else block

/-- The blocks as they are printed. -/
def blockTexts (b : Blocks) : List Text :=
  ["# auth block", blockOr "# (empty: no authentication method enabled)\n" b.auth,
    "# limit block", blockOr "# (empty: fallback limit applies)\n" b.limits]

/-- The blocks as entries. -/
def blockEntries (b : Blocks) : Entries :=
  [(.text "auth_block", .text b.auth), (.text "limit_block", .text b.limits)]

/-- What is printed about the files that an outcome lists. -/
def changeTexts (o : Outcome) : List Text :=
  o.changed.map fun p =>
    "  " ++ (if o.dryRun then "would write" else "wrote") ++ ": " ++ p.text

/-- What is printed about an outcome. -/
def outcomeTexts (json : Bool) (duration : Document) (o : Outcome) : List Text :=
  if json then jsonTexts (o.entries duration)
  else if o.success then changeTexts o
  else []

/-- What is logged about an outcome that is not printed whole. -/
def outcomeLine (o : Outcome) : LogLine :=
  ⟨if o.success then .info else .error, o.message⟩

/-! ## Tasks -/

/-- Validates the policy. -/
def validate (r : Request) (s : Surroundings) (t : FileTree) : Except Stop (List Text) := do
  let sources ← r.sources s t
  return policyTexts sources.policy (← readPolicy t sources.policy)

/-- Compiles the policy. -/
def compile (r : Request) (s : Surroundings) (t : FileTree) :
    Except Stop (Blocks × List LogLine) := do
  let sources ← r.sources s t
  let settings ← readSettings t sources.site
  compilePolicy t sources.policy settings.realm

/-- The settings with another directory, if one is given. -/
def withDirectory (confDir : Option String) (settings : Settings) : Settings :=
  match confDir with
  | some text => { settings with confDir := .path (.ofText text) }
  | none => settings

/-- The report of a deployment that came to an outcome. -/
def outcomeReport (json : Bool) (s : Surroundings) (log : List LogLine) (tree : FileTree)
    (o : Outcome) : Report :=
  let texts := outcomeTexts json s.duration o
  ⟨s.ending texts (if o.success then 0 else 1), s.printed texts,
    if json then log else log ++ [outcomeLine o], tree⟩

/-- Compiles the policy and deploys the blocks. -/
def apply (confDir : Option String) (dryRun json : Bool) (r : Request) (s : Surroundings)
    (t : FileTree) : Report :=
  match (do
    let sources ← r.sources s t
    return (sources.policy, withDirectory confDir (← readSettings t sources.site)) :
    Except Stop (Path × Settings)) with
  | .error e => e.report t []
  | .ok (policy, settings) =>
    let start : List LogLine := [⟨.info, "Compiling policy from " ++ policy.text⟩]
    match compilePolicy t policy settings.realm with
    | .error e => e.report t start
    | .ok (b, lines) =>
      match Deployment.run .none s.host settings b dryRun { tree := t } with
      | (.ok o, after) =>
        outcomeReport json s (start ++ lines ++ after.log) after.tree o
      | (.error e, after) => ⟨.error e, "", start ++ lines ++ after.log, after.tree⟩

/-- The lines that the log shows. -/
def shownLog (verbose : Bool) (log : List LogLine) : List LogLine :=
  if verbose then log else log.filter fun l => l.level != .debug

/-- How the command is used. -/
def usageText : Text :=
  Text.ofLines [
    "usage: httpd-policy [-h] [--etc DIR] [--verbose] TASK ...",
    "",
    "Compile access-control policy into web server directives",
    "",
    "tasks:",
    "  validate [--policy FILE]",
    "  compile [--policy FILE] [--json]",
    "  apply [--policy FILE] [--conf-dir DIR] [--dry-run] [--json]"]

/-- Runs a task; without one, tells how the command is used. -/
def runTask (r : Request) (s : Surroundings) (t : FileTree) : Option Task → Report
  | none => ⟨.ok 1, usageText, [], t⟩
  | some .validate =>
    match validate r s t with
    | .ok texts => ⟨s.ending texts 0, s.printed texts, [], t⟩
    | .error e => e.report t []
  | some (.compile json) =>
    match compile r s t with
    | .ok (b, log) =>
      let texts := if json then jsonTexts (blockEntries b) else blockTexts b
      ⟨s.ending texts 0, s.printed texts, log, t⟩
    | .error e => e.report t []
  | some (.apply confDir dryRun json) => apply confDir dryRun json r s t

/-- Runs a request on a file tree. -/
def run (r : Request) (s : Surroundings) (t : FileTree) : Report :=
  let report := runTask r s t r.task
  { report with log := shownLog r.verbose report.log }

end AccessPolicy.Command
