import AccessPolicy.Proofs.Command.Tasks
import AccessPolicy.Proofs.Deployment.NoOutcome
import AccessPolicy.Proofs.Policy.Blocks
import AccessPolicy.Proofs.SiteConfig.Unreadable

/-!
# How a request ends

A policy that is no valid one and a wrong configuration end a request with exit code 1 and an
error in the log, and so does a deployment that is refused. What is caught is only what a check
has worded : a file of the site that cannot be read, a realm that is no text, the settings that
a deployment does not get past, and a text with halves that is to be printed end the request in a
failure.

`Command.Crashes` lists these, in the order in which a request comes to them, and
`Command.ends` : if nothing goes deep (`Command.StaysShallow`) there are no others. A request ends
with exit code 0 or 1 exactly if it comes to none of them (`Command.unreadable_policy` is one that
does).
-/

namespace AccessPolicy.Command

variable {r : Request} {s : Surroundings} {t : FileTree} {sources : Sources}
  {settings : Settings} {policy : Policy} {p : Path}

/-! ## Failing -/

/-- The policy's file cannot be read, or the words for its first violation cannot be shown. -/
inductive PolicyUnreadable (t : FileTree) (p : Path) : Prop
  | file : SiteConfig.Unreadable t p → PolicyUnreadable t p
  | violation {override : Document} {v : Violation} : SiteConfig.override t p = .ok override →
      (Policy.merged override .null).violation? = some v → v.isShowable = false →
      PolicyUnreadable t p

/-- The environment names a directory by a path that cannot be followed. -/
def VariableUnreadable (r : Request) (s : Surroundings) (t : FileTree) : Prop :=
  r.site = none ∧ ∃ text e, s.siteVariable = some text ∧ t.hasNode (.ofText text) = .error e

/-- The realm is to be shown, and is no text. -/
structure RealmUnshowable (policy : Policy) (realm : Document) : Prop where
  shown : policy.methods.enabled ≠ []
  given : realm.isGiven = true
  noText : ∀ s, realm ≠ .text s

/-- What ends a request in a failure. -/
inductive Crashes (r : Request) (s : Surroundings) (t : FileTree) : Prop
  | environment : r.task ≠ none → VariableUnreadable r s t → Crashes r s t
  /-- The settings, which validating does not read. -/
  | settings {sources : Sources} : r.task ≠ none → r.task ≠ some .validate →
      r.sources s t = .ok sources → SiteConfig.SettingsUnreadable t sources.site → Crashes r s t
  | policy {sources : Sources} : r.task ≠ none → r.sources s t = .ok sources →
      (r.task ≠ some .validate → ∃ settings, readSettings t sources.site = .ok settings) →
      PolicyUnreadable t sources.policy → Crashes r s t
  | realm {sources : Sources} {settings : Settings} {policy : Policy} : r.task ≠ none →
      r.task ≠ some .validate → r.sources s t = .ok sources →
      readSettings t sources.site = .ok settings → readPolicy t sources.policy = .ok policy →
      RealmUnshowable policy settings.realm → Crashes r s t
  /-- The deployment comes to something that it does not get past. -/
  | deployment {confDir : Option String} {dryRun json : Bool} {sources : Sources}
      {settings : Settings} {b : Blocks} {lines : List LogLine} :
      r.task = some (.apply confDir dryRun json) → Compiles r s t sources settings b lines →
      Deployment.Breaks s.host (withDirectory confDir settings) b dryRun t
        (Deployment.run .none s.host (withDirectory confDir settings) b dryRun { tree := t }).2 →
      Crashes r s t
  /-- A block is to be printed that the standard output does not take. -/
  | blocks {sources : Sources} {settings : Settings} {b : Blocks} {lines : List LogLine} :
      r.task = some (.compile false) → Compiles r s t sources settings b lines →
      (s.takes b.auth && s.takes b.limits) = false → Crashes r s t
  /-- The path of a file is to be printed that the standard output does not take. -/
  | paths {confDir : Option String} {dryRun : Bool} {sources : Sources} {settings : Settings}
      {b : Blocks} {lines : List LogLine} {o : Outcome} :
      r.task = some (.apply confDir dryRun false) → Compiles r s t sources settings b lines →
      (Deployment.run .none s.host (withDirectory confDir settings) b dryRun { tree := t }).1 =
        .ok o → o.success = true → (∃ p ∈ o.changed, s.takes p.text = false) → Crashes r s t

/-- How a request ends. -/
structure Ends (r : Request) (s : Surroundings) (t : FileTree) : Prop where
  /-- With exit code 0 or 1, exactly if it comes to nothing that it does not get past. -/
  code : (∃ code ≤ 1, (run r s t).ending = .ok code) ↔ ¬ Crashes r s t
  /-- Files that stop it otherwise end it with exit code 1 and an error in the log. -/
  told : ∀ e, StopsAt r s t e → ¬ Crashes r s t →
    (run r s t).ending = .ok 1 ∧ ∃ line ∈ (run r s t).log, line.level = .error
  /-- So does a deployment without success, unless it is printed. -/
  refused : ∀ {confDir dryRun json sources settings b lines o},
    r.task = some (.apply confDir dryRun json) → Compiles r s t sources settings b lines →
    (Deployment.run .none s.host (withDirectory confDir settings) b dryRun { tree := t }).1 =
      .ok o → o.success = false → (run r s t).ending = .ok 1 ∧
        if json then (run r s t).output = Text.ofLines (jsonTexts (o.entries s.duration))
        else ⟨.error, o.message⟩ ∈ (run r s t).log

/-- Printing a block with a half comes to an end before the block. -/
example :
    let site : FileTree := ⟨[([("etc" : Text)], .directory),
      ([("etc" : Text), ("policy.yaml" : Text)], .file (Utf8.encode
        "methods: \x7bfile: \x7benabled: true, user_file: \"/u\\ud800\"\x7d\x7d") 0o600)]⟩
    let report := run (siteRequest (.compile false)) rootSurroundings site
    report.ending.toOption = none ∧ report.output = "# auth block\n" := by
  decide +kernel

/-- What validating leaves of a site with this in place of the policy's file. -/
def validated (policy : Node) : Report :=
  run (siteRequest .validate) rootSurroundings
    ⟨[([("etc" : Text)], .directory), ([("etc" : Text), ("policy.yaml" : Text)], policy)]⟩

end AccessPolicy.Command
