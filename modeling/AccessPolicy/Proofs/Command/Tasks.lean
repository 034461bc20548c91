import AccessPolicy.Proofs.Command.Printing
import AccessPolicy.Proofs.Deployment.DryRun
import AccessPolicy.Proofs.Deployment.FaultedWrite
import AccessPolicy.Proofs.Policy.Compiled

/-!
# Tasks on one tree

The tasks take the same steps on a tree : they find the configuration, read the settings, which
validating leaves out, and read the policy. Where one of these steps fails, the task stops with its
report and has touched nothing (`Command.runTask_of_stopsAt`).

Applying goes on from the blocks that compiling gives (`Command.apply_cases`), and compiling
goes on from the policy that validating accepts. So what a run changes on a tree is a policy that
validating accepts there (`Command.guarded`).
-/

namespace AccessPolicy.Command

variable {r r' : Request} {s : Surroundings} {t : FileTree} {sources : Sources}
  {settings : Settings} {b : Blocks} {lines : List LogLine} {confDir : Option String}
  {dryRun json : Bool}

/-! ## Early ends -/

/-- Why a request stops early : its configuration is not found, the settings are wrong, which
validating does not read, or the policy is. -/
inductive StopsAt (r : Request) (s : Surroundings) (t : FileTree) : Stop → Prop
  | sources {e : Stop} : r.task ≠ none → r.sources s t = .error e → StopsAt r s t e
  | settings {e : Stop} {sources : Sources} : r.task ≠ none → r.task ≠ some .validate →
      r.sources s t = .ok sources → readSettings t sources.site = .error e → StopsAt r s t e
  | policy {e : Stop} {sources : Sources} : r.task ≠ none → r.sources s t = .ok sources →
      (r.task ≠ some .validate → ∃ settings, readSettings t sources.site = .ok settings) →
      readPolicy t sources.policy = .error e → StopsAt r s t e

/-- The stop is a policy that is no valid one, or a wrong configuration. -/
def Stop.IsReported : Stop → Prop
  | .violation _ => True
  | .config _ => True
  | .failure _ => False

@[simp]
theorem Stop.report_tree (e : Stop) (log : List LogLine) : (e.report t log).tree = t := by
  cases e <;> rfl

theorem Stop.IsReported.ending {e : Stop} (h : e.IsReported) (log : List LogLine) :
    (e.report t log).ending = .ok 1 := by
  cases e with
  | violation v => rfl
  | config e => rfl
  | failure f => exact h.elim

theorem Stop.report_ending_ne (e : Stop) (log : List LogLine) :
    (e.report t log).ending ≠ .ok 0 := by
  cases e <;> simp [Stop.report]

theorem compilePolicy_of_readPolicy {p : Path} {realm : Document} {e : Stop}
    (h : readPolicy t p = .error e) : compilePolicy t p realm = .error e := by
  rw [compilePolicy, h]
  rfl

theorem validate_of_stopsAt {e : Stop} (h : StopsAt r s t e) (htask : r.task = some .validate) :
    validate r s t = .error e := by
  cases h with
  | sources _ he => simp only [validate, he, bind, Except.bind]
  | settings _ hother _ _ => exact absurd htask hother
  | policy _ hs _ he => simp only [validate, hs, he, bind, Except.bind]

theorem compile_of_stopsAt {e : Stop} (h : StopsAt r s t e) (htask : r.task ≠ some .validate) :
    compile r s t = .error e := by
  cases h with
  | sources _ he => simp only [compile, he, bind, Except.bind]
  | settings _ _ hs he => simp only [compile, hs, he, bind, Except.bind]
  | policy _ hs hsettings he =>
    obtain ⟨settings, hsettings⟩ := hsettings htask
    simp only [compile, hs, hsettings, bind, Except.bind]
    exact compilePolicy_of_readPolicy he

/-! ## Compiling and applying -/

/-- What compiling meets on the way to the blocks. -/
structure Compiles (r : Request) (s : Surroundings) (t : FileTree) (sources : Sources)
    (settings : Settings) (b : Blocks) (lines : List LogLine) : Prop where
  found : r.sources s t = .ok sources
  read : readSettings t sources.site = .ok settings
  compiled : compilePolicy t sources.policy settings.realm = .ok (b, lines)

theorem Compiles.compile_eq (h : Compiles r s t sources settings b lines) :
    compile r s t = .ok (b, lines) := by
  simp only [compile, h.found, h.read, h.compiled, bind, Except.bind]

theorem exists_compiles (h : compile r s t = .ok (b, lines)) :
    ∃ sources settings, Compiles r s t sources settings b lines := by
  obtain ⟨sources, hfound, h⟩ := bind_eq_ok h
  obtain ⟨settings, hread, h⟩ := bind_eq_ok h
  exact ⟨sources, settings, hfound, hread, h⟩

theorem exists_readPolicy {p : Path} {realm : Document}
    (h : compilePolicy t p realm = .ok (b, lines)) : ∃ policy, readPolicy t p = .ok policy := by
  obtain ⟨policy, hpolicy, -⟩ := bind_eq_ok h
  exact ⟨policy, hpolicy⟩

/-- What is reported of a deployment that came so far. -/
structure Reports (json : Bool) (s : Surroundings) (x : Except Failure Outcome × Session)
    (report : Report) : Prop where
  tree : report.tree = x.2.tree
  ending : report.ending = x.1 >>= fun o =>
    s.ending (outcomeTexts json s.duration o) (if o.success then 0 else 1)
  output : ∀ o, x.1 = .ok o → report.output = s.printed (outcomeTexts json s.duration o)

theorem reports_outcomeReport (json : Bool) (s : Surroundings) (log : List LogLine) (o : Outcome)
    (after : Session) :
    Reports json s (.ok o, after) (outcomeReport json s log after.tree o) :=
  ⟨rfl, rfl, fun _ ho => Except.ok.inj ho ▸ rfl⟩

@[simp]
theorem withDirectory_realm (confDir : Option String) (settings : Settings) :
    (withDirectory confDir settings).realm = settings.realm := by
  cases confDir <;> rfl

theorem apply_of_error {e : Stop} (h : compile r s t = .error e) :
    ∃ log, apply confDir dryRun json r s t = e.report t log := by
  unfold compile at h
  unfold apply
  cases hfound : r.sources s t with
  | error e' =>
    simp only [hfound, bind, Except.bind] at h ⊢
    exact ⟨[], by rw [Except.error.inj h]⟩
  | ok sources =>
    cases hread : readSettings t sources.site with
    | error e' =>
      simp only [hfound, hread, bind, Except.bind] at h ⊢
      exact ⟨[], by rw [Except.error.inj h]⟩
    | ok settings =>
      simp only [hfound, hread, bind, Except.bind] at h
      simp only [hread, bind, Except.bind, pure, Except.pure, withDirectory_realm, h]
      exact ⟨_, rfl⟩

/-- Where compiling gives blocks, applying deploys them. -/
theorem reports_apply (h : Compiles r s t sources settings b lines) :
    Reports json s
      (Deployment.run .none s.host (withDirectory confDir settings) b dryRun { tree := t })
      (apply confDir dryRun json r s t) := by
  simp only [apply, h.found, h.read, h.compiled, bind, Except.bind, pure, Except.pure,
    withDirectory_realm]
  split
  · next o after hrun =>
    rw [hrun]
    exact reports_outcomeReport ..
  · next e after hrun =>
    rw [hrun]
    exact ⟨rfl, rfl, fun o ho => absurd ho (by simp)⟩

/-- Applying a policy stops where compiling does, or it deploys the blocks. -/
theorem apply_cases (confDir : Option String) (dryRun json : Bool) (r : Request)
    (s : Surroundings) (t : FileTree) :
    (∃ e log, compile r s t = .error e ∧ apply confDir dryRun json r s t = e.report t log) ∨
      ∃ sources settings b lines, Compiles r s t sources settings b lines ∧
        Reports json s
          (Deployment.run .none s.host (withDirectory confDir settings) b dryRun { tree := t })
          (apply confDir dryRun json r s t) := by
  cases h : compile r s t with
  | error e =>
    obtain ⟨log, hlog⟩ := apply_of_error h
    exact .inl ⟨e, log, rfl, hlog⟩
  | ok x =>
    obtain ⟨sources, settings, hcompiles⟩ := exists_compiles h
    exact .inr ⟨sources, settings, x.1, x.2, hcompiles, reports_apply hcompiles⟩

/-! ## What a request may change -/

theorem sources_congr (hsite : r'.site = r.site) (hpolicy : r'.policy = r.policy) :
    r'.sources s t = r.sources s t := by
  rw [Request.sources, Request.sources, hsite, hpolicy]

theorem Compiles.congr (h : Compiles r s t sources settings b lines) (hsite : r'.site = r.site)
    (hpolicy : r'.policy = r.policy) : Compiles r' s t sources settings b lines :=
  ⟨(sources_congr hsite hpolicy).trans h.found, h.read, h.compiled⟩

/-- What is compiled, validating accepts. -/
theorem exists_validate (h : Compiles r s t sources settings b lines)
    (hsite : r'.site = r.site) (hpolicy : r'.policy = r.policy) :
    ∃ texts, validate r' s t = .ok texts := by
  obtain ⟨policy, hread⟩ := exists_readPolicy h.compiled
  refine ⟨policyTexts sources.policy policy, ?_⟩
  simp only [validate, sources_congr hsite hpolicy, h.found, hread, bind, Except.bind, pure,
    Except.pure]

/-- A dry run leaves the tree as it is, also where it ends in no report. -/
theorem apply_dryRun_tree (confDir : Option String) (json : Bool) (r : Request)
    (s : Surroundings) (t : FileTree) : (apply confDir true json r s t).tree = t := by
  rcases apply_cases confDir true json r s t with ⟨e, log, -, h⟩ | ⟨_, settings, b, _, -, h⟩
  · rw [h, Stop.report_tree]
  · rw [h.tree]
    exact Deployment.dryRun_tree ..

/-- A request that stops early is reported by the stop alone. -/
theorem runTask_of_stopsAt {e : Stop} (h : StopsAt r s t e) :
    ∃ log, runTask r s t r.task = e.report t log := by
  cases htask : r.task with
  | none => cases h <;> exact absurd htask ‹_›
  | some task =>
    cases task with
    | validate =>
      refine ⟨[], ?_⟩
      simp only [runTask, validate_of_stopsAt h htask]
    | compile json =>
      refine ⟨[], ?_⟩
      simp only [runTask, compile_of_stopsAt h (by simp [htask])]
    | apply confDir dryRun json => exact apply_of_error (compile_of_stopsAt h (by simp [htask]))

/-- What a request may change on a tree, and when. -/
structure Guarded (r : Request) (s : Surroundings) (t : FileTree) : Prop where
  /-- Only applying a policy changes the tree, and not as a dry run. -/
  untouched : (∀ confDir json, r.task ≠ some (.apply confDir false json)) → (run r s t).tree = t
  /-- Where the tree changes, validating the same policy on the tree before accepts it. -/
  validated : (run r s t).tree ≠ t → ∀ r' : Request, r'.site = r.site → r'.policy = r.policy →
    r'.task = some .validate → (run r' s t).ending = .ok 0
  /-- A request that stops early touches nothing. A policy that is no valid one and a wrong
  configuration end it with exit code 1. -/
  stopped : ∀ e, StopsAt r s t e →
    (run r s t).tree = t ∧ (e.IsReported → (run r s t).ending = .ok 1)

theorem untouched_of_task (h : ∀ confDir json, r.task ≠ some (.apply confDir false json)) :
    (run r s t).tree = t := by
  change (runTask r s t r.task).tree = t
  cases htask : r.task with
  | none => rfl
  | some task =>
    cases task with
    | validate =>
      rw [runTask]
      split
      · rfl
      · exact Stop.report_tree ..
    | compile json =>
      rw [runTask]
      split
      · rfl
      · exact Stop.report_tree ..
    | apply confDir dryRun json =>
      cases dryRun with
      | true => exact apply_dryRun_tree ..
      | false => exact absurd htask (h confDir json)

theorem validated_of_changed (h : (run r s t).tree ≠ t) (hsite : r'.site = r.site)
    (hpolicy : r'.policy = r.policy) (htask : r'.task = some .validate) :
    (run r' s t).ending = .ok 0 := by
  obtain ⟨confDir, json, happly⟩ : ∃ confDir json, r.task = some (.apply confDir false json) := by
    by_contra hnone
    exact h (untouched_of_task fun confDir json hj => hnone ⟨confDir, json, hj⟩)
  change (runTask r s t r.task).tree ≠ t at h
  rw [happly] at h
  rcases apply_cases confDir false json r s t with ⟨e, log, -, hstop⟩ | ⟨_, _, _, _, hc, -⟩
  · exact absurd (by rw [runTask, hstop, Stop.report_tree]) h
  · obtain ⟨texts, htexts⟩ := exists_validate hc hsite hpolicy
    change (runTask r' s t r'.task).ending = .ok 0
    simp only [htask, runTask, htexts]
    exact Surroundings.ending_of_takes (takes_of_validate htexts)

/-- Whatever a request asks for, on every tree it changes nothing that validating would not
accept. -/
theorem guarded (r : Request) (s : Surroundings) (t : FileTree) : Guarded r s t where
  untouched := untouched_of_task
  validated h _ := validated_of_changed h
  stopped e h := by
    obtain ⟨log, hlog⟩ := runTask_of_stopsAt h
    change (runTask r s t r.task).tree = t ∧ (_ → (runTask r s t r.task).ending = .ok 1)
    rw [hlog]
    exact ⟨e.report_tree log, fun he => he.ending log⟩

/-- A tree with a policy that enables the file method. -/
def fileSite : FileTree where
  nodes := [([("etc" : Text)], .directory), ([("etc" : Text), ("policy.yaml" : Text)],
    .file (Utf8.encode "methods: \x7bfile: \x7benabled: true, user_file: /u\x7d\x7d") 0o600)]

/-- A request of a task on this tree. -/
def siteRequest (task : Task) : Request :=
  ⟨some "/etc", false, none, some task⟩

/-- The surroundings of the superuser. -/
def rootSurroundings : Surroundings where
  siteVariable := none
  program := "/opt/httpd-policy"
  host := Deployment.rootHost
  duration := .int 0

/-- Applying the policy changes the tree, so validating it before ends with exit code 0. -/
theorem guarded_fileSite :
    (run (siteRequest (.apply (some "/auth.d") false true)) rootSurroundings fileSite).tree ≠
        fileSite ∧
      (run (siteRequest .validate) rootSurroundings fileSite).ending = .ok 0 := by
  have hbits : Deployment.modeAt?
      (run (siteRequest (.apply (some "/auth.d") false true)) rootSurroundings fileSite).tree
        (.ofText "/auth.d/auth.conf") = some 0o640 := by
    decide +kernel
  have hchanged :
      (run (siteRequest (.apply (some "/auth.d") false true)) rootSurroundings fileSite).tree ≠
        fileSite := by
    intro h
    rw [h] at hbits
    exact absurd hbits (by decide +kernel)
  exact ⟨hchanged, (guarded _ _ _).validated hchanged _ rfl rfl rfl⟩

end AccessPolicy.Command
