import AccessPolicy.Proofs.Command.Tasks
import AccessPolicy.Proofs.Deployment.Installed
import AccessPolicy.Proofs.Document.JsonReading

/-!
# What compiling shows is what applying installs

Compiling prints the blocks as a JSON object and applying deploys them. Where the deployment
succeeds, the blocks have no halves, so the printed object is read as these blocks.

`Command.installed_as_shown` : each file that applying reports holds the header and the block
that compiling prints, or what stands for an empty one.
-/

namespace AccessPolicy.Command

variable {r r' : Request} {s : Surroundings} {t : FileTree} {confDir : Option String}
  {json : Bool} {sources : Sources} {settings : Settings} {b : Blocks} {lines : List LogLine}

theorem exists_ok_of_ending {x : Except Failure Outcome} {texts : Outcome → List Text}
    (h : (x >>= fun o => s.ending (texts o) (if o.success then 0 else 1)) = .ok 0) :
    ∃ o, x = .ok o ∧ o.success = true ∧ (texts o).all s.takes = true := by
  obtain ⟨o, hx, ho⟩ := bind_eq_ok h
  obtain ⟨htexts, hcode⟩ := Surroundings.ending_eq_ok_iff.1 ho
  exact ⟨o, hx, by simpa using hcode, htexts⟩

/-- Compiling that ends with exit code 0 prints the blocks. -/
theorem exists_printed (htask : r.task = some (.compile true))
    (h : (run r s t).ending = .ok 0) : ∃ sources settings b lines,
      Compiles r s t sources settings b lines ∧
        (run r s t).output = Text.ofLines (jsonTexts (blockEntries b)) := by
  change (runTask r s t r.task).ending = .ok 0 at h
  change ∃ _ _ _ _, _ ∧ (runTask r s t r.task).output = _
  rw [htask, runTask] at h ⊢
  cases hcompile : compile r s t with
  | error e =>
    rw [hcompile] at h
    exact absurd h (e.report_ending_ne _)
  | ok x =>
    obtain ⟨sources, settings, hcompiles⟩ := exists_compiles hcompile
    exact ⟨sources, settings, x.1, x.2, hcompiles,
      Surroundings.printed_of_takes (takes_jsonTexts _)⟩

/-- Applying that ends with exit code 0 reports a deployment of the blocks that succeeds. -/
theorem exists_deployed (htask : r.task = some (.apply confDir false json))
    (h : (run r s t).ending = .ok 0) : ∃ sources settings b lines o x,
      Compiles r s t sources settings b lines ∧
        Deployment.run .none s.host (withDirectory confDir settings) b false { tree := t } = x ∧
        x.1 = .ok o ∧ o.success = true ∧
        (outcomeTexts json s.duration o).all s.takes = true ∧ Reports json s x (run r s t) := by
  have hrun : run r s t = { apply confDir false json r s t with
      log := shownLog r.verbose (apply confDir false json r s t).log } := by
    rw [run, htask, runTask]
  rw [hrun] at h ⊢
  rcases apply_cases confDir false json r s t with
    ⟨e, log, -, hstop⟩ | ⟨sources, settings, b, lines, hcompiles, hreports⟩
  · rw [hstop] at h
    exact absurd h (e.report_ending_ne log)
  · obtain ⟨o, ho, hsuccess, htexts⟩ := exists_ok_of_ending (hreports.ending.symm.trans h)
    exact ⟨sources, settings, b, lines, o, _, hcompiles, rfl, ho, hsuccess, htexts,
      hreports.tree, hreports.ending, hreports.output⟩

/-- Compiling that gives blocks ends with exit code 0 where it prints JSON. -/
theorem ending_of_compiles (htask : r.task = some (.compile true))
    (h : Compiles r s t sources settings b lines) : (run r s t).ending = .ok 0 := by
  change (runTask r s t r.task).ending = .ok 0
  simp only [htask, runTask, h.compile_eq, if_true]
  exact Surroundings.ending_of_takes (takes_jsonTexts _)

/-- So does applying of which the deployment succeeds. -/
theorem ending_of_deployed (htask : r.task = some (.apply confDir false true))
    (h : Compiles r s t sources settings b lines) {o : Outcome}
    (hrun : (Deployment.run .none s.host (withDirectory confDir settings) b false
      { tree := t }).1 = .ok o) (hsuccess : o.success = true) : (run r s t).ending = .ok 0 := by
  change (runTask r s t r.task).ending = .ok 0
  rw [htask, runTask, (reports_apply h).ending, hrun]
  exact (Surroundings.ending_of_takes (takes_jsonTexts _)).trans (by rw [hsuccess]; rfl)

theorem chars_jsonTexts (es : Entries) :
    (Text.ofLines (jsonTexts es)).chars = ((Document.mapping es).json.text ++ "\n").toList := by
  rw [jsonTexts, Text.ofLines, Text.chars, List.map_append, String.toList_append]
  exact congrArg₂ _ (Text.chars_ofChars _) rfl

/-- The printed object is read as the blocks, where these have no halves. -/
theorem readTexts?_blockEntries {auth limits : List Char} :
    Json.readTexts?
      (Text.ofLines (jsonTexts (blockEntries ⟨Text.ofChars auth, Text.ofChars limits⟩))).chars =
        some ([("auth_block", Text.ofChars auth), ("limit_block", Text.ofChars limits)] :
          List (Text × Text)) := by
  have hread := (Json.readTexts?_mapping
    [("auth_block", Text.ofChars auth), ("limit_block", Text.ofChars limits)]).2
  rw [chars_jsonTexts]
  refine hread.trans ?_
  simp only [List.map_cons, List.map_nil, Json.joinPairs_ofChars]
  rfl

/-- What applying reports and installs is what compiling shows, by the blocks that it prints. -/
structure InstallsShown (s : Surroundings) (confDir : Option String) (json : Bool) (t : FileTree)
    (settings : Settings) (shown applied : Report) (b : Blocks) (o : Outcome) : Prop where
  printed : Json.readTexts? shown.output.chars =
    some ([("auth_block", b.auth), ("limit_block", b.limits)] : List (Text × Text))
  deployed : (Deployment.run .none s.host (withDirectory confDir settings) b false
    { tree := t }).1 = .ok o
  reported : applied.output = Text.ofLines (outcomeTexts json s.duration o)
  /-- Each file that is reported holds the header and what the blocks say for it. -/
  installed : ∀ p ∈ o.changed,
    Deployment.Installs (withDirectory confDir settings) s.host b applied.tree p

/-- What compiling prints is what applying installs on the same tree from the same files. -/
theorem installed_as_shown (hsite : r'.site = r.site) (hpolicy : r'.policy = r.policy)
    (hcompile : r.task = some (.compile true))
    (happly : r'.task = some (.apply confDir false json))
    (hshown : (run r s t).ending = .ok 0) (happlied : (run r' s t).ending = .ok 0) :
    ∃ sources settings b o, r.sources s t = .ok sources ∧
      readSettings t sources.site = .ok settings ∧
      InstallsShown s confDir json t settings (run r s t) (run r' s t) b o := by
  obtain ⟨_, _, b', lines', hcompiles', hprinted⟩ := exists_printed hcompile hshown
  obtain ⟨sources, settings, b, lines, o, x, hcompiles, hdeploy, ho, hsuccess, htexts,
    hreports⟩ := exists_deployed happly happlied
  have hcompiles : Compiles r s t sources settings b lines :=
    hcompiles.congr hsite.symm hpolicy.symm
  obtain ⟨rfl, -⟩ := Prod.mk.inj
    (Except.ok.inj (hcompiles'.compile_eq.symm.trans hcompiles.compile_eq))
  obtain ⟨hinstalls, ⟨auth, hauth⟩, ⟨limits, hlimits⟩⟩ :=
    Deployment.installs_of_success (hdeploy.trans (Prod.ext ho rfl)) hsuccess
  refine ⟨sources, settings, b', o, hcompiles.found, hcompiles.read, ?_, ?_, ?_, ?_⟩
  · have hblocks : b' = ⟨Text.ofChars auth, Text.ofChars limits⟩ := by
      rw [← hauth, ← hlimits]
    rw [hprinted, hblocks]
    exact readTexts?_blockEntries
  · rw [hdeploy, ho]
  · rw [hreports.output o ho, Surroundings.printed_of_takes htexts]
  · rw [hreports.tree]
    exact hinstalls

/-- What compiling leaves of a policy that enables the file method. -/
def shownFile : Report :=
  run (siteRequest (.compile true)) rootSurroundings fileSite

/-- What applying leaves of it. -/
def appliedFile : Report :=
  run (siteRequest (.apply (some "/auth.d") false true)) rootSurroundings fileSite

/-- Compiling this policy gives blocks, and deploying them succeeds. -/
theorem exists_deployed_fileSite : ∃ sources b lines o,
    Compiles (siteRequest (.compile true)) rootSurroundings fileSite sources {} b lines ∧
      (Deployment.run .none Deployment.rootHost (withDirectory (some "/auth.d") {}) b false
        { tree := fileSite }).1 = .ok o ∧ o.success = true := by
  have hdone : ((compilePolicy fileSite (.ofText "/etc/policy.yaml") .null).toOption.bind fun x =>
      (Deployment.run .none Deployment.rootHost (withDirectory (some "/auth.d") {}) x.1 false
        { tree := fileSite }).1.toOption.map Outcome.success) = some true := by
    decide +kernel
  obtain ⟨x, hx, hdone⟩ := Option.bind_eq_some_iff.1 hdone
  obtain ⟨o, ho, hsuccess⟩ := Option.map_eq_some_iff.1 hdone
  exact ⟨⟨.ofText "/etc", .ofText "/etc/policy.yaml"⟩, x.1, x.2, o,
    ⟨rfl, rfl, eq_ok_of_toOption hx⟩, eq_ok_of_toOption ho, hsuccess⟩

/-- The files that applying installs hold what compiling shows. -/
theorem installed_as_shown_fileSite :
    shownFile.ending = .ok 0 ∧ appliedFile.ending = .ok 0 ∧
      ∃ settings b o, InstallsShown rootSurroundings (some "/auth.d") true fileSite settings
        shownFile appliedFile b o := by
  obtain ⟨sources, b, lines, o, hcompiles, hrun, hsuccess⟩ := exists_deployed_fileSite
  have hshown : shownFile.ending = .ok 0 := ending_of_compiles rfl hcompiles
  have happlied : appliedFile.ending = .ok 0 :=
    ending_of_deployed rfl (hcompiles.congr rfl rfl) hrun hsuccess
  obtain ⟨_, settings, b, o, -, -, hinstalls⟩ :=
    @installed_as_shown (siteRequest (.compile true))
      (siteRequest (.apply (some "/auth.d") false true)) rootSurroundings fileSite (some "/auth.d")
      true rfl rfl rfl rfl hshown happlied
  exact ⟨hshown, happlied, settings, b, o, hinstalls⟩

end AccessPolicy.Command
