import AccessPolicy.Proofs.Deployment.Marker
import AccessPolicy.Proofs.Deployment.Staging

/-!
# Announcing changes

The marker is the only sign for the server to reload. A history is a sequence of deployments
to one directory, with any changes of the tree by others in between. A deployment rewrites
the marker exactly if it succeeds and found a file that differs (`Deployment.rewrites_iff`),
and what it finds depends on the files alone.

`Deployment.announced_iff` : so a change by a deployment that failed is announced by the next
one that succeeds exactly if that one still finds a file that differs. Where the files were
moved and then the marker could not be written, it does not (`Deployment.lost_announcement`).
-/

namespace AccessPolicy.Deployment

variable {dir : Path}

/-- A deployment, and what others do to the tree before it. -/
structure Provision where
  plan : FaultPlan
  host : Host
  settings : Settings
  blocks : Blocks
  dryRun : Bool
  meanwhile : FileTree → FileTree := id

/-- What a deployment found and what it came to. -/
structure Step where
  provision : Provision
  before : FileTree
  result : Except Failure Outcome
  session : Session

/-- The settings with this directory. -/
def inDirectory (dir : Path) (settings : Settings) : Settings :=
  { settings with confDir := .path dir }

/-- Runs a deployment to the directory. -/
def Provision.run (dir : Path) (p : Provision) (t : FileTree) : Step :=
  let x := Deployment.run p.plan p.host (inDirectory dir p.settings) p.blocks p.dryRun
    { tree := p.meanwhile t }
  ⟨p, p.meanwhile t, x.1, x.2⟩

/-- Deployments to the directory, one after the other. -/
def history (dir : Path) (t : FileTree) : List Provision → List Step
  | [] => []
  | p :: ps => p.run dir t :: history dir (p.run dir t).session.tree ps

namespace Step

/-- The step is a run on the tree that it found. -/
def IsRun (dir : Path) (x : Step) : Prop :=
  Deployment.run x.provision.plan x.provision.host (inDirectory dir x.provision.settings)
    x.provision.blocks x.provision.dryRun { tree := x.before } = (x.result, x.session)

/-- The bytes of a target changed, or whether it can be read. -/
def Changes (dir : Path) (x : Step) : Prop :=
  ∃ target : Target, (x.session.tree.read (dir.child target.fileName)).toOption ≠
    (x.before.read (dir.child target.fileName)).toOption

/-- The step was to write and reports success. -/
def Succeeds (x : Step) : Prop :=
  x.provision.dryRun = false ∧ ∃ o, x.result = .ok o ∧ o.success = true

/-- The targets that the step found to differ from their new texts. -/
def pending (dir : Path) (x : Step) : List Target :=
  match Contents.texts x.provision.blocks x.provision.settings.serverName
    x.provision.host.name with
  | .ok text => changed x.before dir text
  | .error _ => []

/-- The step opened the marker and wrote it, and it reads as the step's own marker in full. -/
def Rewrites (dir : Path) (x : Step) : Prop :=
  ∃ server, x.provision.settings.passthrough = .ok server ∧
    [Call.openMarker, .write] <:+ x.session.calls ∧
    (markerDocument x.provision.host (x.pending dir) x.provision.blocks server).json.fault =
      none ∧
    x.session.tree.read (dir.child markerName) =
      .ok (Utf8.encode (markerDocument x.provision.host (x.pending dir) x.provision.blocks
        server).json.text)

end Step

/-- Whenever a step changes a file, the marker is rewritten by it or by a later step, at the
latest by the next one that succeeds. -/
def Announced (dir : Path) (steps : List Step) : Prop :=
  ∀ before x between y after, steps = before ++ x :: (between ++ y :: after) →
    x.Changes dir → (∀ z ∈ between, ¬ z.Succeeds) → y.Succeeds →
    ∃ z ∈ x :: (between ++ [y]), z.Rewrites dir

/-! ## One deployment -/

variable {x : Step}

/-- A run did nothing but read, or it came to write what was pending. -/
theorem step_cases (h : x.IsRun dir) :
    (x.session.tree = x.before ∧ (∀ c ∈ x.session.calls, c = .read) ∧
      (x.Succeeds → x.pending dir = [])) ∨
      x.provision.dryRun = false ∧ ∃ text s₁ r₁ s₂, x.pending dir = changed x.before dir text ∧
        Applies x.provision.plan x.provision.host (inDirectory dir x.provision.settings) dir
          x.provision.blocks text x.before x.result x.session s₁ r₁ s₂ := by
  rcases run_cases rfl h with ⟨hs, f, hf, hr⟩ | ⟨text, htext, hrun⟩
  · refine .inl ⟨by rw [hs], by simp [hs], ?_⟩
    rintro ⟨-, o, ho, -⟩
    rw [hr] at ho
    exact absurd ho (by simp)
  · have hpending : x.pending dir = changed x.before dir text := by
      change Contents.texts x.provision.blocks x.provision.settings.serverName
        x.provision.host.name = .ok text at htext
      rw [Step.pending, htext]
    rcases runIn_cases hrun with honly | ⟨hdry, s₁, r₁, s₂, happ⟩
    · refine .inl ⟨honly.tree, honly.calls, ?_⟩
      rintro ⟨hdry, o, ho, hsuccess⟩
      rw [hpending]
      exact honly.success o ho hsuccess hdry
    · exact .inr ⟨hdry, text, s₁, r₁, s₂, hpending, happ⟩

theorem pending_ne_nil_of_changes (h : x.IsRun dir) (hx : x.Changes dir) :
    x.pending dir ≠ [] := by
  rcases step_cases h with ⟨htree, -, -⟩ | ⟨-, text, s₁, r₁, s₂, hp, happ⟩
  · obtain ⟨target, hne⟩ := hx
    rw [htree] at hne
    exact absurd rfl hne
  · rw [hp]
    exact happ.pending

/-- Writing the files ends before the marker, or as writing the marker does. -/
theorem apply_cases {plan : FaultPlan} {host : Host} {settings : Settings} {b : Blocks}
    {text : Target → Text} {targets : List Target} {s s' : Session}
    {r : Except Failure Outcome} (hreads : ∀ c ∈ s.calls, c = .read)
    (h : apply plan host settings dir b text targets s = (r, s')) :
    (.openMarker ∉ s'.calls ∧ ∃ e, r = .error e) ∨
      ∃ s₁ rm, .openMarker ∉ s₁.calls ∧
        writeMarker plan host settings dir targets b s₁ = (rm, s') ∧
        ((rm = .ok () ∧ ∃ o, r = .ok o ∧ o.success = true) ∨
          ∃ e, rm = .error e ∧ r = .error e) := by
  have hmake : ∀ {x s₁}, makeDirectories plan dir s = (x, s₁) → .openMarker ∉ s₁.calls := by
    intro x s₁ hx hmem
    exact absurd (mem_calls_makeDirectories hreads hx _ hmem) (by decide)
  have hwrite : ∀ {x s₁ s₂}, .openMarker ∉ s₁.calls →
      writeAll plan host settings dir text targets s₁ = (x, s₂) → .openMarker ∉ s₂.calls := by
    intro x s₁ s₂ hnone hx hmem
    rcases (asks_writeAll plan host settings dir text targets _ _ _ hx).mem hmem with hc | hc
    · exact hnone hc
    · exact absurd hc (by decide)
  rcases Action.bind_cases h with ⟨_, s₁, hm, h⟩ | ⟨e, hm, rfl⟩
  swap
  · exact .inl ⟨hmake hm, e, rfl⟩
  rcases Action.bind_cases h with ⟨_, s₂, hw, h⟩ | ⟨e, hw, rfl⟩
  swap
  · exact .inl ⟨hwrite (hmake hm) hw, e, rfl⟩
  rcases Action.bind_cases h with ⟨_, s₃, hk, h⟩ | ⟨e, hk, rfl⟩
  · obtain ⟨rfl, rfl⟩ := Action.pure_cases h
    exact .inr ⟨s₂, _, hwrite (hmake hm) hw, hk, .inl ⟨rfl, _, rfl, rfl⟩⟩
  · exact .inr ⟨s₂, _, hwrite (hmake hm) hw, hk, .inr ⟨e, rfl, rfl⟩⟩

theorem succeeds_iff {r : Except Failure Outcome} (hdry : x.provision.dryRun = false)
    (hr : x.result = settled r) (hok : ∀ o, r = .ok o → o.success = true) :
    x.Succeeds ↔ ∃ o, r = .ok o := by
  constructor
  · rintro ⟨-, o, ho, hsuccess⟩
    exact exists_of_settled (hr.symm.trans ho) hsuccess
  · rintro ⟨o, ho⟩
    exact ⟨hdry, o, by rw [hr, ho]; rfl, hok o ho⟩

theorem suffix_marker_iff {calls cs : List Call} (hcs : cs = [] ∨ cs = [.write]) :
    [Call.openMarker, .write] <:+ calls ++ .openMarker :: cs ↔ cs = [.write] := by
  constructor
  · intro h
    rcases hcs with rfl | rfl
    · have hlast : [Call.openMarker, .write].getLast? =
          (calls ++ [Call.openMarker]).getLast? := by
        obtain ⟨front, hfront⟩ := h
        rw [← hfront, List.getLast?_append_of_ne_nil _ (by simp)]
      exact absurd hlast (by simp)
    · rfl
  · rintro rfl
    exact List.suffix_append _ _

theorem not_rewrites_of_notMem (h : .openMarker ∉ x.session.calls) : ¬ x.Rewrites dir := by
  rintro ⟨server, -, hsuffix, -⟩
  exact h (hsuffix.subset List.mem_cons_self)

/-- The marker is rewritten exactly by the deployments that succeed and found a file that
differs. -/
theorem rewrites_iff (h : x.IsRun dir) : x.Rewrites dir ↔ x.Succeeds ∧ x.pending dir ≠ [] := by
  rcases step_cases h with ⟨-, hcalls, hnone⟩ | ⟨hdry, text, s₁, r₁, s₂, hp, happ⟩
  · have hno : Call.openMarker ∉ x.session.calls :=
      fun hmem => absurd (hcalls _ hmem) (by decide)
    exact iff_of_false (not_rewrites_of_notMem hno) fun ⟨hs, hne⟩ => hne (hnone hs)
  have hpending : x.pending dir ≠ [] := by
    rw [hp]
    exact happ.pending
  have hneither : .openMarker ∉ s₂.calls → (∃ e, r₁ = .error e) →
      (x.Rewrites dir ↔ x.Succeeds ∧ x.pending dir ≠ []) := by
    rintro hno ⟨e, rfl⟩
    have hfails : ¬ x.Succeeds := by
      rw [succeeds_iff hdry happ.result fun o ho => absurd ho (by simp)]
      simp
    exact iff_of_false (not_rewrites_of_notMem (happ.calls ▸ hno)) fun hs => hfails hs.1
  rcases apply_cases happ.reads happ.applied with ⟨hno, hr₁⟩ | ⟨s₃, rm, hno, hmarker, hend⟩
  · exact hneither hno hr₁
  rcases writeMarker_cases hmarker with ⟨rfl, f, -, hf⟩ | ⟨server, cs, hpass, hcalls, hcs, hiff⟩
  · rcases hend with ⟨hok, -⟩ | ⟨e, -, he⟩
    · rw [hf] at hok
      exact absurd hok (by simp)
    · exact hneither hno ⟨e, he⟩
  have hsuccess : x.Succeeds ↔ rm = .ok () := by
    rcases hend with ⟨hok, o, ho, hs⟩ | ⟨e, hrm, he⟩
    · rw [succeeds_iff hdry happ.result fun o' ho' => ?_]
      · exact ⟨fun _ => hok, fun _ => ⟨o, ho⟩⟩
      · rw [ho] at ho'
        exact Except.ok.inj ho' ▸ hs
    · rw [succeeds_iff hdry happ.result fun o' ho' => absurd (he.symm.trans ho') (by simp), he, hrm]
      simp
  rw [hsuccess, hiff, ← happ.tree, ← hp]
  rw [← happ.calls] at hcalls
  constructor
  · rintro ⟨server', hpass', hsuffix, hfault, hread⟩
    obtain rfl : server = server' := Except.ok.inj (hpass.symm.trans hpass')
    rw [hcalls] at hsuffix
    exact ⟨⟨(suffix_marker_iff hcs).1 hsuffix, hread, hfault⟩, hpending⟩
  · rintro ⟨⟨rfl, hread, hfault⟩, -⟩
    refine ⟨server, hpass, ?_, hfault, hread⟩
    rw [hcalls]
    exact List.suffix_append _ _

/-! ## Histories -/

theorem isRun_of_mem_history :
    ∀ (ps : List Provision) (t : FileTree), ∀ x ∈ history dir t ps, x.IsRun dir
  | [], _, _, h => absurd h (by simp [history])
  | _ :: ps, _, x, h => by
    rw [history, List.mem_cons] at h
    rcases h with rfl | h
    · rfl
    · exact isRun_of_mem_history ps _ x h

/-- A change is announced in time exactly if, where the deployment that made it failed, the
next one that succeeds still finds a file that differs. -/
theorem announced_iff (dir : Path) (t : FileTree) (ps : List Provision) :
    Announced dir (history dir t ps) ↔
      ∀ before x between y after,
        history dir t ps = before ++ x :: (between ++ y :: after) →
        x.Changes dir → ¬ x.Succeeds → (∀ z ∈ between, ¬ z.Succeeds) → y.Succeeds →
        y.pending dir ≠ [] := by
  constructor
  · intro h before x between y after heq hx hfail hbetween hy
    have hrun : ∀ z ∈ x :: (between ++ [y]), z.IsRun dir := by
      intro z hz
      refine isRun_of_mem_history ps t z ?_
      rw [heq]
      simp only [List.mem_cons, List.mem_append, List.not_mem_nil, or_false] at hz ⊢
      tauto
    obtain ⟨z, hz, hrewrites⟩ := h before x between y after heq hx hbetween hy
    obtain ⟨hsucceeds, hpending⟩ := (rewrites_iff (hrun z hz)).1 hrewrites
    simp only [List.mem_cons, List.mem_append, List.not_mem_nil, or_false] at hz
    rcases hz with rfl | hz | rfl
    · exact absurd hsucceeds hfail
    · exact absurd hsucceeds (hbetween z hz)
    · exact hpending
  · intro h before x between y after heq hx hbetween hy
    have hxrun : x.IsRun dir :=
      isRun_of_mem_history ps t x (by simp [heq])
    have hyrun : y.IsRun dir :=
      isRun_of_mem_history ps t y (by simp [heq])
    by_cases hs : x.Succeeds
    · exact ⟨x, by simp, (rewrites_iff hxrun).2 ⟨hs, pending_ne_nil_of_changes hxrun hx⟩⟩
    · exact ⟨y, by simp, (rewrites_iff hyrun).2
        ⟨hy, h before x between y after heq hx hs hbetween hy⟩⟩

/-- A deployment of blocks that are comments. -/
def commentPolicy (plan : FaultPlan) : Provision where
  plan := plan
  host := { name := "host.test", timestamp := "T", changeOwner := fun _ _ => .ok () }
  settings := {}
  blocks := ⟨"#", "#"⟩
  dryRun := false

/-- The marker of this one cannot be opened. -/
def unmarked : Step :=
  (commentPolicy (.single .openMarker 0 (.system "x"))).run (.ofText "/auth.d") .empty

/-- The same once more, with nothing in the way. -/
def repeated : Step :=
  (commentPolicy .none).run (.ofText "/auth.d") unmarked.session.tree

/-- Both files are written, the marker cannot be opened, and the deployment after that reports
success and leaves it alone. -/
theorem lost_announcement :
    ¬ Announced (.ofText "/auth.d") (history (.ofText "/auth.d") .empty
      [commentPolicy (.single .openMarker 0 (.system "x")), commentPolicy .none]) := by
  intro h
  have hchanges : unmarked.Changes (.ofText "/auth.d") := by
    refine ⟨.auth, ?_⟩
    decide +kernel
  have hs : repeated.result.toOption.map Outcome.success = some true := by decide +kernel
  obtain ⟨o, ho, hsuccess⟩ := Option.map_eq_some_iff.1 hs
  have hsucceeds : repeated.Succeeds := by
    refine ⟨rfl, o, ?_, hsuccess⟩
    cases hr : repeated.result with
    | ok o' =>
      rw [hr] at ho
      rw [Option.some.inj ho]
    | error e =>
      rw [hr] at ho
      cases ho
  obtain ⟨z, hz, server, -, hsuffix, -⟩ :=
    h [] unmarked [] repeated [] rfl hchanges (by simp) hsucceeds
  have hunmarked : ¬ [Call.openMarker, .write] <:+ unmarked.session.calls := by decide +kernel
  have hrepeated : ¬ [Call.openMarker, .write] <:+ repeated.session.calls := by decide +kernel
  rcases List.mem_pair.1 hz with rfl | rfl
  · exact hunmarked hsuffix
  · exact hrepeated hsuffix

end AccessPolicy.Deployment
