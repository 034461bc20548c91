import AccessPolicy.Proofs.Deployment.Check

/-!
# A dry run

A dry run compares the files with their new texts, reports what differs, and stops there. The
deployment that it stands for starts with the same comparison, and all that it reports where it
succeeds is fixed by what comparing found (`Deployment.eq_outcome_of_success`). Where comparing
fails, both end there, with the same message (`Deployment.runIn_of_reported`).

`Deployment.dryRun_predicts` : so a dry run leaves the tree as it is and foretells the deployment,
whichever calls the plan lets fail, as far as the deployment succeeds.
-/

namespace AccessPolicy.Deployment

variable {plan : FaultPlan} {host : Host} {settings : Settings} {dir : Path} {b : Blocks}
  {text : Target → Text} {dryRun : Bool} {targets : List Target} {o : Outcome} {s s₁ s' : Session}

/-! ## How a run goes on from comparing -/

/-- Where a file cannot be read, the run ends with the message about it. -/
theorem runIn_of_reported {message : Text}
    (h : findChanged plan dir text Target.all s = (.error (.reported message), s₁)) :
    runIn plan host settings dir b text dryRun s =
      (.ok { success := false, message := message, dryRun := dryRun }, s₁) := by
  have hfound : found plan dir text dryRun s =
      (.ok (.error { success := false, message := message, dryRun := dryRun }), s₁) := by
    rw [found, Action.onFailure, Action.bind_of_error h]
    rfl
  change (found plan dir text dryRun >>= _) s = _
  rw [Action.bind_of_ok hfound]
  rfl

theorem runIn_of_error {e : Failure}
    (h : findChanged plan dir text Target.all s = (.error e, s₁)) (he : ∀ m, e ≠ .reported m) :
    runIn plan host settings dir b text dryRun s = (.error e, s₁) := by
  have hfound : found plan dir text dryRun s = (.error e, s₁) := by
    rw [found, Action.onFailure, Action.bind_of_error h]
    cases e with
    | reported message => exact absurd rfl (he message)
    | system message => rfl
    | lookup message => rfl
    | fault f => rfl
  change (found plan dir text dryRun >>= _) s = _
  rw [Action.bind_of_error hfound]

/-- A dry run ends where comparing does. -/
theorem dryRun_of_findChanged
    (h : findChanged plan dir text Target.all s = (.ok targets, s₁)) :
    runIn plan host settings dir b text true s = (.ok (outcome dir b true targets
      ("Dry-run: " ++ toString targets.length ++ " file(s) would change in " ++ dir.text)),
        s₁) := by
  change (found plan dir text true >>= _) s = _
  rw [Action.bind_of_ok (found_of_findChanged h)]
  rfl

theorem eq_outcome_of_apply (h : apply plan host settings dir b text targets s = (.ok o, s')) :
    ∃ message, o = outcome dir b false targets message := by
  obtain ⟨_, s₁, -, h⟩ := Action.bind_ok h
  obtain ⟨_, s₂, -, h⟩ := Action.bind_ok h
  obtain ⟨_, s₃, -, h⟩ := Action.bind_ok h
  exact ⟨_, Except.ok.inj (Action.pure_cases h).1⟩

/-- What a run reports that succeeds is fixed by what comparing found. -/
theorem eq_outcome_of_success (h : findChanged plan dir text Target.all s = (.ok targets, s₁))
    (hrun : runIn plan host settings dir b text false s = (.ok o, s')) (ho : o.success = true) :
    ∃ message, o = outcome dir b false targets message := by
  change (found plan dir text false >>= _) s = _ at hrun
  rw [Action.bind_of_ok (found_of_findChanged h)] at hrun
  simp only [Bool.false_eq_true, if_false] at hrun
  split_ifs at hrun with hnone
  · rw [List.isEmpty_iff.1 hnone]
    exact ⟨_, Except.ok.inj (Action.pure_cases hrun).1⟩
  · obtain ⟨o₁, s₂, hsettled, hnote⟩ := Action.bind_ok hrun
    obtain rfl := Except.ok.inj (warned_cases hnote).1
    obtain ⟨r, happ, hr⟩ := settle_cases hsettled
    obtain ⟨o₂, rfl⟩ := exists_of_settled hr.symm ho
    obtain rfl : o = o₂ := Except.ok.inj hr
    exact eq_outcome_of_apply happ

/-! ## The prediction -/

/-- What a dry run on a tree says of the run that it stands for. -/
structure Predicts (t : FileTree) (preview actual : Except Failure Outcome × Session) : Prop where
  untouched : preview.2.tree = t
  /-- A dry run without success foretells a run without success, and its message. -/
  refused : ∀ o, preview.1 = .ok o → o.success = false →
    ∃ o', actual.1 = .ok o' ∧ o'.success = false ∧ o'.message = o.message ∧ actual.2.tree = t
  /-- Where both succeed, they report the same. -/
  agrees : ∀ o o', preview.1 = .ok o → o.success = true → actual.1 = .ok o' → o'.success = true →
    o'.changed = o.changed ∧ o'.usedFallback = o.usedFallback ∧ o'.authWritten = o.authWritten
  /-- A dry run without outcome foretells a run without outcome. -/
  failed : ∀ e, preview.1 = .error e → actual.1 = .error e ∧ actual.2.tree = t

theorem Predicts.of_error (t : FileTree) {e : Failure} (ht : s.tree = t) (ht' : s'.tree = t) :
    Predicts t (.error e, s) (.error e, s') where
  untouched := ht
  refused _ h := absurd h (by simp)
  agrees _ _ h := absurd h (by simp)
  failed _ h := ⟨h, ht'⟩

/-- The runs start with one comparison. -/
theorem runIn_predicts (plan : FaultPlan) (host host' : Host) (settings : Settings) (dir : Path)
    (b : Blocks) (text : Target → Text) (t : FileTree) :
    Predicts t (runIn plan host settings dir b text true { tree := t })
      (runIn plan host' settings dir b text false { tree := t }) := by
  obtain ⟨x, s₁, hx⟩ : ∃ x s₁, findChanged plan dir text Target.all { tree := t } = (x, s₁) :=
    ⟨_, _, rfl⟩
  have htree : s₁.tree = t := (within_findChanged plan dir text _ _ _ _ hx).tree.symm
  cases x with
  | ok targets =>
    rw [dryRun_of_findChanged hx]
    refine ⟨htree, fun o ho hfails => ?_, fun o o' ho _ ho' hsuccess => ?_, fun e he => ?_⟩
    · rw [← Except.ok.inj ho] at hfails
      exact absurd hfails (by simp [outcome])
    · obtain rfl := Except.ok.inj ho
      obtain ⟨message', rfl⟩ := eq_outcome_of_success hx (Prod.ext ho' rfl) hsuccess
      exact ⟨rfl, rfl, rfl⟩
    · exact absurd he (by simp)
  | error e =>
    by_cases he : ∃ m, e = .reported m
    · obtain ⟨m, rfl⟩ := he
      rw [runIn_of_reported hx, runIn_of_reported hx]
      refine ⟨htree, fun o ho _ => ?_, fun o o' ho hsuccess => ?_, fun e he => ?_⟩
      · exact ⟨_, rfl, rfl, by rw [← Except.ok.inj ho], htree⟩
      · rw [← Except.ok.inj ho] at hsuccess
        exact absurd hsuccess (by simp)
      · exact absurd he (by simp)
    · have hother : ∀ m, e ≠ .reported m := fun m hm => he ⟨m, hm⟩
      rw [runIn_of_error hx hother, runIn_of_error hx hother]
      exact .of_error t htree htree

/-- A dry run leaves the tree as it is, also where it fails. -/
theorem dryRun_tree (plan : FaultPlan) (host : Host) (settings : Settings) (b : Blocks)
    (t : FileTree) : (run plan host settings b true { tree := t }).2.tree = t := by
  rcases run_starts host settings b with ⟨dir, text, -, -, hrun⟩ | ⟨f, hrun⟩
  · rw [hrun plan host true _ rfl]
    exact (runIn_predicts plan host host settings dir b text t).untouched
  · rw [hrun plan host true _ rfl]

/-- A dry run leaves the tree as it is and foretells the run of the same blocks on that tree, at
whatever time and whichever calls fail. -/
theorem dryRun_predicts (plan : FaultPlan) (host : Host) (settings : Settings) (b : Blocks)
    (t : FileTree) (later : Text) :
    Predicts t (run plan host settings b true { tree := t })
      (run plan { host with timestamp := later } settings b false { tree := t }) := by
  rcases run_starts host settings b with ⟨dir, text, -, -, hrun⟩ | ⟨f, hrun⟩
  · rw [hrun plan host true _ rfl, hrun plan { host with timestamp := later } false _ rfl]
    exact runIn_predicts ..
  · rw [hrun plan host true _ rfl, hrun plan { host with timestamp := later } false _ rfl]
    exact .of_error t rfl rfl

end AccessPolicy.Deployment
