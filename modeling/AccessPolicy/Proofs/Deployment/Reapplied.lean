import AccessPolicy.Proofs.Deployment.Success
import AccessPolicy.Proofs.Text.Stored

/-!
# A deployment that is repeated

A deployment that succeeded leaves files that show their new texts, as far as a text survives
being written and read back. A second deployment of the same blocks then finds nothing to write
and leaves the tree as it is, the marker included.

`Deployment.reapplied_iff` : this is so exactly where no text has a carriage return. Files are
read with unified line ends and written with the line ends they are given, so a text with a
carriage return never compares equal to its own file : each run writes it again and rewrites the
marker (`Deployment.rewritten_realm`).
-/

namespace AccessPolicy.Deployment

variable {plan : FaultPlan} {host : Host} {settings : Settings} {dir : Path} {b : Blocks}
  {t t' : FileTree} {text : Target → Text} {mode : Nat} {targets : List Target} {o : Outcome}
  {s s' : Session}

/-! ## What is shown of a text that was written -/

theorem fileName_isAddress (target : Target) :
    ∀ c ∈ target.fileName, c.nameSize?.isSome = true ∧ c ≠ .char '\x00' := by
  cases target <;> decide

theorem shownText?_congr {p : Path} (h : t'.nodeAt p = t.nodeAt p) :
    shownText? t' p = shownText? t p := by
  unfold shownText? FileTree.read
  rw [h]

/-- A text without carriage returns is shown of a file with its bytes. -/
theorem shownText?_of_encoded {p : Path} {x : Text} {bytes : List UInt8}
    (hp : p.isAddress = true) (hx : .char '\r' ∉ x) (hb : encoded x = .ok bytes)
    (hread : t.read p = .ok bytes) : shownText? t p = some x := by
  unfold encoded at hb
  split at hb
  · rename_i str hstr
    obtain rfl := Except.ok.inj hb
    obtain rfl := Text.eq_ofString_of_string? hstr
    refine shownText?_eq_some_iff.2 ⟨hp, _, str, hread, Utf8.decode_encode str, ?_⟩
    rw [Text.unifyNewlines_of_not_mem fun hmem => hx (Text.mem_ofChars.2 hmem), Text.ofString]
  · cases hb

/-- A text that is shown has no carriage return. -/
theorem not_mem_of_shownText? {p : Path} {x : Text} (h : shownText? t p = some x) :
    .char '\r' ∉ x := by
  obtain ⟨-, bytes, str, -, -, rfl⟩ := shownText?_eq_some_iff.1 h
  exact fun hmem => Text.not_mem_unifyNewlines _ (Text.mem_ofChars.1 hmem)

/-- Once all that was pending is written, each text without carriage returns is shown. -/
theorem Deployed.shows_text (h : Deployed t t' dir text mode (changed t dir text))
    (hdir : dir.isAddress = true) {target : Target} (hcr : .char '\r' ∉ text target) :
    shownText? t' (dir.child target.fileName) = some (text target) := by
  by_cases htarget : target ∈ changed t dir text
  · obtain ⟨bytes, hb, hnode⟩ := h.exists_node htarget
    exact shownText?_of_encoded (Path.isAddress_child hdir (fileName_isAddress target)) hcr hb
      (FileTree.read_eq_ok_iff.2 ⟨mode, hnode⟩)
  · have hshown := shownText?_of_notMem_changed htarget
    obtain ⟨bytes, bits, hnode, hnode'⟩ := h.exists_kept htarget hshown
    rw [shownText?_congr (hnode'.trans hnode.symm), hshown]

/-- Where nothing is pending, each text is shown. -/
theorem shownText?_of_changed_eq_nil (h : changed t dir text = []) (target : Target) :
    shownText? t (dir.child target.fileName) = some (text target) :=
  shownText?_of_notMem_changed (by simp [h])

/-! ## Comparing again -/

theorem currentText_of_shown {p : Path} {x : Text} (h : shownText? s.tree p = some x) :
    ∃ s', currentText .none p s = (.ok (some x), s') := by
  obtain ⟨hp, bytes, str, hread, hstr, rfl⟩ := shownText?_eq_some_iff.1 h
  obtain ⟨bits, hnode⟩ := FileTree.read_eq_ok_iff.1 hread
  have hthere : Action.query p (fun t => t.hasNode p) s = (.ok true, s) := by
    simp [Action.query, FileTree.hasNode, hp, hnode]
  have hbytes : Action.query p (fun t => t.read p) { s with calls := s.calls ++ [.read] } =
      (.ok bytes, { s with calls := s.calls ++ [.read] }) := by
    simp [Action.query, hread]
  have hcall : Action.call .none .read s = (.ok (), { s with calls := s.calls ++ [.read] }) := rfl
  refine ⟨{ s with calls := s.calls ++ [.read] }, ?_⟩
  unfold currentText
  rw [Action.bind_of_ok hthere, if_pos rfl, Action.bind_of_ok hcall, Action.bind_of_ok hbytes,
    hstr]
  rfl

theorem differs_of_shown {p : Path} {x : Text} (h : shownText? s.tree p = some x) :
    ∃ s', differs .none p x s = (.ok false, s') := by
  obtain ⟨s₁, hs₁⟩ := currentText_of_shown h
  have hreport : reportAs ("Failed to read " ++ p.text) (currentText .none p) s =
      (.ok (some x), s₁) := by
    rw [reportAs, Action.onFailure, hs₁]
  unfold differs
  rw [Action.bind_of_ok hreport, if_pos rfl]
  exact ⟨_, rfl⟩

/-- Where all files show their texts, comparing finds nothing to write. -/
theorem findChanged_of_shown : ∀ {targets : List Target} {s : Session},
    (∀ target ∈ targets, shownText? s.tree (dir.child target.fileName) = some (text target)) →
      ∃ s', findChanged .none dir text targets s = (.ok [], s')
  | [], s, _ => ⟨s, rfl⟩
  | target :: targets, s, h => by
    obtain ⟨hshown, hrest⟩ := List.forall_mem_cons.1 h
    obtain ⟨s₁, hs₁⟩ := differs_of_shown hshown
    have htree : s.tree = s₁.tree := (within_differs .none _ _ _ _ _ hs₁).tree
    obtain ⟨s₂, hs₂⟩ := findChanged_of_shown (htree ▸ hrest)
    refine ⟨s₂, ?_⟩
    rw [findChanged, Action.bind_of_ok hs₁, Action.bind_of_ok hs₂]
    rfl

/-! ## The second run -/

/-- The run succeeds, finds nothing to write and leaves the tree as it is. -/
def FindsNothing (t : FileTree) (x : Except Failure Outcome × Session) : Prop :=
  ∃ o, x.1 = .ok o ∧ o.success = true ∧ o.changed = [] ∧ x.2.tree = t

theorem findsNothing_iff (hdir : settings.confDir = .path dir)
    (htext : Contents.texts b settings.serverName host.name = .ok text) :
    FindsNothing t (run .none host settings b false { tree := t }) ↔
      ∀ target, shownText? t (dir.child target.fileName) = some (text target) := by
  constructor
  · rintro ⟨o, hr, ho, hnothing, -⟩
    obtain ⟨text', htext', -, hlist, -⟩ := success_cases hdir (Prod.ext hr rfl) ho
    obtain rfl := Except.ok.inj (htext.symm.trans htext')
    rw [hnothing] at hlist
    exact shownText?_of_changed_eq_nil (List.map_eq_nil_iff.1 hlist.symm)
  · intro hshown
    rcases run_cases hdir (Prod.eta (run .none host settings b false { tree := t })).symm with
      ⟨-, f, hf, -⟩ | ⟨text', htext', hrun⟩
    · rw [htext] at hf
      cases hf
    obtain rfl := Except.ok.inj (htext.symm.trans htext')
    obtain ⟨s₁, hs₁⟩ : ∃ s₁, findChanged .none dir text Target.all { tree := t } = (.ok [], s₁) :=
      findChanged_of_shown fun target _ => hshown target
    have hfound : found .none dir text false { tree := t } = (.ok (.ok []), s₁) :=
      found_of_findChanged hs₁
    obtain ⟨x, s₂, hx, hends⟩ := runIn_ends hrun
    obtain ⟨rfl, rfl⟩ := Prod.mk.inj (hfound.symm.trans hx)
    rcases hends with ⟨e, he, -⟩ | ⟨o, ho, -⟩ | ⟨targets, htargets, hends⟩
    · cases he
    · cases ho
    · obtain rfl := Except.ok.inj (Except.ok.inj htargets)
      rcases hends with ⟨-, hs, o, hr, ho, hnothing⟩ | ⟨-, hne, -⟩
      · exact ⟨o, hr, ho, hnothing, hs ▸ (reads_found hfound).1⟩
      · exact absurd rfl hne

/-- After a run that succeeds, another one of the same blocks finds nothing to write, at whatever
time, exactly where no text has a carriage return. -/
theorem reapplied_iff (hdir : settings.confDir = .path dir)
    (h : run plan host settings b false { tree := t } = (.ok o, s)) (ho : o.success = true)
    (later : Text) :
    ∃ text, Contents.texts b settings.serverName host.name = .ok text ∧
      (FindsNothing s.tree
          (run .none { host with timestamp := later } settings b false { tree := s.tree }) ↔
        ∀ target, .char '\r' ∉ text target) := by
  obtain ⟨text, htext, -, -, hsucceeded⟩ := success_cases hdir h ho
  have hlater : Contents.texts b settings.serverName { host with timestamp := later }.name =
      .ok text := htext
  refine ⟨text, htext, ?_⟩
  rw [findsNothing_iff hdir hlater]
  refine ⟨fun hshown target => not_mem_of_shownText? (hshown target), fun hcr target => ?_⟩
  cases hsucceeded with
  | unchanged hnone htree _ =>
    rw [htree]
    exact shownText?_of_changed_eq_nil hnone target
  | deployed _ _ haddress hdeployed _ => exact hdeployed.shows_text haddress (hcr target)

/-- The run that wrote the second file is followed by one that finds nothing to write, although
the first file has other line ends than its text. -/
theorem reapplied_secondWritten : FindsNothing secondWritten.2.tree
    (run .none { rootHost with timestamp := "later" } unownedSettings ⟨[], []⟩ false
      { tree := secondWritten.2.tree }) := by
  have hsuccess : secondWritten.1.toOption.map Outcome.success = some true := by decide +kernel
  have hcr : (Contents.texts ⟨[], []⟩ unownedSettings.serverName rootHost.name).toOption.map
      (fun text => Target.all.map fun target => decide (.char '\r' ∈ text target)) =
        some [false, false] := by
    decide +kernel
  obtain ⟨o, hresult, ho⟩ := exists_ok_of_map_toOption hsuccess
  have hrun : run .none rootHost unownedSettings ⟨[], []⟩ false { tree := firstThere } =
      (.ok o, secondWritten.2) := by
    rw [← hresult, secondWritten]
  obtain ⟨text, htext, hiff⟩ := reapplied_iff rfl hrun ho "later"
  obtain ⟨text', htext', hnone⟩ := exists_ok_of_map_toOption hcr
  obtain rfl := Except.ok.inj (htext.symm.trans htext')
  obtain ⟨hauth, hlimits⟩ := List.cons.inj hnone
  refine hiff.2 fun target => ?_
  cases target with
  | auth => exact of_decide_eq_false hauth
  | limits => exact of_decide_eq_false (List.cons.inj hlimits).1

/-! ## A realm with a carriage return -/

/-- The override that enables the file method. -/
def withFile : Document :=
  .mapping [(.text "methods", .mapping [(.text "file", .mapping [
    (.text "enabled", .bool true), (.text "user_file", .text "/u")])])]

/-- Settings whose realm has a carriage return. -/
def returningSettings : Settings :=
  { unownedSettings with realm := .text "a\rb" }

/-- A deployment to an empty tree under these settings. -/
def returningRun (b : Blocks) : Except Failure Outcome × Session :=
  run .none rootHost returningSettings b false { tree := .empty }

/-- The deployment succeeds, and another one of the same blocks is not content with its files. -/
theorem rewritten_realm : ∃ b o, Policy.compile withFile .null returningSettings.realm = .ok b ∧
    (returningRun b).1 = .ok o ∧ o.success = true ∧
    ¬ FindsNothing (returningRun b).2.tree
      (run .none rootHost returningSettings b false { tree := (returningRun b).2.tree }) := by
  have hfacts : (Policy.compile withFile .null returningSettings.realm).toOption.map (fun b =>
      ((returningRun b).1.toOption.map Outcome.success,
        (Contents.texts b returningSettings.serverName rootHost.name).toOption.map fun text =>
          decide (.char '\r' ∈ text .auth))) = some (some true, some true) := by
    decide +kernel
  obtain ⟨b, hb, hfacts⟩ := exists_ok_of_map_toOption hfacts
  obtain ⟨hrun, htexts⟩ := Prod.mk.inj hfacts
  obtain ⟨o, ho, hsuccess⟩ := exists_ok_of_map_toOption hrun
  obtain ⟨text, htext, hcr⟩ := exists_ok_of_map_toOption htexts
  refine ⟨b, o, hb, ho, hsuccess, fun hnothing => ?_⟩
  exact not_mem_of_shownText? ((findsNothing_iff rfl htext).1 hnothing .auth)
    (of_decide_eq_true hcr)

end AccessPolicy.Deployment
