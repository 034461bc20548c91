import AccessPolicy.Proofs.Deployment.FaultedWrite
import AccessPolicy.Proofs.Deployment.Refusal

/-!
# A deployment that succeeds

What a deployment leaves that reports success, whatever the tree before it
(`Deployment.effect_of_success`) : the files that it reports are those that were absent or whose
text was another, and they hold their new texts with the permission bits; the other one is as it
was; the marker is written for these files, or not touched where there is none; and nothing else
is touched, but directories on the way may have been made.

It is read off the steps : the tree on the way has all targets written (`Task.Midway`), and then
only the marker is written (`Deployed.of_midway`). A run that succeeds found nothing to write or
went through all of them (`Deployment.success_cases`).
-/

namespace AccessPolicy.Deployment

open FileTree (KeepsDirectories Extends ExtendsAt WritesAt)

variable {plan : FaultPlan} {host : Host} {settings : Settings} {dir : Path} {b : Blocks}
  {t t' : FileTree} {text : Target → Text} {mode : Nat} {targets : List Target} {o : Outcome}
  {r : Except Failure Outcome} {s s' : Session}

/-! ## Comparing -/

/-- No file is there, or its text, with unified line ends, is another. -/
def Differs (t : FileTree) (p : Path) (text : Text) : Prop :=
  t.hasNode p = .ok false ∨ ∃ bytes s, t.read p = .ok bytes ∧ Utf8.decode bytes = .ok s ∧
    Text.ofChars (Text.unifyNewlines s.toList) ≠ text

theorem differs_iff {p : Path} {x : Text} (h : Shows t p) :
    Differs t p x ↔ shownText? t p ≠ some x := by
  rcases h with habsent | ⟨y, hy⟩
  · rw [shownText?_of_not_hasNode habsent]
    exact iff_of_true (.inl habsent) (by simp)
  · obtain ⟨hp, bytes, s, hread, hs, rfl⟩ := shownText?_eq_some_iff.1 hy
    rw [hy, Ne, Option.some_inj]
    constructor
    · rintro (habsent | ⟨bytes', s', hread', hs', hne⟩)
      · rw [shownText?_of_not_hasNode habsent] at hy
        cases hy
      · obtain rfl := Except.ok.inj (hread.symm.trans hread')
        obtain rfl := Except.ok.inj (hs.symm.trans hs')
        exact hne
    · exact fun hne => .inr ⟨bytes, s, hread, hs, hne⟩

theorem findChanged_of_found {dryRun : Bool}
    (h : found plan dir text dryRun s = (.ok (.ok targets), s')) :
    findChanged plan dir text Target.all s = (.ok targets, s') := by
  rcases Action.onFailure_cases h with ⟨y, hy, he⟩ | ⟨e, s₁, -, hh⟩
  · obtain ⟨targets', s₁, hf, hp⟩ := Action.bind_ok hy
    obtain ⟨hy', rfl⟩ := Action.pure_cases hp
    rw [hf, Except.ok.inj (Except.ok.inj (he.trans hy'))]
  · split at hh
    · exact absurd (Except.ok.inj (Action.pure_cases hh).1) (by simp)
    · exact absurd (Action.fail_cases hh).1 (by simp)

/-! ## Permission bits -/

/-- A file is staged only with permission bits that the settings ask for. -/
theorem modeBits_of_stage {a : Target}
    (h : stage plan host settings dir text a s = (.ok (), s')) :
    ∃ mode, modeBits settings.fileMode = .ok mode := by
  obtain ⟨q, s₁, -, h⟩ := Action.bind_ok h
  obtain ⟨_, s₂, hfill, -⟩ := Action.bind_ok h
  obtain ⟨r₁, s₃, hfill, -, ⟨m, -, hm⟩ | ⟨rfl, -⟩⟩ := fillOrDiscard_after hfill
  · exact absurd hm (by simp)
  · obtain ⟨_, _, -, h⟩ := Action.bind_ok hfill
    obtain ⟨_, _, -, h⟩ := Action.bind_ok h
    obtain ⟨_, _, -, h⟩ := Action.bind_ok h
    obtain ⟨_, _, -, h⟩ := Action.bind_ok h
    obtain ⟨mode, _, hmode, -⟩ := Action.bind_ok h
    obtain ⟨-, ⟨mode', hm, -⟩ | ⟨f, -, hf⟩⟩ := Action.ofFault_cases hmode
    · exact ⟨mode', hm⟩
    · exact absurd hf (by simp)

theorem modeBits_of_stageAndInstall {a : Target} {rest : List Target} {x : Except Failure Unit}
    (hmoves : .rename ∉ s.calls)
    (h : stageAndInstall plan host settings dir text (a :: rest) s = (x, s')) :
    (∃ mode, modeBits settings.fileMode = .ok mode) ∨
      (∃ e, x = .error e) ∧ .rename ∉ s'.calls := by
  rw [stageAndInstall_cons] at h
  rcases Action.bind_cases h with ⟨_, _, hstage, -⟩ | ⟨e, hstage, rfl⟩
  · exact .inl (modeBits_of_stage hstage)
  · refine .inr ⟨⟨e, rfl⟩, fun hmem => ?_⟩
    rcases (asks_stage _ _ _ _ _ _ _ _ _ hstage).mem hmem with hold | hnew
    · exact hmoves hold
    · exact absurd hnew (by decide)

/-- So files are moved only with such bits, and all is written only with them. -/
theorem modeBits_of_writeAll {x : Except Failure Unit} (hne : targets ≠ [])
    (hmoves : .rename ∉ s.calls)
    (h : writeAll plan host settings dir text targets s = (x, s'))
    (hend : x = .ok () ∨ .rename ∈ s'.calls) : ∃ mode, modeBits settings.fileMode = .ok mode := by
  obtain ⟨a, rest, rfl⟩ := List.exists_cons_of_ne_nil hne
  obtain ⟨y, s₁, hy, rfl, rfl⟩ := writeAll_body h
  refine (modeBits_of_stageAndInstall hmoves hy).resolve_right ?_
  rintro ⟨⟨e, rfl⟩, hnone⟩
  rw [discardStaged_eq] at hend
  exact hend.elim (by simp [Except.mapError]) hnone

/-! ## The tree that is left -/

/-- These targets have their new texts and bits, and the directories are kept. Every other place
but that of the marker is as it was, except that directories on the way may have been made. -/
structure Deployed (t t' : FileTree) (dir : Path) (text : Target → Text) (mode : Nat)
    (targets : List Target) : Prop where
  directories : KeepsDirectories t t'
  written : ∀ target ∈ targets, ∃ place bytes,
    t'.resolve (dir.child target.fileName) = .ok place ∧ encoded (text target) = .ok bytes ∧
      t'.lookup place = some (.file bytes mode)
  other : ∀ q, (∀ target ∈ targets, t'.resolve (dir.child target.fileName) ≠ .ok q) →
    t'.resolve (dir.child markerName) ≠ .ok q → ExtendsAt dir t t' q

theorem fileName_ne_markerName (target : Target) : target.fileName ≠ markerName := by
  cases target <;> decide

theorem child_fileName_injective (dir : Path) :
    Function.Injective fun target : Target => dir.child target.fileName := by
  intro a b h
  have hnames : dir.names ++ [a.fileName] = dir.names ++ [b.fileName] := congrArg Path.names h
  exact fileName_injective (by simpa using hnames)

/-- Once all targets are written, only the marker is touched. -/
theorem Deployed.of_midway {w : Task} {t₁ : FileTree} (hmid : w.Midway targets [] t₁ [])
    (hext : Extends w.dir t w.base) (hmarker : WritesAt (w.dir.child markerName) t₁ t') :
    Deployed t t' w.dir w.text w.mode targets := by
  have hinst := hmid.installed hext
  have hkeep : KeepsDirectories t₁ t' := fun q => (hmarker.directories q).2
  refine ⟨(hext.keepsDirectories.trans hmid.keepsDirectories).trans hkeep, fun a ha => ?_,
    fun q hq hm => ?_⟩
  · obtain ⟨place, bytes, hp, hb, hl⟩ := hinst.written a ha
    refine ⟨place, bytes, hmarker.resolve_iff.2 hp, hb, ?_⟩
    rw [hmarker.other place fun hm => fileName_ne_markerName a
      (FileTree.name_eq_of_resolve (fileName_ne_dots a) (by decide) hp hm), hl]
  · have hsame := hmarker.other q fun he => hm (hmarker.resolve_iff.2 he)
    rcases hinst.kept q fun a ha he => hq a ha (hmarker.resolve_iff.2 he) with
      he | ⟨hnone, hdir, n, hw⟩
    · exact .inl (hsame.trans he)
    · exact .inr ⟨hnone, hsame.trans hdir, n, FileTree.walk_mono hkeep _ _ _ hw⟩

theorem Deployed.refl (t : FileTree) (dir : Path) (text : Target → Text) (mode : Nat) :
    Deployed t t dir text mode [] :=
  ⟨.refl t, by simp, fun _ _ _ => .inl rfl⟩

/-- A target that was written holds the bytes of its text. -/
theorem Deployed.exists_node (h : Deployed t t' dir text mode targets) {target : Target}
    (htarget : target ∈ targets) : ∃ bytes, encoded (text target) = .ok bytes ∧
      t'.nodeAt (dir.child target.fileName) = .ok (.file bytes mode) := by
  obtain ⟨place, bytes, hplace, hbytes, hfile⟩ := h.written target htarget
  exact ⟨bytes, hbytes, FileTree.nodeAt_eq_ok_iff.2 ⟨place, hplace, hfile⟩⟩

/-- A target that was not written is as it was. -/
theorem Deployed.kept_target (h : Deployed t t' dir text mode targets) {target : Target}
    (htarget : target ∉ targets) {q : Place}
    (hq : t'.resolve (dir.child target.fileName) = .ok q) : ExtendsAt dir t t' q := by
  refine h.other q (fun a ha hqa => htarget ?_) fun hqm => ?_
  · rwa [← fileName_injective (FileTree.name_eq_of_resolve (fileName_ne_dots a)
      (fileName_ne_dots target) hqa hq)]
  · exact fileName_ne_markerName target
      (FileTree.name_eq_of_resolve (fileName_ne_dots target) (by decide) hq hqm)

/-- A file that stands where such a target's path leads stands there still. -/
theorem Deployed.kept_file (h : Deployed t t' dir text mode targets) {target : Target}
    (htarget : target ∉ targets) {n : Node}
    (hn : t.nodeAt (dir.child target.fileName) = .ok n) :
    t'.nodeAt (dir.child target.fileName) = .ok n := by
  obtain ⟨q, hq, hl⟩ := FileTree.nodeAt_eq_ok_iff.1 hn
  have hq' := FileTree.resolve_mono h.directories hq
  refine FileTree.nodeAt_eq_ok_iff.2 ⟨q, hq', ?_⟩
  rcases h.kept_target htarget hq' with hsame | ⟨hnone, -⟩
  · rw [hsame, hl]
  · rw [hl] at hnone
    cases hnone

/-- So the file whose text was shown stands there still. -/
theorem Deployed.exists_kept (h : Deployed t t' dir text mode targets) {target : Target}
    (htarget : target ∉ targets) {x : Text}
    (hx : shownText? t (dir.child target.fileName) = some x) :
    ∃ bytes bits, t.nodeAt (dir.child target.fileName) = .ok (.file bytes bits) ∧
      t'.nodeAt (dir.child target.fileName) = .ok (.file bytes bits) := by
  obtain ⟨-, bytes, _, hread, -⟩ := shownText?_eq_some_iff.1 hx
  obtain ⟨bits, hnode⟩ := FileTree.read_eq_ok_iff.1 hread
  exact ⟨bytes, bits, hnode, h.kept_file htarget hnode⟩

/-! ## The run -/

/-- The marker was opened and written last, and reads as the JSON text of entries that list
these targets in order and say which blocks are empty. -/
structure Marked (b : Blocks) (dir : Path) (targets : List Target) (s' : Session) : Prop where
  calls : [Call.openMarker, .write] <:+ s'.calls
  text : ∃ entries : Entries, (Document.mapping entries).json.fault = none ∧
    s'.tree.read (dir.child markerName) =
      .ok (Utf8.encode (Document.mapping entries).json.text) ∧
    entries.get? "changed" = some (.sequence (targets.map fun target => .text target.fileName)) ∧
    entries.get? "auth_empty" = some (.bool b.auth.isEmpty) ∧
    entries.get? "limit_fallback" = some (.bool b.limits.isEmpty)

theorem marked_of_writeMarker
    (h : writeMarker plan host settings dir targets b s = (.ok (), s')) :
    Marked b dir targets s' := by
  rcases writeMarker_cases h with ⟨-, f, -, hf⟩ | ⟨server, cs, -, hcalls, -, hiff⟩
  · exact absurd hf (by simp)
  · obtain ⟨rfl, hread, hfault⟩ := hiff.1 rfl
    refine ⟨⟨s.calls, hcalls.symm⟩, markerEntries host targets b server, hfault, hread, ?_⟩
    exact ⟨rfl, rfl, rfl⟩

/-- Once all that was pending is moved, the targets are written, whatever comes of the marker. -/
theorem Applies.deployed_of_moved {s₁ s₂ s₃ s₄ s₅ : Session} {r₁ : Except Failure Outcome}
    {x : Except Failure Unit} (h : Applies plan host settings dir b text t r s' s₁ r₁ s₂)
    (hmake : makeDirectories plan dir s₁ = (.ok (), s₃))
    (hwrite : writeAll plan host settings dir text (changed t dir text) s₃ = (.ok (), s₄))
    (hmarker : writeMarker plan host settings dir (changed t dir text) b s₄ = (x, s₅)) :
    ∃ mode, modeBits settings.fileMode = .ok mode ∧
      Deployed t s₅.tree dir text (stagedMode host settings mode) (changed t dir text) := by
  have hmoves := rename_notMem_of_makeDirectories h.reads hmake
  obtain ⟨mode, hm⟩ := modeBits_of_writeAll h.pending hmoves hwrite (.inl rfl)
  obtain ⟨w, rfl, rfl, hw, hext, hmid⟩ := h.exists_task hmake (stagedMode host settings mode)
  refine ⟨mode, hm, ?_⟩
  rcases writeAll_cases hm hw hmid (nodup_changed t w.dir w.text) hmoves hwrite with
    ⟨-, -, hmid'⟩ | ⟨e, he, -⟩ | ⟨e, n, he, -⟩
  · rw [← hw]
    exact .of_midway hmid' hext (within_writeMarker _ _ _ _ _ _ _ _ _ hmarker).tree
  · exact absurd he (by simp)
  · exact absurd he (by simp)

/-- A run that came to write and succeeds has written all that was pending, and the marker. -/
theorem Applies.deployed {s₁ s₂ : Session} {o' : Outcome}
    (h : Applies plan host settings dir b text t r s' s₁ (.ok o') s₂) :
    ∃ mode, modeBits settings.fileMode = .ok mode ∧ dir.isAddress = true ∧
      Deployed t s'.tree dir text (stagedMode host settings mode) (changed t dir text) ∧
      Marked b dir (changed t dir text) s' ∧
      o'.changed = (changed t dir text).map fun target => dir.child target.fileName := by
  obtain ⟨_, s₃, hmake, happ⟩ := Action.bind_ok h.applied
  obtain ⟨_, s₄, hwrite, happ⟩ := Action.bind_ok happ
  obtain ⟨_, s₅, hmarker, hdone⟩ := Action.bind_ok happ
  obtain ⟨ho, rfl⟩ := Action.pure_cases hdone
  obtain ⟨mode, hm, hdeployed⟩ := h.deployed_of_moved hmake hwrite hmarker
  have hmarked := marked_of_writeMarker hmarker
  exact ⟨mode, hm, isAddress_of_makeDirectories hmake, h.tree ▸ hdeployed,
    ⟨h.calls ▸ hmarked.calls, h.tree ▸ hmarked.text⟩, Except.ok.inj ho ▸ rfl⟩

/-- A run that succeeds had nothing to write and did nothing but read, or it has written all
that was pending. -/
inductive Succeeded (host : Host) (settings : Settings) (dir : Path) (b : Blocks)
    (text : Target → Text) (t : FileTree) (s' : Session) : Prop
  | unchanged : changed t dir text = [] → s'.tree = t → (∀ c ∈ s'.calls, c = .read) →
      Succeeded host settings dir b text t s'
  | deployed {mode : Nat} : changed t dir text ≠ [] → modeBits settings.fileMode = .ok mode →
      dir.isAddress = true →
      Deployed t s'.tree dir text (stagedMode host settings mode) (changed t dir text) →
      Marked b dir (changed t dir text) s' → Succeeded host settings dir b text t s'

/-- A run that succeeds could read the files and reports those that were pending. -/
theorem success_cases (hdir : settings.confDir = .path dir)
    (h : run plan host settings b false { tree := t } = (.ok o, s')) (ho : o.success = true) :
    ∃ text, Contents.texts b settings.serverName host.name = .ok text ∧
      (∀ target : Target, Shows t (dir.child target.fileName)) ∧
      o.changed = (changed t dir text).map (fun target => dir.child target.fileName) ∧
      Succeeded host settings dir b text t s' := by
  rcases run_cases hdir h with ⟨-, f, -, hf⟩ | ⟨text, htext, hrun⟩
  · exact absurd hf (by simp)
  refine ⟨text, htext, ?_⟩
  obtain ⟨x, s₁, hx, hends⟩ := runIn_ends hrun
  obtain ⟨htree, hstaged, hreads⟩ := reads_found hx
  rcases hends with ⟨e, -, he, -⟩ | ⟨o', rfl, ho', -⟩ | ⟨targets, rfl, hends⟩
  · exact absurd he (by simp)
  · rcases found_ok hx with hok | ⟨o'', ho'', hfails⟩
    · exact absurd hok (by simp)
    · rw [Except.ok.inj ho', Except.error.inj ho'', hfails] at ho
      cases ho
  have hfind := findChanged_of_found hx
  have hshows : ∀ target : Target, Shows t (dir.child target.fileName) := fun target =>
    shows_of_findChanged hfind target target.mem_all
  have hfound : targets = changed t dir text := findChanged_ok hfind
  subst hfound
  refine ⟨hshows, ?_⟩
  rcases hends with ⟨hnone, rfl, o', ho', -, hchanged⟩ | ⟨-, hpending, r₁, s₂, happ, ht, hc, hr⟩
  · obtain rfl := Except.ok.inj ho'
    exact ⟨hchanged, .unchanged (hnone.resolve_left (by simp)) htree hreads⟩
  · obtain ⟨o', rfl⟩ := exists_of_settled hr.symm ho
    obtain rfl : o = o' := Except.ok.inj hr
    obtain ⟨mode, hm, haddress, hdeployed, hmarked, hchanged⟩ :=
      Applies.deployed ⟨hpending, htree, hstaged, hreads, happ, ht, hc, hr⟩
    exact ⟨hchanged, .deployed hpending hm haddress hdeployed hmarked⟩

/-- What is left of a run that writes these targets. -/
structure Effect (t : FileTree) (dir : Path) (b : Blocks) (text : Target → Text) (mode : Nat)
    (targets : List Target) (s' : Session) : Prop where
  tree : Deployed t s'.tree dir text mode targets
  /-- The other targets hold what they held, with their bits. -/
  kept : ∀ target ∉ targets, ∃ bytes bits,
    t.nodeAt (dir.child target.fileName) = .ok (.file bytes bits) ∧
      s'.tree.nodeAt (dir.child target.fileName) = .ok (.file bytes bits)
  marked : targets ≠ [] → Marked b dir targets s'
  unmarked : targets = [] → s'.tree = t ∧ .openMarker ∉ s'.calls

/-- A run that succeeds reports the files that were absent or whose text was another. These hold
their new texts and the marker lists them; nothing else is touched. -/
theorem effect_of_success {m : Nat} (hdir : settings.confDir = .path dir)
    (hmode : settings.fileMode = .int m) (hm : m < 4096) (howner : settings.owner.isGiven = false)
    (hgroup : settings.group.isGiven = false)
    (h : run plan host settings b false { tree := t } = (.ok o, s')) (ho : o.success = true) :
    ∃ text targets, Contents.texts b settings.serverName host.name = .ok text ∧
      o.changed = targets.map (fun target => dir.child target.fileName) ∧
      targets.Sublist Target.all ∧
      (∀ target, target ∈ targets ↔ Differs t (dir.child target.fileName) (text target)) ∧
      Effect t dir b text m targets s' := by
  obtain ⟨text, htext, hshows, hchanged, hsucceeded⟩ := success_cases hdir h ho
  have hmem : ∀ target, target ∈ changed t dir text ↔
      Differs t (dir.child target.fileName) (text target) := by
    intro target
    rw [differs_iff (hshows target), mem_changed_iff]
  refine ⟨text, changed t dir text, htext, hchanged, List.filter_sublist, hmem, ?_⟩
  cases hsucceeded with
  | unchanged hnone htree hreads =>
    have hdeployed : Deployed t s'.tree dir text m (changed t dir text) := by
      rw [hnone, htree]
      exact .refl t dir text m
    exact ⟨hdeployed, fun target ht =>
        hdeployed.exists_kept ht (shownText?_of_notMem_changed ht),
      fun hne => absurd hnone hne, fun _ => ⟨htree, fun hmem => absurd (hreads _ hmem) (by simp)⟩⟩
  | @deployed mode hne hbits haddress hdeployed hmarked =>
    obtain rfl : mode = m := by
      rw [hmode, modeBits_int hm] at hbits
      exact (Except.ok.inj hbits).symm
    rw [stagedMode_eq_iff.2 (.inl ⟨howner, hgroup⟩)] at hdeployed
    exact ⟨hdeployed, fun target ht =>
        hdeployed.exists_kept ht (shownText?_of_notMem_changed ht),
      fun _ => hmarked, fun hnone => absurd hnone hne⟩

/-- Settings that leave the owner as it is. -/
def unownedSettings : Settings where
  confDir := .path (.ofText "/auth.d")

/-- The first file has its text already, with other bits and other line ends. -/
def firstThere : FileTree where
  nodes := [([("auth.d" : Text)], .directory), ([("auth.d" : Text), ("auth.conf" : Text)],
    .file (Utf8.encode ("# Generated by httpd-policy. Do not edit.\r\n" ++
      "# No authentication method enabled.\r")) 0o600)]

/-- A deployment that finds the first file there. -/
def secondWritten : Except Failure Outcome × Session :=
  run .none rootHost unownedSettings ⟨[], []⟩ false { tree := firstThere }

/-- Only the second file is written. -/
theorem effect_of_success_secondWritten : ∃ o text, secondWritten.1 = .ok o ∧ o.success = true ∧
    Effect firstThere (.ofText "/auth.d") ⟨[], []⟩ text 0o640 [.limits] secondWritten.2 := by
  have hfacts : secondWritten.1.toOption.map (fun o => (o.success, o.changed)) =
      some (true, [Target.limits].map fun target =>
        (Path.ofText "/auth.d").child target.fileName) := by
    decide +kernel
  obtain ⟨o, hresult, hfacts⟩ := exists_ok_of_map_toOption hfacts
  obtain ⟨hsuccess, hchanged⟩ := Prod.mk.inj hfacts
  have hrun : run .none rootHost unownedSettings ⟨[], []⟩ false { tree := firstThere } =
      (.ok o, secondWritten.2) := by
    rw [← hresult, secondWritten]
  obtain ⟨text, targets, -, hlist, -, -, heffect⟩ :=
    effect_of_success rfl (m := 0o640) rfl (by decide) rfl rfl hrun hsuccess
  obtain rfl : targets = [.limits] :=
    List.map_injective_iff.2 (child_fileName_injective _) (hlist.symm.trans hchanged)
  exact ⟨o, text, hresult, hsuccess, heffect⟩

end AccessPolicy.Deployment
