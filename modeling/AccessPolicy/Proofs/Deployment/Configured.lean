import AccessPolicy.Proofs.Deployment.Success

/-!
# What is configured after a deployment

A deployment that succeeds leaves each file that was absent or whose text was another with the
bytes of its new text. Its permission bits are those of the settings, where a change of owner
leaves them.

Files are compared by their texts alone. A file that reads as its new text is not written, so it
keeps its bytes and its bits (`Deployment.configures_of_success`) : after the deployment it is as
configured exactly where it was so before. Tighter bits in the settings alone do not reach it
(`Deployment.bits_not_tightened`).
-/

namespace AccessPolicy.Deployment

variable {plan : FaultPlan} {host : Host} {settings : Settings} {dir : Path} {b : Blocks}
  {t t' : FileTree} {text : Target → Text} {m : Nat} {o : Outcome} {s' : Session}

/-- The file has the bytes of this text, and these permission bits. -/
def Holds (t : FileTree) (p : Path) (x : Text) (bits : Nat) : Prop :=
  ∃ bytes, encoded x = .ok bytes ∧ t.nodeAt p = .ok (.file bytes bits)

/-- A file that is staged keeps these permission bits. -/
def KeepsBits (host : Host) (settings : Settings) (m : Nat) : Prop :=
  (settings.owner.isGiven = false ∧ settings.group.isGiven = false) ∨ host.keptBits m = m

/-- What a run that succeeds makes of the file at this path, whose new text is `x`. -/
structure Configures (host : Host) (settings : Settings) (m : Nat) (t t' : FileTree) (p : Path)
    (x : Text) : Prop where
  written : Differs t p x → ∃ bits, Holds t' p x bits ∧ (KeepsBits host settings m → bits = m)
  /-- A file that reads as its new text is left as it is. -/
  kept : ¬ Differs t p x → ∃ bytes bits s, t.nodeAt p = .ok (.file bytes bits) ∧
    Utf8.decode bytes = .ok s ∧ Text.ofChars (Text.unifyNewlines s.toList) = x ∧
    t'.nodeAt p = .ok (.file bytes bits)
  holds_iff : KeepsBits host settings m → (Holds t' p x m ↔ Differs t p x ∨ Holds t p x m)

theorem Holds.congr {p : Path} {x : Text} (h : t'.nodeAt p = t.nodeAt p) :
    Holds t' p x m ↔ Holds t p x m := by
  rw [Holds, Holds, h]

theorem Holds.modeAt? {p : Path} {x : Text} (h : Holds t p x m) :
    Deployment.modeAt? t p = some m := by
  obtain ⟨bytes, -, hnode⟩ := h
  rw [Deployment.modeAt?, hnode]

/-- A file is as configured once it was written, and else where it was so before. -/
theorem configures_of_cases {p : Path} {x : Text}
    (hwritten : Differs t p x → Holds t' p x (stagedMode host settings m))
    (hkept : ¬ Differs t p x → ∃ bytes bits s, t.nodeAt p = .ok (.file bytes bits) ∧
      Utf8.decode bytes = .ok s ∧ Text.ofChars (Text.unifyNewlines s.toList) = x ∧
      t'.nodeAt p = .ok (.file bytes bits)) :
    Configures host settings m t t' p x where
  written hd := ⟨_, hwritten hd, stagedMode_eq_iff.2⟩
  kept := hkept
  holds_iff hkeeps := by
    by_cases hd : Differs t p x
    · have hholds := hwritten hd
      rw [stagedMode_eq_iff.2 hkeeps] at hholds
      exact iff_of_true hholds (.inl hd)
    · obtain ⟨bytes, bits, _, hnode, -, -, hnode'⟩ := hkept hd
      rw [Holds.congr (hnode'.trans hnode.symm), or_iff_right hd]

/-- The tree after a run that succeeds, whether it wrote or found nothing to write. -/
theorem Succeeded.deployed_of_modeBits (h : Succeeded host settings dir b text t s')
    (hm : modeBits settings.fileMode = .ok m) :
    Deployed t s'.tree dir text (stagedMode host settings m) (changed t dir text) := by
  cases h with
  | unchanged hnone htree _ =>
    rw [hnone, htree]
    exact .refl t dir text _
  | deployed _ hbits _ hdeployed _ =>
    obtain rfl := Except.ok.inj (hbits.symm.trans hm)
    exact hdeployed

/-- A target is written where it differs, and else it is left as it is. -/
theorem Deployed.configures
    (h : Deployed t t' dir text (stagedMode host settings m) (changed t dir text))
    {target : Target} (hshows : Shows t (dir.child target.fileName)) :
    Configures host settings m t t' (dir.child target.fileName) (text target) := by
  have hmem : target ∈ changed t dir text ↔ Differs t (dir.child target.fileName) (text target) :=
    mem_changed_iff.trans (differs_iff hshows).symm
  refine configures_of_cases (fun hd => ?_) fun hd => ?_
  · exact h.exists_node (hmem.2 hd)
  · have hnone : target ∉ changed t dir text := mt hmem.1 hd
    have hshown := shownText?_of_notMem_changed hnone
    obtain ⟨bytes, bits, hnode, hnode'⟩ := h.exists_kept hnone hshown
    obtain ⟨-, bytes', str, hread, hstr, htext⟩ := shownText?_eq_some_iff.1 hshown
    obtain rfl : bytes = bytes' :=
      Except.ok.inj ((FileTree.read_eq_ok_iff.2 ⟨bits, hnode⟩).symm.trans hread)
    exact ⟨bytes, bits, str, hnode, hstr, htext, hnode'⟩

/-- After a run that succeeds, each file that was absent or had another text holds its new text
with the permission bits of the settings, and each other file is as it was. -/
theorem configures_of_success (hmode : settings.fileMode = .int m) (hm : m < 4096)
    (h : run plan host settings b false { tree := t } = (.ok o, s')) (ho : o.success = true) :
    ∃ dir text, settings.confDir = .path dir ∧
      Contents.texts b settings.serverName host.name = .ok text ∧
      ∀ target : Target,
        Configures host settings m t s'.tree (dir.child target.fileName) (text target) := by
  rcases run_starts host settings b with ⟨dir, _, hdir, -, -⟩ | ⟨f, hfault⟩
  · obtain ⟨text, htext, hshows, -, hsucceeded⟩ := success_cases hdir h ho
    have hdeployed := hsucceeded.deployed_of_modeBits (m := m) (by rw [hmode, modeBits_int hm])
    exact ⟨dir, text, hdir, htext, fun target => hdeployed.configures (hshows target)⟩
  · rw [hfault plan host false _ rfl] at h
    cases h

/-- So does the run that found the first file there and wrote the second one. -/
theorem configures_secondWritten :
    ∃ text, Contents.texts ⟨[], []⟩ unownedSettings.serverName rootHost.name = .ok text ∧
      ∀ target : Target, Configures rootHost unownedSettings 0o640 firstThere secondWritten.2.tree
        ((Path.ofText "/auth.d").child target.fileName) (text target) := by
  have hsuccess : secondWritten.1.toOption.map Outcome.success = some true := by decide +kernel
  obtain ⟨o, hresult, ho⟩ := exists_ok_of_map_toOption hsuccess
  have hrun : run .none rootHost unownedSettings ⟨[], []⟩ false { tree := firstThere } =
      (.ok o, secondWritten.2) := by
    rw [← hresult, secondWritten]
  obtain ⟨dir, text, hdir, htext, hconfigures⟩ :=
    configures_of_success (m := 0o640) rfl (by decide) hrun ho
  obtain rfl : Path.ofText "/auth.d" = dir := by simpa [unownedSettings] using hdir
  exact ⟨text, htext, hconfigures⟩

/-! ## Tighter permission bits alone -/

/-- The first file has its very bytes, and everyone may read it. -/
def openlyThere : FileTree where
  nodes := [([("auth.d" : Text)], .directory), ([("auth.d" : Text), ("auth.conf" : Text)],
    .file (Utf8.encode ("# Generated by httpd-policy. Do not edit.\n" ++
      "# No authentication method enabled.\n")) 0o644)]

/-- A deployment of settings under which not everyone may. -/
def tightened : Except Failure Outcome × Session :=
  run .none rootHost unownedSettings ⟨[], []⟩ false { tree := openlyThere }

/-- The deployment succeeds, and the file does not have the bits of the settings. -/
theorem bits_not_tightened : unownedSettings.fileMode = .int 0o640 ∧
    tightened.1.toOption.map Outcome.success = some true ∧
    ∀ x, ¬ Holds tightened.2.tree ((Path.ofText "/auth.d").child Target.auth.fileName) x 0o640 := by
  have hfacts : (tightened.1.toOption.map Outcome.success,
      modeAt? tightened.2.tree ((Path.ofText "/auth.d").child Target.auth.fileName)) =
        (some true, some 0o644) := by
    decide +kernel
  obtain ⟨hsuccess, hbits⟩ := Prod.mk.inj hfacts
  refine ⟨rfl, hsuccess, fun x hholds => ?_⟩
  rw [hholds.modeAt?] at hbits
  exact absurd hbits (by decide)

end AccessPolicy.Deployment
