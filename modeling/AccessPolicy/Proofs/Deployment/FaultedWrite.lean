import AccessPolicy.Proofs.Deployment.Marker
import AccessPolicy.Proofs.Deployment.Staging

/-!
# A write that is refused

What a run leaves behind whose last call was refused while files were staged or moved
(`Deployment.EndedBy`). The targets before the refused move have their new texts and
permission bits, every other place is as it was, the marker's among them, and no temporary
file is left (`Deployment.Installed`).

`Deployment.installed_iff` : the bits are those of the settings unless a file was moved whose
owner was changed and whose bits the change of owner clears. The bits are set before the
owner, so the set-user-id bit never outlives a change of owner
(`Deployment.cleared_bits`).
-/

namespace AccessPolicy.Deployment

variable {plan : FaultPlan} {host : Host} {settings : Settings} {dir : Path} {b : Blocks}
  {t t' : FileTree} {text : Target → Text} {mode : Nat} {r : Except Failure Outcome}
  {s s' : Session} {c : Call}

/-- The run was ended by the refusal of its last call. A run that moved all files and then
fails on the settings' values was not : it ends in no outcome. -/
structure EndedBy (plan : FaultPlan) (host : Host) (settings : Settings) (c : Call)
    (r : Except Failure Outcome) (s' : Session) : Prop where
  kind : c ∈ [Call.createTemporary, .setMode, .setOwner, .rename]
  last : s'.calls.getLast? = some c
  refusal : c ≠ .rename → ∀ e, raisedBy plan host settings s'.calls c = some e → e.IsRefusal
  outcome : c = .rename → ∃ o, r = .ok o

/-- How many files were moved before the last call. -/
def movesBefore (c : Call) (calls : List Call) : Nat :=
  if c = .rename then calls.count .rename - 1 else 0

/-- These targets, and no others, have their new texts and bits. Every other place is as it
was, except that directories on the way may have been made. -/
structure Installed (t t' : FileTree) (dir : Path) (text : Target → Text) (mode : Nat)
    (targets : List Target) : Prop where
  written : ∀ target ∈ targets, ∃ place bytes,
    t'.resolve (dir.child target.fileName) = .ok place ∧ encoded (text target) = .ok bytes ∧
      t'.lookup place = some (.file bytes mode)
  kept : ∀ q, (∀ target ∈ targets, t'.resolve (dir.child target.fileName) ≠ .ok q) →
    FileTree.ExtendsAt dir t t' q

/-- Once nothing is staged any more, the targets that were moved are all that is written. -/
theorem Task.Midway.installed {w : Task} {done : List Target} (hmid : w.Midway done [] t' [])
    (hext : FileTree.Extends w.dir t w.base) : Installed t t' w.dir w.text w.mode done where
  written a ha := by
    obtain ⟨bytes, hb, hl⟩ := (hmid.written a ha).filled
    exact ⟨_, bytes, FileTree.resolve_mono hmid.keepsDirectories (hmid.written a ha).resolve,
      hb, hl⟩
  kept q hq := by
    have hdone : q ∉ done.map w.target := by
      intro hmem
      obtain ⟨a, ha, rfl⟩ := List.mem_map.1 hmem
      exact hq a ha (FileTree.resolve_mono hmid.keepsDirectories (hmid.written a ha).resolve)
    have hkept : t'.lookup q = w.base.lookup q := hmid.kept q hdone (by simp)
    rcases hext q with hsame | ⟨hnone, hdir, n, hw⟩
    · exact .inl (hkept.trans hsame)
    · exact .inr ⟨hnone, hkept.trans hdir, n,
        FileTree.walk_mono hmid.keepsDirectories _ _ _ hw⟩

theorem Installed.mode_unique {a a' : Nat} {targets : List Target}
    (h : Installed t t' dir text a targets) (h' : Installed t t' dir text a' targets)
    (hne : targets ≠ []) : a = a' := by
  obtain ⟨target, rest, rfl⟩ := List.exists_cons_of_ne_nil hne
  obtain ⟨place, bytes, hp, -, hl⟩ := h.written target List.mem_cons_self
  obtain ⟨place', bytes', hp', -, hl'⟩ := h'.written target List.mem_cons_self
  rw [hp] at hp'
  rw [← Except.ok.inj hp', hl] at hl'
  exact (Node.file.inj (Option.some.inj hl')).2

theorem Installed.congr_mode {a : Nat} (h : Installed t t' dir text a []) (a' : Nat) :
    Installed t t' dir text a' [] :=
  ⟨by simp, h.kept⟩

/-- A target that was not written is as it was. -/
theorem Installed.kept_target {targets : List Target} (h : Installed t t' dir text mode targets)
    {target : Target} (ht : target ∉ targets) {q : Place}
    (hq : t'.resolve (dir.child target.fileName) = .ok q) :
    FileTree.ExtendsAt dir t t' q := by
  refine h.kept q fun other hother hplace => ht ?_
  have hname := FileTree.name_eq_of_resolve (fileName_ne_dots other) (fileName_ne_dots target)
    hplace hq
  rwa [← fileName_injective hname]

/-! ## The run -/

theorem nodup_changed (t : FileTree) (dir : Path) (text : Target → Text) :
    (changed t dir text).Nodup :=
  List.Nodup.filter _ (by decide)

theorem EndedBy.mem_calls (h : EndedBy plan host settings c r s') : c ∈ s'.calls :=
  List.mem_of_mem_getLast? (by simp [h.last])

theorem EndedBy.isRefused (h : EndedBy plan host settings c r s') (hc : c ≠ .rename) :
    IsRefused plan host settings s'.calls := by
  refine ⟨c, ?_, h.last, h.refusal hc⟩
  have hkind := h.kind
  simp only [List.mem_cons, List.not_mem_nil, or_false] at hkind ⊢
  rcases hkind with rfl | rfl | rfl | rfl
  · exact .inl rfl
  · exact .inr (.inl rfl)
  · exact .inr (.inr rfl)
  · exact absurd rfl hc

/-- A run that came to the marker was not ended by a refusal. -/
theorem not_endedBy_marker {calls cs : List Call} (hcs : cs = [] ∨ cs = [.write])
    (hcalls : s'.calls = calls ++ .openMarker :: cs) (h : EndedBy plan host settings c r s') :
    False := by
  have hlast := h.last
  have hkind := h.kind
  rw [hcalls] at hlast
  rcases last_markerCall hcs hlast with rfl | rfl
  · exact absurd hkind (by decide)
  · exact absurd hkind (by decide)

/-- A run that moved all files was not ended by a refusal. -/
theorem not_endedBy_of_moved {targets : List Target} {message : Text} {s₂ : Session}
    {r₁ : Except Failure Outcome} (hlast : s.calls.getLast? = some .rename)
    (h : (do
      writeMarker plan host settings dir targets b
      return outcome dir b false targets message : Action Outcome) s = (r₁, s₂))
    (hcalls : s'.calls = s₂.calls) (hr : r = settled r₁)
    (hend : EndedBy plan host settings c r s') : False := by
  rcases Action.bind_cases h with ⟨_, s₃, hmarker, hdone⟩ | ⟨e, hmarker, rfl⟩
  · obtain ⟨-, rfl⟩ := Action.pure_cases hdone
    rcases writeMarker_cases hmarker with ⟨-, f, -, hf⟩ | ⟨server, cs, -, hcs, hwrites, -⟩
    · exact absurd hf (by simp)
    · exact not_endedBy_marker hwrites (hcalls.trans hcs) hend
  · rcases writeMarker_cases hmarker with ⟨rfl, f, -, hf⟩ | ⟨server, cs, -, hcs, hwrites, -⟩
    · have hc : c = .rename := by
        have hlast' := hend.last
        rw [hcalls, hlast] at hlast'
        exact (Option.some.inj hlast').symm
      obtain ⟨o, ho⟩ := hend.outcome hc
      rw [hr, Except.error.inj hf] at ho
      exact absurd ho (by simp [settled])
    · exact not_endedBy_marker hwrites (hcalls.trans hcs) hend

/-- What a run writes once its directory is there, and that nothing is written yet. -/
theorem Applies.exists_task {s₁ s₂ s₃ : Session} {r₁ : Except Failure Outcome}
    (h : Applies plan host settings dir b text t r s' s₁ r₁ s₂)
    (hmake : makeDirectories plan dir s₁ = (.ok (), s₃)) (mode : Nat) :
    ∃ w : Task, w.dir = dir ∧ w.text = text ∧ w.mode = mode ∧
      FileTree.Extends dir t w.base ∧ w.Midway [] [] s₃.tree s₃.staged := by
  have hpass := within_makeDirectories plan dir _ _ _ hmake
  obtain ⟨d, hstands, -⟩ := makeDirectories_ok hmake
  refine ⟨⟨dir, d, s₃.tree, text, mode, hstands⟩, rfl, rfl, rfl, h.start ▸ hpass.tree, ?_⟩
  rw [hpass.staged, h.staged]
  exact .start _

/-- A run whose last call was refused has moved the targets before it and nothing else. -/
theorem installed_of_applies {s₁ s₂ : Session} {r₁ : Except Failure Outcome}
    (hm : modeBits settings.fileMode = .ok mode)
    (h : Applies plan host settings dir b text t r s' s₁ r₁ s₂)
    (hend : EndedBy plan host settings c r s') :
    movesBefore c s'.calls < (changed t dir text).length ∧
      Installed t s'.tree dir text (stagedMode host settings mode)
        ((changed t dir text).take (movesBefore c s'.calls)) := by
  have happ := h.applied
  rcases Action.bind_cases happ with ⟨_, s₃, hmake, hrest⟩ | ⟨e, hmake, -⟩
  swap
  · -- the directory could not be made
    have hcalls := mem_calls_makeDirectories h.reads hmake c (h.calls ▸ hend.mem_calls)
    rcases List.mem_pair.1 hcalls with rfl | rfl
    · exact absurd hend.kind (by decide)
    · exact absurd hend.kind (by decide)
  obtain ⟨w, rfl, rfl, hw, hext, hmid⟩ := h.exists_task hmake (stagedMode host settings mode)
  have hmoves := rename_notMem_of_makeDirectories h.reads hmake
  rcases Action.bind_cases hrest with ⟨_, s₄, hwrite, hmarker⟩ | ⟨e, hwrite, -⟩
  · -- all files were moved
    exfalso
    rcases writeAll_cases hm hw hmid (nodup_changed t w.dir w.text) hmoves hwrite with
      ⟨-, hnil | hlast, -⟩ | ⟨e, he, -⟩ | ⟨e, n, he, -⟩
    · exact h.pending hnil
    · exact not_endedBy_of_moved hlast hmarker h.calls h.result hend
    · exact absurd he (by simp)
    · exact absurd he (by simp)
  · rw [h.tree, h.calls]
    rcases writeAll_cases hm hw hmid (nodup_changed t w.dir w.text) hmoves hwrite with
      ⟨hok, -⟩ | ⟨e, -, hnone, hkept⟩ | ⟨e, n, -, hn, hlast, hcount, hmid'⟩
    · exact absurd hok (by simp)
    · have hc : c ≠ .rename := by
        rintro rfl
        exact hnone (h.calls ▸ hend.mem_calls)
      rw [movesBefore, if_neg hc, List.take_zero]
      exact ⟨List.length_pos_iff.2 h.pending,
        hw ▸ (hkept (h.calls ▸ hend.isRefused hc)).installed hext⟩
    · have hc : c = .rename := by
        have hlast' := hend.last
        rw [h.calls, hlast] at hlast'
        exact (Option.some.inj hlast').symm
      rw [movesBefore, if_pos hc, hcount, Nat.add_sub_cancel]
      exact ⟨hn, hw ▸ hmid'.installed hext⟩

theorem modeBits_int {m : Nat} (hm : m < 4096) : modeBits (.int m) = .ok m := by
  have hlow : (-2147483648 : Int) ≤ m := by omega
  have hhigh : (m : Int) ≤ 2147483647 := by omega
  have hmod : (m : Int) % 4096 = m := Int.emod_eq_of_lt (by omega) (by omega)
  rw [Document.int, modeBits, if_pos ⟨hlow, hhigh⟩, hmod, Int.toNat_natCast]

theorem stagedMode_eq_iff {m : Nat} :
    stagedMode host settings m = m ↔
      (settings.owner.isGiven = false ∧ settings.group.isGiven = false) ∨
        host.keptBits m = m := by
  unfold stagedMode
  split_ifs with hgiven
  · rw [Bool.or_eq_true] at hgiven
    refine ⟨.inr, fun h => h.resolve_left ?_⟩
    rintro ⟨howner, hgroup⟩
    rcases hgiven with h | h
    · exact absurd (howner.symm.trans h) (by simp)
    · exact absurd (hgroup.symm.trans h) (by simp)
  · rw [Bool.or_eq_true, not_or, Bool.not_eq_true, Bool.not_eq_true] at hgiven
    exact ⟨fun _ => .inl hgiven, fun _ => rfl⟩

/-- The bits that were asked for stand where they are those that the owner leaves, and where
no target is written. -/
theorem Installed.iff_of_staged {m a n : Nat} {targets : List Target} (hn : n < targets.length)
    (h : Installed t t' dir text a (targets.take n)) :
    Installed t t' dir text m (targets.take n) ↔ n = 0 ∨ a = m := by
  constructor
  · intro h'
    rcases Nat.eq_zero_or_pos n with hzero | hpos
    · exact .inl hzero
    · refine .inr (h.mode_unique h' fun hnil => ?_)
      have hlength := congrArg List.length hnil
      rw [List.length_take, List.length_nil] at hlength
      omega
  · rintro (rfl | rfl)
    · rw [List.take_zero] at h ⊢
      exact h.congr_mode m
    · exact h

/-- A run that was ended by a refusal came to write. -/
theorem applies_of_endedBy (h : runIn plan host settings dir b text false { tree := t } = (r, s'))
    (hend : EndedBy plan host settings c r s') :
    ∃ s₁ r₁ s₂, Applies plan host settings dir b text t r s' s₁ r₁ s₂ := by
  rcases runIn_cases h with honly | ⟨-, happ⟩
  · obtain rfl := honly.calls c hend.mem_calls
    exact absurd hend.kind (by decide)
  · exact happ

/-- Where a run is ended by a refusal, exactly the targets before the refused move are written.
Their bits are those of the settings unless a change of owner has cleared some. -/
theorem installed_iff {m : Nat} (hdir : settings.confDir = .path dir)
    (hmode : settings.fileMode = .int m) (hm : m < 4096)
    (h : run plan host settings b false { tree := t } = (r, s'))
    (hend : EndedBy plan host settings c r s') :
    ∃ text, Contents.texts b settings.serverName host.name = .ok text ∧
      let written := (changed t dir text).take (movesBefore c s'.calls)
      Installed t s'.tree dir text (stagedMode host settings m) written ∧
        (Installed t s'.tree dir text m written ↔
          movesBefore c s'.calls = 0 ∨
            (settings.owner.isGiven = false ∧ settings.group.isGiven = false) ∨
            host.keptBits m = m) := by
  have hbits : modeBits settings.fileMode = .ok m := by rw [hmode, modeBits_int hm]
  rcases run_cases hdir h with ⟨rfl, -⟩ | ⟨text, htext, hrun⟩
  · exact absurd hend.last (by simp)
  · obtain ⟨s₁, r₁, s₂, happ⟩ := applies_of_endedBy hrun hend
    obtain ⟨hn, hinst⟩ := installed_of_applies hbits happ hend
    refine ⟨text, htext, hinst, ?_⟩
    rw [hinst.iff_of_staged hn, stagedMode_eq_iff]

/-! ## A change of owner that clears bits -/

/-- A host on which the accounts of the superuser are known. -/
def rootHost : Host where
  name := "host.test"
  timestamp := "T"
  changeOwner := Ownership.change (· == "root") (· == "root")

/-- Settings that ask for the set-user-id bit on files of the superuser. -/
def ownedSettings : Settings where
  confDir := .path (.ofText "/auth.d")
  owner := .text "root"
  fileMode := .int 0o4640

/-- The second of two moves is refused. -/
def refusedMove : Except Failure Outcome × Session :=
  run (.single .rename 1 (.system "x")) rootHost ownedSettings ⟨[], []⟩ false { tree := .empty }

theorem endedBy_refusedMove :
    EndedBy (.single .rename 1 (.system "x")) rootHost ownedSettings .rename refusedMove.1
      refusedMove.2 where
  kind := by decide
  last := by decide +kernel
  refusal h := absurd rfl h
  outcome _ := by
    have hok : refusedMove.1.isOk = true := by decide +kernel
    cases h : refusedMove.1 with
    | ok o => exact ⟨o, rfl⟩
    | error e =>
      rw [h] at hok
      cases hok

theorem installed_refusedMove :
    EndedBy (.single .rename 1 (.system "x")) rootHost ownedSettings .rename refusedMove.1
        refusedMove.2 ∧
      ∃ text, Contents.texts ⟨[], []⟩ ownedSettings.serverName rootHost.name = .ok text ∧
        let written := (changed .empty (.ofText "/auth.d") text).take
          (movesBefore .rename refusedMove.2.calls)
        Installed .empty refusedMove.2.tree (.ofText "/auth.d") text
            (stagedMode rootHost ownedSettings 0o4640) written ∧
          (Installed .empty refusedMove.2.tree (.ofText "/auth.d") text 0o4640 written ↔
            movesBefore .rename refusedMove.2.calls = 0 ∨
              (ownedSettings.owner.isGiven = false ∧ ownedSettings.group.isGiven = false) ∨
              rootHost.keptBits 0o4640 = 0o4640) :=
  ⟨endedBy_refusedMove,
    installed_iff rfl rfl (by decide) (Prod.eta refusedMove).symm endedBy_refusedMove⟩

/-- The permission bits of the file where a path leads. -/
def modeAt? (t : FileTree) (p : Path) : Option Nat :=
  match t.nodeAt p with
  | .ok (.file _ mode) => some mode
  | _ => none

theorem Installed.modeAt? {targets : List Target} (h : Installed t t' dir text mode targets)
    {target : Target} (ht : target ∈ targets) :
    Deployment.modeAt? t' (dir.child target.fileName) = some mode := by
  obtain ⟨place, bytes, hp, -, hl⟩ := h.written target ht
  simp [Deployment.modeAt?, FileTree.nodeAt, hp, hl, bind, Except.bind]

/-- The file that was moved has lost the bit that the settings ask for. -/
theorem cleared_bits :
    ∃ text, Contents.texts ⟨[], []⟩ ownedSettings.serverName rootHost.name = .ok text ∧
      ¬ Installed .empty refusedMove.2.tree (.ofText "/auth.d") text 0o4640
        ((changed .empty (.ofText "/auth.d") text).take
          (movesBefore .rename refusedMove.2.calls)) := by
  have hok : (Contents.texts ⟨[], []⟩ ownedSettings.serverName rootHost.name).isOk = true := by
    decide +kernel
  cases htext : Contents.texts ⟨[], []⟩ ownedSettings.serverName rootHost.name with
  | error f =>
    rw [htext] at hok
    cases hok
  | ok text =>
    refine ⟨text, rfl, fun h => ?_⟩
    have hnone : ∀ target : Target,
        shownText? .empty ((Path.ofText "/auth.d").child target.fileName) = none := by
      intro target
      cases target <;> decide +kernel
    have hmoves : movesBefore .rename refusedMove.2.calls = 1 := by decide +kernel
    have hmem : Target.auth ∈ (changed .empty (.ofText "/auth.d") text).take
        (movesBefore .rename refusedMove.2.calls) := by
      simp [hmoves, changed, hnone, Target.all]
    have hbits : modeAt? refusedMove.2.tree ((Path.ofText "/auth.d").child "auth.conf") =
        some 0o640 := by
      decide +kernel
    have := h.modeAt? hmem
    rw [Target.fileName, hbits] at this
    exact absurd this (by decide)

end AccessPolicy.Deployment
