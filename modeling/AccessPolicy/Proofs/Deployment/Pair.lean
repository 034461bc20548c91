import AccessPolicy.Proofs.Deployment.Success

/-!
# The two files together

The limits in the one file are meant for the users of the other, so the two are to change
together. Nothing is moved until all files are staged, and staging touches neither the targets
nor any directory, however it ends (`Deployment.spares_of_writeAll`). A run that ends before its
first move therefore leaves the pair from before, and one that ends after its last move leaves the
new pair.

`Deployment.together_iff` : the one run that leaves a new file beside an old one is that which
ends at its second move, and it always does so unless the first file was the new one already or
the second one is (`Deployment.pair_cases`, `Deployment.torn_pair`).
-/

namespace AccessPolicy.Deployment

open AccessPolicy.Action (Within IsPreorder)
open FileTree (KeepsDirectories Extends ExtendsAt WritesAt)
open Session (Asks)

variable {plan : FaultPlan} {host : Host} {settings : Settings} {dir : Path} {b : Blocks}
  {t t' : FileTree} {text : Target → Text} {mode : Nat} {targets : List Target}
  {r : Except Failure Outcome} {s s' : Session} {target : Target}

/-! ## What staging leaves alone -/

/-- The place of a hidden file in the directory. No directory stands there. -/
def Hidden (t : FileTree) (dir : Path) (q : Place) : Prop :=
  ∃ d name, t.walk [] dir.names = .ok d ∧ q = d ++ [.char '.' :: name] ∧
    t.lookup q ≠ some .directory

/-- The directories are the same, and so is what stands where the targets' paths lead. -/
structure Spares (dir : Path) (t t' : FileTree) : Prop where
  directories : ∀ q, t'.lookup q = some .directory ↔ t.lookup q = some .directory
  targets : ∀ (target : Target) (q : Place), t.resolve (dir.child target.fileName) = .ok q →
    t'.lookup q = t.lookup q

namespace Spares

theorem refl (dir : Path) (t : FileTree) : Spares dir t t := ⟨fun _ => .rfl, fun _ _ _ => rfl⟩

theorem keepsDirectories (h : Spares dir t t') : KeepsDirectories t t' :=
  fun q => (h.directories q).2

theorem trans {t'' : FileTree} (h : Spares dir t t') (h' : Spares dir t' t'') :
    Spares dir t t'' where
  directories q := (h'.directories q).trans (h.directories q)
  targets target q hq :=
    (h'.targets target q (FileTree.resolve_mono h.keepsDirectories hq)).trans
      (h.targets target q hq)

/-- A tree that changed at hidden places only. -/
theorem of_hidden (h : ∀ q, t'.lookup q ≠ t.lookup q →
    Hidden t dir q ∧ t'.lookup q ≠ some .directory) : Spares dir t t' where
  directories q := by
    by_cases hq : t'.lookup q = t.lookup q
    · rw [hq]
    · obtain ⟨⟨_, _, -, -, hdir⟩, hdir'⟩ := h q hq
      exact iff_of_false hdir' hdir
  targets target q hq := by
    by_contra hne
    obtain ⟨⟨d, name, hd, rfl, -⟩, -⟩ := h q hne
    obtain ⟨d', -, -, hplace⟩ :=
      FileTree.walk_child (fileName_ne_dots target) (FileTree.walk_of_resolve hq)
    exact fileName_ne_hidden target name
      (List.singleton_inj.1 (List.append_inj' hplace rfl).2).symm

end Spares

theorem Hidden.of_spares {q : Place} (h : Hidden t dir q) (hs : Spares dir t t') :
    Hidden t' dir q := by
  obtain ⟨d, name, hd, hq, hdir⟩ := h
  exact ⟨d, name, FileTree.walk_mono hs.keepsDirectories _ _ _ hd, hq,
    fun hdir' => hdir ((hs.directories q).1 hdir')⟩

/-- If all temporary files are hidden, they stay so, and the targets are spared. -/
def SparesTargets (dir : Path) (s s' : Session) : Prop :=
  (∀ e ∈ s.staged, Hidden s.tree dir e.temporary) →
    Spares dir s.tree s'.tree ∧ ∀ e ∈ s'.staged, Hidden s'.tree dir e.temporary

theorem isPreorder_sparesTargets (dir : Path) : IsPreorder (SparesTargets dir) :=
  ⟨fun s hs => ⟨.refl dir s.tree, hs⟩, fun h h' hs => by
    obtain ⟨hspares, hhidden⟩ := h hs
    obtain ⟨hspares', hhidden'⟩ := h' hhidden
    exact ⟨hspares.trans hspares', hhidden'⟩⟩

theorem Hidden.ne_nil {q : Place} (h : Hidden t dir q) : q ≠ [] := by
  obtain ⟨d, name, -, rfl, -⟩ := h
  simp

/-- A temporary file that was made at a hidden place and then filled. -/
theorem spares_of_filled {q : Place} {path : Path} {x : Text} {y : Except Failure Unit}
    (hq : Hidden t dir q) (hmade : s.tree = t.set q (.file [] 0o600))
    (h : fillOrDiscard plan host settings path x q s = (y, s')) : Spares dir t s'.tree := by
  have hchange := within_fillOrDiscard hq.ne_nil plan host settings _ _ _ _ _ h
  have hset := fun p => FileTree.lookup_set t p (.file [] 0o600) hq.ne_nil
  refine .of_hidden fun p hp => ?_
  obtain rfl : q = p := by
    by_contra hne
    rw [hchange.other p hne, hmade, hset, if_neg hne] at hp
    exact hp rfl
  exact ⟨hq, hchange.undirected (by simp [hmade, hset])⟩

/-- Staging a file spares the targets, however it ends. -/
theorem within_stage (plan : FaultPlan) (host : Host) (settings : Settings) (dir : Path)
    (text : Target → Text) (a : Target) :
    Within (SparesTargets dir) (stage plan host settings dir text a) := by
  intro s r s' h hs
  unfold stage at h
  rcases Action.bind_cases h with ⟨q, s₁, hq, h⟩ | ⟨e, hq, -⟩
  swap
  · rcases createTemporary_cases hq with ⟨-, -, htree, hstaged⟩ | ⟨d, name, -, hok, -⟩
    · rw [htree, hstaged]
      exact ⟨.refl dir s.tree, hs⟩
    · cases hok
  obtain ⟨e, he, -⟩ | ⟨d, name, hd, hok, hnone, htree, hstaged⟩ := createTemporary_cases hq
  · cases he
  obtain rfl := Except.ok.inj hok
  have hhidden : Hidden s.tree dir (d ++ [.char '.' :: name]) :=
    ⟨d, name, hd, rfl, by rw [hnone]; simp⟩
  change (fillOrDiscard plan host settings _ _ _ >>= _) _ = _ at h
  rcases Action.bind_cases h with ⟨_, s₂, hx, h⟩ | ⟨e, hx, -⟩
  · have hspares := spares_of_filled hhidden htree hx
    have hchange := within_fillOrDiscard hhidden.ne_nil plan host settings _ _ _ _ _ hx
    obtain ⟨-, rfl⟩ := Action.modify_cases h
    refine ⟨hspares, fun e he => ?_⟩
    rw [hchange.staged, hstaged] at he
    rcases List.mem_append.1 he with hold | hnew
    · exact (hs e hold).of_spares hspares
    · obtain rfl := List.mem_singleton.1 hnew
      exact hhidden.of_spares hspares
  · have hspares := spares_of_filled hhidden htree hx
    have hchange := within_fillOrDiscard hhidden.ne_nil plan host settings _ _ _ _ _ hx
    refine ⟨hspares, fun e he => ?_⟩
    rw [hchange.staged, hstaged] at he
    exact (hs e he).of_spares hspares

theorem within_discardStaged (dir : Path) : Within (SparesTargets dir) discardStaged := by
  intro s r s' h hs
  rw [discardStaged_eq] at h
  obtain ⟨-, rfl⟩ := Prod.mk.inj h
  refine ⟨.of_hidden fun q hq => ?_, by simp⟩
  rw [lookup_foldl_erase q s.staged s.tree fun e he => (hs e he).ne_nil] at hq ⊢
  split_ifs at hq ⊢ with hmem
  · obtain ⟨e, he, rfl⟩ := List.mem_map.1 hmem
    exact ⟨hs e he, by simp⟩
  · exact absurd rfl hq

theorem rename_mem_of_install {e : Staged} {x : Except Failure Unit}
    (h : install plan e s = (x, s')) : .rename ∈ s'.calls := by
  have hR := Action.isPreorder_asks []
  have hrest : ∀ u, Within (Asks []) ((fun _ : Unit => do
      Action.change e.target fun t => t.rename e.temporary e.target
      Action.modify fun s => { s with staged := s.staged.drop 1 }
      Action.note .info ("Wrote " ++ e.target.text)) u) := fun _ =>
    hR.within_bind (Action.asks_change _ _) fun _ =>
      hR.within_bind (Action.within_modify fun _ => .of_eq rfl) fun _ =>
        Action.within_modify fun _ => .of_eq rfl
  obtain ⟨cs, hcs, -⟩ := Action.calls_of_call_bind hrest h
  rw [hcs]
  simp

/-- A run that moves nothing spares the targets. -/
theorem spares_of_writeAll {x : Except Failure Unit} (hstaged : s.staged = [])
    (h : writeAll plan host settings dir text targets s = (x, s')) (hno : .rename ∉ s'.calls) :
    Spares dir s.tree s'.tree := by
  have hR := isPreorder_sparesTargets dir
  have hstages := hR.within_forEach (within_stage plan host settings dir text) targets
  obtain ⟨y, s₁, hy, rfl, -⟩ := writeAll_body h
  rw [discardStaged_eq] at hno
  have hbody : SparesTargets dir s s₁ := by
    rcases Action.bind_cases hy with ⟨_, s₂, hst, hmoves⟩ | ⟨e, hst, -⟩
    swap
    · exact hstages _ _ _ hst
    rw [Action.get_bind] at hmoves
    cases hs₂ : s₂.staged with
    | nil =>
      rw [hs₂] at hmoves
      obtain ⟨-, rfl⟩ := Action.pure_cases hmoves
      exact hstages _ _ _ hst
    | cons e rest =>
      rw [hs₂] at hmoves
      rcases Action.bind_cases hmoves with ⟨_, s₃, hfirst, hrest⟩ | ⟨e, hfirst, -⟩
      · obtain ⟨cs, hcs, -⟩ := (Action.isPreorder_asks _).within_forEach (asks_install plan) rest
          _ _ _ hrest
        exact absurd (hcs ▸ List.mem_append_left cs (rename_mem_of_install hfirst)) hno
      · exact absurd (rename_mem_of_install hfirst) hno
  have hall := hR.trans hbody (within_discardStaged dir _ _ _ rfl)
  exact (hall (by simp [hstaged])).1

/-! ## Old and new files -/

/-- The content and the bits of the file at a place, if one stands there. -/
def fileAt? (t : FileTree) (q : Place) : Option (List UInt8 × Nat) :=
  match t.lookup q with
  | some (.file bytes mode) => some (bytes, mode)
  | _ => none

/-- Wherever the path of the target led or leads to, the file is as it was. -/
def HoldsOld (t t' : FileTree) (dir : Path) (target : Target) : Prop :=
  ∀ q, t.resolve (dir.child target.fileName) = .ok q ∨
    t'.resolve (dir.child target.fileName) = .ok q → fileAt? t' q = fileAt? t q

/-- The target holds its new text, with the bits that the settings ask for as far as the owner
leaves them. -/
def HoldsNew (host : Host) (settings : Settings) (b : Blocks) (dir : Path) (t' : FileTree)
    (target : Target) : Prop :=
  ∃ text mode q bytes, Contents.texts b settings.serverName host.name = .ok text ∧
    modeBits settings.fileMode = .ok mode ∧ encoded (text target) = .ok bytes ∧
    t'.resolve (dir.child target.fileName) = .ok q ∧
    fileAt? t' q = some (bytes, stagedMode host settings mode)

theorem fileAt?_of_extendsAt {p : Path} {q : Place} (h : ExtendsAt p t t' q) :
    fileAt? t' q = fileAt? t q := by
  rcases h with hsame | ⟨hnone, hdir, -⟩
  · simp [fileAt?, hsame]
  · simp [fileAt?, hnone, hdir]

theorem holdsOld_of_extends (h : Extends dir t t') : HoldsOld t t' dir target :=
  fun q _ => fileAt?_of_extendsAt (h q)

theorem holdsOld_of_spares {t₁ : FileTree} (hext : Extends dir t t₁) (h : Spares dir t₁ t') :
    HoldsOld t t' dir target := by
  intro q hq
  have hq₁ : t₁.resolve (dir.child target.fileName) = .ok q := by
    rcases hq with hbefore | hafter
    · exact FileTree.resolve_mono hext.keepsDirectories hbefore
    · exact FileTree.resolve_mono (fun p => (h.directories p).1) hafter
  rw [← fileAt?_of_extendsAt (hext q), fileAt?, fileAt?, h.targets target q hq₁]

theorem Deployed.holdsOld (h : Deployed t t' dir text mode targets) (htarget : target ∉ targets) :
    HoldsOld t t' dir target := fun _ hq =>
  fileAt?_of_extendsAt
    (h.kept_target htarget (hq.elim (FileTree.resolve_mono h.directories) id))

theorem Deployed.holdsNew (h : Deployed t t' dir text (stagedMode host settings mode) targets)
    (hm : modeBits settings.fileMode = .ok mode)
    (htext : Contents.texts b settings.serverName host.name = .ok text)
    (htarget : target ∈ targets) : HoldsNew host settings b dir t' target := by
  obtain ⟨q, bytes, hq, hb, hfile⟩ := h.written target htarget
  exact ⟨text, mode, q, bytes, htext, hm, hb, hq, by rw [fileAt?, hfile]⟩

/-! ## The pair -/

/-- The pair is the one from before or the new one, in which each file that was due has its new
text. -/
def Together (host : Host) (settings : Settings) (b : Blocks) (dir : Path) (t t' : FileTree) :
    Prop :=
  (∀ target, HoldsOld t t' dir target) ∨
    ∃ text, Contents.texts b settings.serverName host.name = .ok text ∧
      (∀ target ∈ changed t dir text, HoldsNew host settings b dir t' target) ∧
      ∀ target ∉ changed t dir text, HoldsOld t t' dir target

/-- Both files were due, the first one is new and the second one is old. -/
def Torn (host : Host) (settings : Settings) (b : Blocks) (dir : Path) (t t' : FileTree) :
    Prop :=
  (∃ text, Contents.texts b settings.serverName host.name = .ok text ∧
      changed t dir text = Target.all) ∧
    HoldsNew host settings b dir t' .auth ∧ HoldsOld t t' dir .limits

/-- The last call is the second move. A run that moves both files goes on to the marker. -/
def EndsAtSecondMove (calls : List Call) : Prop :=
  calls.getLast? = some .rename ∧ calls.count .rename = 2

instance (calls : List Call) : Decidable (EndsAtSecondMove calls) :=
  inferInstanceAs (Decidable (_ ∧ _))

/-- The pair is torn where the run ends at its second move, and else together. -/
def PairsUp (host : Host) (settings : Settings) (b : Blocks) (dir : Path) (t t' : FileTree)
    (calls : List Call) : Prop :=
  ¬ EndsAtSecondMove calls ∧ Together host settings b dir t t' ∨
    EndsAtSecondMove calls ∧ Torn host settings b dir t t'

theorem not_endsAtSecondMove_of_notMem {calls : List Call} (h : .rename ∉ calls) :
    ¬ EndsAtSecondMove calls := fun hend =>
  h (List.mem_of_mem_getLast? (by simp [hend.1]))

theorem pairsUp_of_old {calls : List Call} (hno : .rename ∉ calls)
    (h : ∀ target, HoldsOld t t' dir target) : PairsUp host settings b dir t t' calls :=
  .inl ⟨not_endsAtSecondMove_of_notMem hno, .inl h⟩

/-- The marker is not reached by a move. -/
theorem not_endsAtSecondMove_of_writeMarker {server : Entries} {x : Except Failure Unit}
    (hpass : settings.passthrough = .ok server)
    (h : writeMarker plan host settings dir targets b s = (x, s')) :
    ¬ EndsAtSecondMove s'.calls := by
  rintro ⟨hlast, -⟩
  rcases writeMarker_cases h with ⟨-, f, hf, -⟩ | ⟨_, cs, -, hcalls, rfl | rfl, -⟩
  · rw [hpass] at hf
    cases hf
  · simp [hcalls] at hlast
  · simp [hcalls] at hlast

/-- A move that is refused leaves what was moved before it. -/
theorem pairsUp_of_moved {calls : List Call} {n : Nat}
    (hm : modeBits settings.fileMode = .ok mode)
    (htext : Contents.texts b settings.serverName host.name = .ok text)
    (hn : n < (changed t dir text).length) (hlast : calls.getLast? = some .rename)
    (hcount : calls.count .rename = n + 1)
    (h : Deployed t t' dir text (stagedMode host settings mode) ((changed t dir text).take n)) :
    PairsUp host settings b dir t t' calls := by
  have hsub : (changed t dir text).Sublist Target.all := List.filter_sublist
  have hlength : (changed t dir text).length ≤ 2 := hsub.length_le
  obtain rfl | rfl : n = 0 ∨ n = 1 := by omega
  · refine .inl ⟨fun hend => ?_, .inl fun target => h.holdsOld (by simp)⟩
    have := hend.2
    omega
  · have hall : changed t dir text = Target.all :=
      hsub.eq_of_length (Nat.le_antisymm hlength hn)
    rw [hall] at h
    exact .inr ⟨⟨hlast, hcount⟩, ⟨text, htext, hall⟩, h.holdsNew hm htext (by decide),
      h.holdsOld (by decide)⟩

/-- A run that came to write. -/
theorem Applies.pairsUp {server : Entries} (hpass : settings.passthrough = .ok server)
    (htext : Contents.texts b settings.serverName host.name = .ok text) {s₁ s₂ : Session}
    {r₁ : Except Failure Outcome}
    (h : Applies plan host settings dir b text t r s' s₁ r₁ s₂) :
    PairsUp host settings b dir t s'.tree s'.calls := by
  rw [h.tree, h.calls]
  rcases Action.bind_cases h.applied with ⟨_, s₃, hmake, happ⟩ | ⟨e, hmake, -⟩
  swap
  · -- the directory could not be made
    have hext := (within_makeDirectories plan dir _ _ _ hmake).tree
    exact pairsUp_of_old (rename_notMem_of_makeDirectories h.reads hmake) fun target =>
      holdsOld_of_extends (h.start ▸ hext)
  have hmoves := rename_notMem_of_makeDirectories h.reads hmake
  rcases Action.bind_cases happ with ⟨_, s₄, hwrite, happ⟩ | ⟨e, hwrite, -⟩
  · -- both files were moved
    obtain ⟨x, hmarker, -⟩ := Action.bind_pure_cases happ
    obtain ⟨mode, hm, hdeployed⟩ := h.deployed_of_moved hmake hwrite hmarker
    exact .inl ⟨not_endsAtSecondMove_of_writeMarker hpass hmarker, .inr ⟨text, htext,
      fun target ht => hdeployed.holdsNew hm htext ht, fun target ht => hdeployed.holdsOld ht⟩⟩
  by_cases hmem : .rename ∈ s₂.calls
  · -- a move was refused
    obtain ⟨mode, hm⟩ := modeBits_of_writeAll h.pending hmoves hwrite (.inr hmem)
    obtain ⟨w, rfl, rfl, hw, hext, hmid⟩ := h.exists_task hmake (stagedMode host settings mode)
    rcases writeAll_cases hm hw hmid (nodup_changed t w.dir w.text) hmoves hwrite with
      ⟨hok, -⟩ | ⟨e, -, hno, -⟩ | ⟨e, n, -, hn, hlast, hcount, hmid'⟩
    · cases hok
    · exact absurd hmem hno
    · have hdeployed := Deployed.of_midway hmid' hext (.refl _ _)
      rw [hw] at hdeployed
      exact pairsUp_of_moved hm htext hn hlast hcount hdeployed
  · -- staging failed
    have hmade := within_makeDirectories plan dir _ _ _ hmake
    have hspares := spares_of_writeAll (hmade.staged.trans h.staged) hwrite hmem
    exact pairsUp_of_old hmem fun target => holdsOld_of_spares (h.start ▸ hmade.tree) hspares

/-- However a run ends, the pair is torn where it ends at its second move, and else together. -/
theorem pair_cases {server : Entries} {dryRun : Bool} (hdir : settings.confDir = .path dir)
    (hpass : settings.passthrough = .ok server)
    (h : run plan host settings b dryRun { tree := t } = (r, s')) :
    PairsUp host settings b dir t s'.tree s'.calls := by
  rcases run_cases hdir h with ⟨rfl, -⟩ | ⟨text, htext, hrun⟩
  · exact pairsUp_of_old (by simp) fun target => holdsOld_of_extends (.refl dir t)
  rcases runIn_cases hrun with honly | ⟨-, s₁, r₁, s₂, happlies⟩
  · refine pairsUp_of_old (fun hmem => absurd (honly.calls _ hmem) (by decide)) fun target => ?_
    rw [honly.tree]
    exact holdsOld_of_extends (.refl dir t)
  · exact happlies.pairsUp hpass htext

/-- Whichever calls fail, the two files stay together, unless the run ends at its second move, the
first file is not the one from before and the second one is not new. -/
theorem together_iff {server : Entries} {dryRun : Bool} (hdir : settings.confDir = .path dir)
    (hpass : settings.passthrough = .ok server)
    (h : run plan host settings b dryRun { tree := t } = (r, s')) :
    Together host settings b dir t s'.tree ↔
      ¬ (EndsAtSecondMove s'.calls ∧ ¬ HoldsOld t s'.tree dir .auth ∧
        ¬ HoldsNew host settings b dir s'.tree .limits) := by
  rcases pair_cases hdir hpass h with ⟨hend, htogether⟩ | ⟨hend, ⟨text, htext, hall⟩, hnew, hold⟩
  · exact iff_of_true htogether fun hthree => hend hthree.1
  constructor
  · rintro (hbefore | ⟨text', htext', hdue, -⟩) ⟨-, hauth, hlimits⟩
    · exact hauth (hbefore .auth)
    · obtain rfl := Except.ok.inj (htext.symm.trans htext')
      exact hlimits (hdue .limits (by rw [hall]; decide))
  · intro hnot
    by_cases hauth : HoldsOld t s'.tree dir .auth
    · exact .inl fun target => by
        cases target with
        | auth => exact hauth
        | limits => exact hold
    · have hlimits : HoldsNew host settings b dir s'.tree .limits := by
        by_contra hlimits
        exact hnot ⟨hend, hauth, hlimits⟩
      refine .inr ⟨text, htext, fun target _ => ?_, fun target htarget => ?_⟩
      · cases target with
        | auth => exact hnew
        | limits => exact hlimits
      · exact absurd target.mem_all (hall ▸ htarget)

/-- A deployment to an empty tree of which one move is refused. -/
def refusedAt (n : Nat) : Except Failure Outcome × Session :=
  run (.single .rename n (.system "x")) rootHost unownedSettings ⟨[], []⟩ false { tree := .empty }

/-- Where the first move is refused, the pair stays the one from before. -/
theorem together_refusedAt_zero : Together rootHost unownedSettings ⟨[], []⟩ (.ofText "/auth.d")
    .empty (refusedAt 0).2.tree :=
  (together_iff rfl rfl (Prod.eta (refusedAt 0)).symm).2 fun h => absurd h.1 (by decide +kernel)

/-- Where the second move is refused, the first file is new and the second one is missing. -/
theorem torn_pair : ¬ Together rootHost unownedSettings ⟨[], []⟩ (.ofText "/auth.d") .empty
    (refusedAt 1).2.tree := by
  rintro (hbefore | ⟨text, -, hdue, -⟩)
  · have hauth := hbefore .auth ["auth.d", "auth.conf"] (.inr (by decide +kernel))
    exact absurd hauth (by decide +kernel)
  · have hnone : shownText? .empty ((Path.ofText "/auth.d").child Target.limits.fileName) =
        none := by
      decide +kernel
    have hmem : Target.limits ∈ changed .empty (.ofText "/auth.d") text := by
      simp [mem_changed_iff, hnone]
    obtain ⟨-, mode, q, bytes, -, -, -, hq, hfile⟩ := hdue .limits hmem
    have hplace : (refusedAt 1).2.tree.resolve
        ((Path.ofText "/auth.d").child Target.limits.fileName) = .ok ["auth.d", "limits.conf"] := by
      decide +kernel
    obtain rfl := Except.ok.inj (hplace.symm.trans hq)
    have hmissing : fileAt? (refusedAt 1).2.tree ["auth.d", "limits.conf"] = none := by
      decide +kernel
    rw [hmissing] at hfile
    cases hfile

end AccessPolicy.Deployment
