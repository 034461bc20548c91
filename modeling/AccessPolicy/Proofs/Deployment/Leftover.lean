import AccessPolicy.Proofs.Deployment.Pair

/-!
# What odd settings leave behind

Nobody checks the values of the settings before a deployment uses them. So a run on which no call
fails may still stop at a text that has no bytes, at permission bits or an owner that are none, or
at values that JSON has no form for. Staging removes its temporary file where the file system or
the accounts refuse it, but not at such a value; and when the marker is written, the files are
moved already.

`Deployment.tidy_iff` : a run leaves a temporary file exactly if it began one that cannot be
filled (`Deployment.Strands`), and a change that no marker describes exactly if the marker or the
second file cannot be written (`Deployment.Hindered`). With no call that fails, each step has one
fact about how it ends (`Deployment.stage_none`, `Deployment.install_none`,
`Deployment.writeMarker_none`), and `Deployment.Applies.remains` puts them together.
-/

namespace AccessPolicy.Deployment

open AccessPolicy.Action (Within IsPreorder)
open FileTree (KeepsDirectories Extends ExtendsAt WritesAt)
open Session (Asks)

variable {host : Host} {settings : Settings} {dir : Path} {b : Blocks} {t t' : FileTree}
  {text : Target → Text} {targets done rest : List Target} {s s' : Session} {w : Task}
  {r : Except Failure Unit}

/-! ## Calls that do not fail -/

theorem refuses_none : FaultPlan.none.Refuses := fun _ _ _ h => absurd h (by simp [FaultPlan.none])

theorem call_none_bind {α : Type} {c : Call} {f : Unit → Action α} :
    (Action.call .none c >>= f) s = f () { s with calls := s.calls ++ [c] } := rfl

/-! ## Filling a temporary file -/

/-- A file with this text cannot be filled : the text has no bytes, or the settings ask for
permission bits or for an owner that are none. -/
inductive Unfillable (host : Host) (settings : Settings) (x : Text) : Prop
  | text {f : Fault} : encoded x = .error f → Unfillable host settings x
  | mode {f : Fault} : modeBits settings.fileMode = .error f → Unfillable host settings x
  | owner {e : Failure} : (settings.owner.isGiven || settings.group.isGiven) = true →
      host.changeOwner settings.owner settings.group = .error e → ¬ e.IsRefusal →
      Unfillable host settings x

/-- What filling fails with at a value that stands against it : a fault, or what the host words
itself. -/
def IsObjection (host : Host) (settings : Settings) (e : Failure) : Prop :=
  (∃ f, e = .fault f) ∨
    (∃ m, e = .reported m) ∧ host.changeOwner settings.owner settings.group = .error e

theorem IsObjection.not_isRefusal {e : Failure} (h : IsObjection host settings e) :
    ¬ e.IsRefusal := by
  rcases h with ⟨f, rfl⟩ | ⟨⟨m, rfl⟩, -⟩
  · exact id
  · exact id

theorem isObjection_of_owner {e : Failure}
    (h : host.changeOwner settings.owner settings.group = .error e) (he : ¬ e.IsRefusal) :
    IsObjection host settings e := by
  cases e with
  | system m => exact absurd trivial he
  | lookup m => exact absurd trivial he
  | reported m => exact .inr ⟨⟨m, rfl⟩, h⟩
  | fault f => exact .inl ⟨f, rfl⟩

/-- The last step of filling. -/
def giveOwner (plan : FaultPlan) (host : Host) (settings : Settings) (temporary : Place)
    (mode : Nat) : Action Unit := do
  if settings.owner.isGiven || settings.group.isGiven then
    Action.call plan .setOwner
    match host.changeOwner settings.owner settings.group with
    | .ok () =>
      Action.modify fun s => { s with tree := s.tree.setMode temporary (host.keptBits mode) }
    | .error e => Action.fail e

theorem giveOwner_none {q : Place} {mode : Nat}
    (h : giveOwner .none host settings q mode s = (r, s')) :
    s'.calls.count .write = s.calls.count .write ∧
      ((r = .ok () ∧ ((settings.owner.isGiven || settings.group.isGiven) = true →
          host.changeOwner settings.owner settings.group = .ok ())) ∨
        ∃ e, r = .error e ∧ s'.tree = s.tree ∧
          (settings.owner.isGiven || settings.group.isGiven) = true ∧
          host.changeOwner settings.owner settings.group = .error e) := by
  unfold giveOwner at h
  split at h
  · rename_i hgiven
    rw [call_none_bind] at h
    cases howner : host.changeOwner settings.owner settings.group with
    | ok u =>
      rw [howner] at h
      obtain ⟨rfl, rfl⟩ := Action.modify_cases h
      exact ⟨by simp, .inl ⟨rfl, fun _ => rfl⟩⟩
    | error e =>
      rw [howner] at h
      obtain ⟨rfl, rfl⟩ := Action.fail_cases h
      exact ⟨by simp, .inr ⟨e, rfl, rfl, hgiven, rfl⟩⟩
  · rename_i hgiven
    obtain ⟨rfl, rfl⟩ := Action.pure_cases h
    exact ⟨rfl, .inl ⟨rfl, fun h => absurd h hgiven⟩⟩

/-- A temporary file is written once, and what fails then is a refusal unless a value stands
against it. -/
theorem fillTemporary_none {x : Text} {q : Place} (hq : q ≠ [])
    (h : fillTemporary .none host settings x q s = (r, s')) :
    s'.calls.count .write = s.calls.count .write + 1 ∧
      ((¬ Unfillable host settings x ∧ (r = .ok () ∨ ∃ e, r = .error e ∧ e.IsRefusal)) ∨
        Unfillable host settings x ∧ (∃ e, r = .error e ∧ IsObjection host settings e) ∧
          ((fileAt? s.tree q).isSome → (fileAt? s'.tree q).isSome)) := by
  unfold fillTemporary at h
  rw [call_none_bind] at h
  cases henc : encoded x with
  | error f =>
    rw [henc] at h
    obtain ⟨rfl, rfl⟩ := Action.fail_cases h
    exact ⟨by simp, .inr ⟨.text henc, ⟨_, rfl, .inl ⟨f, rfl⟩⟩, id⟩⟩
  | ok bytes =>
    rw [henc, Action.ofFault_bind, Action.modify_bind, call_none_bind] at h
    have hfile : (s.tree.set q (.file bytes 0o600)).lookup q = some (.file bytes 0o600) := by
      rw [FileTree.lookup_set _ _ _ hq, if_pos rfl]
    cases hmode : modeBits settings.fileMode with
    | error f =>
      rw [hmode] at h
      obtain ⟨rfl, rfl⟩ := Action.fail_cases h
      refine ⟨by simp, .inr ⟨.mode hmode, ⟨_, rfl, .inl ⟨f, rfl⟩⟩, fun _ => ?_⟩⟩
      simp [fileAt?, hfile]
    | ok mode =>
      rw [hmode, Action.ofFault_bind, Action.modify_bind] at h
      change giveOwner .none host settings q mode _ = _ at h
      obtain ⟨hcount, hends⟩ := giveOwner_none h
      refine ⟨hcount.trans (by simp), ?_⟩
      -- the text and the permission bits are no hindrance, so only the owner may be one
      rcases hends with ⟨rfl, hchanged⟩ | ⟨e, rfl, htree, hgiven, howner⟩
      · refine .inl ⟨?_, .inl rfl⟩
        rintro (hf | hf | ⟨hgiven, he, -⟩)
        · cases henc.symm.trans hf
        · cases hmode.symm.trans hf
        · cases (hchanged hgiven).symm.trans he
      · by_cases hrefused : e.IsRefusal
        · refine .inl ⟨?_, .inr ⟨e, rfl, hrefused⟩⟩
          rintro (hf | hf | ⟨-, he, hnot⟩)
          · cases henc.symm.trans hf
          · cases hmode.symm.trans hf
          · exact hnot (Except.error.inj (howner.symm.trans he) ▸ hrefused)
        · refine .inr ⟨.owner hgiven howner hrefused,
            ⟨e, rfl, isObjection_of_owner howner hrefused⟩, fun _ => ?_⟩
          have hbits := FileTree.lookup_setMode _ hfile mode q
          rw [if_pos rfl] at hbits
          simp [htree, fileAt?, hbits]

/-- A temporary file that cannot be filled is removed where that was refused, and else it stays. -/
theorem fillOrDiscard_none {path : Path} {x : Text} {q : Place} (hq : q ≠ [])
    (h : fillOrDiscard .none host settings path x q s = (r, s')) :
    s'.calls.count .write = s.calls.count .write + 1 ∧
      ((¬ Unfillable host settings x ∧
          (r = .ok () ∨ (∃ m, r = .error (.reported m)) ∧ s'.tree.lookup q = none)) ∨
        Unfillable host settings x ∧ (∃ e, r = .error e ∧ IsObjection host settings e) ∧
          ((fileAt? s.tree q).isSome → (fileAt? s'.tree q).isSome)) := by
  rcases Action.onFailure_cases h with ⟨u, hfill, rfl⟩ | ⟨e, s₁, hfill, hh⟩
  · obtain ⟨hcount, ⟨hfillable, -⟩ | ⟨-, ⟨e, he, -⟩, -⟩⟩ := fillTemporary_none hq hfill
    · exact ⟨hcount, .inl ⟨hfillable, .inl rfl⟩⟩
    · cases he
  have herased : (s₁.tree.erase q).lookup q = none := by
    rw [FileTree.lookup_erase _ _ hq, if_pos rfl]
  obtain ⟨hcount, ⟨hfillable, hok | ⟨e', he, hrefused⟩⟩ |
    ⟨hunfillable, ⟨e', he, hobjects⟩, hfile⟩⟩ := fillTemporary_none hq hfill
  · cases hok
  · obtain rfl := Except.error.inj he
    have hgone : (∃ m, r = .error (.reported m)) ∧ s'.tree.lookup q = none ∧
        s'.calls = s₁.calls := by
      cases e with
      | system message =>
        simp only [discard] at hh
        rw [Action.modify_bind] at hh
        obtain ⟨rfl, rfl⟩ := Action.fail_cases hh
        exact ⟨⟨_, rfl⟩, herased, rfl⟩
      | lookup message =>
        simp only [discard] at hh
        rw [Action.modify_bind] at hh
        obtain ⟨rfl, rfl⟩ := Action.fail_cases hh
        exact ⟨⟨_, rfl⟩, herased, rfl⟩
      | reported message => exact hrefused.elim
      | fault f => exact hrefused.elim
    obtain ⟨hreported, hnone, hcalls⟩ := hgone
    exact ⟨hcalls ▸ hcount, .inl ⟨hfillable, .inr ⟨hreported, hnone⟩⟩⟩
  · obtain rfl := Except.error.inj he
    have hkept : r = .error e ∧ s' = s₁ := by
      cases e with
      | system message => exact absurd trivial hobjects.not_isRefusal
      | lookup message => exact absurd trivial hobjects.not_isRefusal
      | reported message => exact Action.fail_cases hh
      | fault f => exact Action.fail_cases hh
    obtain ⟨rfl, rfl⟩ := hkept
    exact ⟨hcount, .inr ⟨hunfillable, ⟨e, rfl, hobjects⟩, hfile⟩⟩

/-! ## Staging -/

/-- The name of a temporary file. -/
def IsTemporary (name : Text) : Prop :=
  ∃ target : Target, ("." ++ target.fileName ++ "." : Text) <+: name

theorem isTemporary_of_createTemporary {plan : FaultPlan} {a : Target} {q : Place}
    (h : createTemporary plan dir a s = (.ok q, s')) :
    ∃ d name, q = d ++ [name] ∧ IsTemporary name := by
  obtain ⟨_, s₁, -, h⟩ := Action.bind_ok h
  rw [Action.get_bind] at h
  obtain ⟨place, s₂, hquery, h⟩ := Action.bind_ok h
  rw [Action.modify_bind] at h
  obtain rfl := Except.ok.inj (Action.pure_cases h).1
  obtain ⟨-, ⟨place, hplace, hresolve⟩ | ⟨e, he, -⟩⟩ := Action.query_cases hquery
  swap
  · cases he
  obtain rfl := Except.ok.inj hplace
  obtain ⟨rest, hrest⟩ := s₁.tree.freshName_eq_append ("." ++ a.fileName ++ ".")
  obtain ⟨name, hname, hdots⟩ := exists_temporaryName s₁.tree a
  obtain ⟨d, -, -, rfl⟩ := FileTree.walk_child (hname ▸ hdots) (FileTree.walk_of_resolve hresolve)
  exact ⟨d, _, rfl, a, rest, hrest.symm⟩

/-- One of the first files of a list cannot be filled. -/
def Strands (host : Host) (settings : Settings) (text : Target → Text) (targets : List Target)
    (n : Nat) : Prop :=
  ∃ target ∈ targets.take n, Unfillable host settings (text target)

/-- A temporary file stands where nothing stood, and it is not one of those that are staged. -/
structure Task.Strays (w : Task) (t : FileTree) (staged : List Staged) (name : Text) : Prop where
  temporary : IsTemporary name
  free : w.base.lookup (w.place ++ [name]) = none
  stands : (fileAt? t (w.place ++ [name])).isSome
  unstaged : ∀ e ∈ staged, e.temporary ≠ [] ∧ e.temporary ≠ w.place ++ [name]

/-- It outlives the removal of those that are. -/
theorem Task.Strays.discardStaged {name : Text} (h : w.Strays s.tree s.staged name) :
    w.Strays (discardStaged s).2.tree [] name := by
  have hnot : w.place ++ [name] ∉ s.staged.map Staged.temporary := by
    intro hmem
    obtain ⟨e, he, heq⟩ := List.mem_map.1 hmem
    exact (h.unstaged e he).2 heq
  refine ⟨h.temporary, h.free, ?_, by simp⟩
  rw [discardStaged_eq, fileAt?, lookup_foldl_erase _ _ _ fun e he => (h.unstaged e he).1,
    if_neg hnot]
  exact h.stands

/-- A file that stands where a temporary file was made is none of those that are staged. -/
theorem Task.Midway.strays {staged : List Staged} {name : Text}
    (hmid : w.Midway done rest t staged) (htemporary : IsTemporary name)
    (hnone : t.lookup (w.place ++ [name]) = none)
    (hstands : (fileAt? t' (w.place ++ [name])).isSome) : w.Strays t' staged name := by
  refine ⟨htemporary, hmid.base_eq_none hnone, hstands, fun e he => ?_⟩
  obtain ⟨b, -, hb⟩ := exists_of_mem_forall₂ hmid.holds e he
  obtain ⟨bytes, -, hl⟩ := hb.filled
  have hdir : t.lookup e.temporary ≠ some .directory := by simp [hl]
  refine ⟨FileTree.ne_nil_of_lookup hdir, fun heq => ?_⟩
  rw [heq, hnone] at hl
  cases hl

/-- A temporary file is made in the directory of the task, under a name that is free. -/
theorem Task.Midway.createTemporary {plan : FaultPlan} {a : Target} {q : Place}
    (hmid : w.Midway done rest s.tree s.staged)
    (h : createTemporary plan w.dir a s = (.ok q, s')) :
    ∃ name, q = w.place ++ [name] ∧ IsTemporary name ∧ s.tree.lookup q = none ∧
      s'.tree = s.tree.set q (.file [] 0o600) ∧ s'.staged = s.staged := by
  obtain ⟨e, he, -⟩ | ⟨d, name, hd, hok, hnone, htree, hstaged⟩ := createTemporary_cases h
  · cases he
  obtain rfl := Except.ok.inj hok
  obtain ⟨d', name', hq, htemporary⟩ := isTemporary_of_createTemporary h
  obtain ⟨rfl, hname⟩ := List.append_inj' hq rfl
  obtain rfl := List.singleton_inj.1 hname
  have hbase := FileTree.walk_mono hmid.reflectsDirectories _ _ _ hd
  rw [w.stands] at hbase
  obtain rfl := Except.ok.inj hbase
  exact ⟨_, rfl, htemporary, hnone, htree, hstaged⟩

/-- Staging a file is refused before there is a temporary file; or it begins one, which is kept
exactly if it can be filled, and left where it cannot. -/
theorem stage_none (hw : ∀ mode, modeBits settings.fileMode = .ok mode →
      w.mode = stagedMode host settings mode) {a : Target}
    (hmid : w.Midway done rest s.tree s.staged)
    (h : stage .none host settings w.dir w.text a s = (r, s')) :
    (s'.calls.count .write = s.calls.count .write ∧ (∃ m, r = .error (.system m)) ∧
        s'.calls.getLast? = some .createTemporary ∧ w.Midway done rest s'.tree s'.staged) ∨
      s'.calls.count .write = s.calls.count .write + 1 ∧
        ((¬ Unfillable host settings (w.text a) ∧
            (r = .ok () ∧ w.Midway done (rest ++ [a]) s'.tree s'.staged ∨
              (∃ m, r = .error (.reported m)) ∧ w.Midway done rest s'.tree s'.staged)) ∨
          Unfillable host settings (w.text a) ∧
            (∃ e, r = .error e ∧ IsObjection host settings e) ∧
            ∃ name, w.Strays s'.tree s'.staged name) := by
  have hstage := h
  rcases Action.bind_cases h with ⟨q, s₁, hcreate, h⟩ | ⟨e, hcreate, rfl⟩
  swap
  · -- no temporary file was made
    obtain ⟨m, -, rfl⟩ := createTemporary_error refuses_none hcreate
    rcases createTemporary_cases hcreate with ⟨-, -, htree, hstaged⟩ | ⟨d, name, -, hok, -⟩
    · have hcalls := calls_createTemporary hcreate
      refine .inl ⟨by simp [hcalls], ⟨m, rfl⟩, by simp [hcalls], ?_⟩
      rw [htree, hstaged]
      exact hmid
    · cases hok
  obtain ⟨name, rfl, htemporary, hnone, htree, hstaged⟩ := hmid.createTemporary hcreate
  have hroot : w.place ++ [name] ≠ [] := by simp
  have hset := fun p => FileTree.lookup_set s.tree p (.file [] 0o600) hroot
  have hbegun : s₁.calls.count .write = s.calls.count .write := by
    rw [calls_createTemporary hcreate]
    simp
  change (fillOrDiscard .none host settings _ _ _ >>= _) _ = _ at h
  refine .inr ?_
  rcases Action.bind_cases h with ⟨u, s₂, hfill, hend⟩ | ⟨e, hfill, rfl⟩
  · obtain ⟨hcount, ⟨hfillable, -⟩ | ⟨-, ⟨e, he, -⟩, -⟩⟩ := fillOrDiscard_none hroot hfill
    swap
    · cases he
    obtain ⟨rfl, rfl⟩ := Action.modify_cases hend
    obtain ⟨mode, hm⟩ := modeBits_of_stage hstage
    refine ⟨hcount.trans (by rw [hbegun]), .inl ⟨hfillable, .inl ⟨rfl, ?_⟩⟩⟩
    rcases stage_cases hm (hw mode hm) hmid hstage with ⟨-, hmid'⟩ | ⟨e, he, -⟩
    · exact hmid'
    · cases he
  · have hchange := within_fillOrDiscard hroot .none host settings _ _ _ _ _ hfill
    obtain ⟨hcount, ⟨hfillable, hok | ⟨⟨m, hm⟩, hgone⟩⟩ | ⟨hunfillable, hfails, hfile⟩⟩ :=
      fillOrDiscard_none hroot hfill
    · cases hok
    · -- the temporary file was removed again
      refine ⟨hcount.trans (by rw [hbegun]), .inl ⟨hfillable, .inr
        ⟨⟨m, congrArg _ (Except.error.inj hm)⟩, ?_⟩⟩⟩
      rw [hchange.staged, hstaged]
      refine hmid.congr fun p => ?_
      by_cases hp : w.place ++ [name] = p
      · rw [← hp, hgone, hnone]
      · rw [hchange.other p hp, htree, hset, if_neg hp]
    · refine ⟨hcount.trans (by rw [hbegun]), .inr ⟨hunfillable, ?_, ?_⟩⟩
      · obtain ⟨e', he', hobjects⟩ := hfails
        exact ⟨e', congrArg _ (Except.error.inj he'), hobjects⟩
      · rw [hchange.staged, hstaged]
        exact ⟨name, hmid.strays htemporary hnone (hfile (by simp [fileAt?, htree, hset]))⟩

theorem strands_cons {a : Target} {n : Nat} :
    Strands host settings text (a :: targets) (n + 1) ↔
      Unfillable host settings (text a) ∨ Strands host settings text targets n := by
  simp [Strands]

/-- What staging was refused with : the making of a temporary file, or the filling of one. -/
def StagingRefused (r : Except Failure Unit) (calls : List Call) : Prop :=
  (∃ m, r = .error (.system m)) ∧ calls.getLast? = some .createTemporary ∨
    ∃ m, r = .error (.reported m)

/-- Staging files one after the other stops at the first one that cannot be filled. -/
theorem forEach_stage_none (hw : ∀ mode, modeBits settings.fileMode = .ok mode →
      w.mode = stagedMode host settings mode) :
    ∀ {targets rest : List Target} {s s' : Session} {r : Except Failure Unit},
      w.Midway done rest s.tree s.staged →
      Action.forEach (stage .none host settings w.dir w.text) targets s = (r, s') →
      ∃ n, s'.calls.count .write = s.calls.count .write + n ∧
        ((¬ Strands host settings w.text targets n ∧
            (r = .ok () ∧ n = targets.length ∧ w.Midway done (rest ++ targets) s'.tree s'.staged ∨
              StagingRefused r s'.calls ∧ ∃ rest', w.Midway done rest' s'.tree s'.staged)) ∨
          Strands host settings w.text targets n ∧
            (∃ e, r = .error e ∧ IsObjection host settings e) ∧
            ∃ name, w.Strays s'.tree s'.staged name)
  | [], rest, s, s', r, hmid, h => by
    obtain ⟨rfl, rfl⟩ := Action.pure_cases h
    exact ⟨0, rfl, .inl ⟨by simp [Strands], .inl ⟨rfl, rfl, by simpa using hmid⟩⟩⟩
  | a :: targets, rest, s, s', r, hmid, h => by
    rcases Action.bind_cases h with ⟨u, s₁, ha, h⟩ | ⟨e, ha, rfl⟩
    · rcases stage_none hw hmid ha with ⟨-, ⟨m, hm⟩, -⟩ |
        ⟨hcount, ⟨hfillable, ⟨-, hmid₁⟩ | ⟨⟨m, hm⟩, -⟩⟩ | ⟨-, ⟨e, he, -⟩, -⟩⟩
      · cases hm
      · obtain ⟨n, hn, hends⟩ := forEach_stage_none hw hmid₁ h
        refine ⟨n + 1, by omega, ?_⟩
        rw [strands_cons, or_iff_right hfillable, List.append_cons, List.length_cons,
          Nat.add_right_cancel_iff]
        exact hends
      · cases hm
      · cases he
    · rcases stage_none hw hmid ha with ⟨hcount, ⟨m, hm⟩, hlast, hmid'⟩ |
        ⟨hcount, ⟨hfillable, ⟨hok, -⟩ | ⟨⟨m, hm⟩, hmid'⟩⟩ | ⟨hunfillable, hfails, hstrays⟩⟩
      · exact ⟨0, hcount, .inl ⟨by simp [Strands], .inr
          ⟨.inl ⟨⟨m, congrArg _ (Except.error.inj hm)⟩, hlast⟩, rest, hmid'⟩⟩⟩
      · cases hok
      · exact ⟨1, hcount, .inl ⟨by simpa [Strands] using hfillable, .inr
          ⟨.inr ⟨m, congrArg _ (Except.error.inj hm)⟩, rest, hmid'⟩⟩⟩
      · obtain ⟨e', he', hobjects⟩ := hfails
        exact ⟨1, hcount, .inr ⟨strands_cons.2 (.inl hunfillable),
          ⟨e', congrArg _ (Except.error.inj he'), hobjects⟩, hstrays⟩⟩

/-! ## Moving into place -/

/-- The path leads to a place where a file can stand. -/
def Writable (t : FileTree) (p : Path) : Prop :=
  ∃ q, t.resolve p = .ok q ∧ t.lookup q ≠ some .directory

theorem writable_congr {p : Path}
    (h : ∀ q, t'.lookup q = some .directory ↔ t.lookup q = some .directory) :
    Writable t' p ↔ Writable t p := by
  have hforth : KeepsDirectories t t' := fun q => (h q).2
  have hback : KeepsDirectories t' t := fun q => (h q).1
  exact ⟨fun ⟨q, hq, hdir⟩ => ⟨q, FileTree.resolve_mono hback hq, fun hd => hdir ((h q).2 hd)⟩,
    fun ⟨q, hq, hdir⟩ => ⟨q, FileTree.resolve_mono hforth hq, fun hd => hdir ((h q).1 hd)⟩⟩

theorem writable_of_nodeAt {p : Path} {bytes : List UInt8} {mode : Nat}
    (h : t.nodeAt p = .ok (.file bytes mode)) : Writable t p := by
  obtain ⟨q, hq, hl⟩ := FileTree.nodeAt_eq_ok_iff.1 h
  exact ⟨q, hq, by simp [hl]⟩

theorem not_writable_of_rename {q : Place} {p : Path} {n : Node} {e : SystemError}
    (hn : t.lookup q = some n) (h : t.rename q p = .error e) : ¬ Writable t p := by
  rintro ⟨place, hplace, hdir⟩
  unfold FileTree.rename at h
  simp only [hplace, bind, Except.bind, hn] at h
  cases h

theorem Task.Midway.writable_iff {staged : List Staged} {p : Path}
    (h : w.Midway done rest t staged) : Writable t p ↔ Writable w.base p :=
  writable_congr fun q => ⟨h.reflectsDirectories q, h.keepsDirectories q⟩

/-- A move ends at a target where no file can stand, and only there. -/
theorem install_none {a : Target} {e : Staged} {staged : List Staged}
    (hs : s.staged = e :: staged) (hmid : w.Midway done (a :: rest) s.tree s.staged)
    (h : install .none e s = (r, s')) :
    r = .ok () ∨
      (∃ m, r = .error (.system m)) ∧ ¬ Writable w.base (w.dir.child a.fileName) := by
  unfold install at h
  rw [call_none_bind] at h
  rcases Action.bind_cases h with ⟨u, s₁, -, h⟩ | ⟨f, hmove, rfl⟩
  · rw [Action.modify_bind] at h
    exact .inl (Action.modify_cases h).1
  · rcases Action.change_cases hmove with ⟨t, hok, -, -⟩ | ⟨-, f', hf, hrename⟩
    · cases hok
    · rw [hs] at hmid
      obtain ⟨hae, -⟩ := List.forall₂_cons.1 hmid.holds
      obtain ⟨bytes, -, hfile⟩ := hae.filled
      rw [← hmid.writable_iff, ← hae.path]
      exact .inr ⟨⟨_, congrArg _ (Except.error.inj hf)⟩, not_writable_of_rename hfile hrename⟩

theorem forEach_install_none :
    ∀ {staged : List Staged} {done rest : List Target} {s s' : Session}
      {r : Except Failure Unit},
      s.staged = staged → w.Midway done rest s.tree s.staged → (done ++ rest).Nodup →
      Action.forEach (install .none) staged s = (r, s') →
      s'.calls.count .write = s.calls.count .write ∧
        ((r = .ok () ∧ w.Midway (done ++ rest) [] s'.tree s'.staged) ∨
          ∃ n a, (∃ m, r = .error (.system m)) ∧ rest[n]? = some a ∧
            ¬ Writable w.base (w.dir.child a.fileName) ∧
            w.Midway (done ++ rest.take n) (rest.drop n) s'.tree s'.staged)
  | [], done, rest, s, s', r, hs, hmid, _, h => by
    obtain ⟨rfl, rfl⟩ := Action.pure_cases h
    have hholds := hmid.holds
    rw [hs] at hholds
    obtain rfl := List.forall₂_nil_right_iff.1 hholds
    rw [List.append_nil]
    exact ⟨rfl, .inl ⟨rfl, hmid⟩⟩
  | e :: staged, done, [], s, s', r, hs, hmid, _, h => by
    have hholds := hmid.holds
    rw [hs] at hholds
    cases hholds
  | e :: staged, done, a :: rest, s, s', r, hs, hmid, hnodup, h => by
    have hnew : a ∉ done := fun hd =>
      (List.nodup_append.1 hnodup).2.2 a hd a List.mem_cons_self rfl
    rcases Action.bind_cases h with ⟨u, s₁, ha, h⟩ | ⟨f, ha, rfl⟩
    · obtain ⟨hcalls, ⟨-, hs₁, hmid₁⟩ | ⟨f, hf, -⟩⟩ := install_cases hs hmid hnew ha
      swap
      · cases hf
      rw [List.append_cons] at hnodup
      obtain ⟨hcount, hends⟩ := forEach_install_none hs₁ hmid₁ hnodup h
      refine ⟨by rw [hcount, hcalls]; simp, ?_⟩
      rcases hends with ⟨rfl, hmid'⟩ | ⟨n, c, hfails, hc, hdir, hmid'⟩
      · exact .inl ⟨rfl, by simpa using hmid'⟩
      · exact .inr ⟨n + 1, c, hfails, by simpa using hc, hdir, by simpa using hmid'⟩
    · obtain ⟨hcalls, ⟨hok, -⟩ | ⟨f', -, hmid'⟩⟩ := install_cases hs hmid hnew ha
      · cases hok
      rcases install_none hs hmid ha with hok | ⟨⟨m, hm⟩, hdir⟩
      · cases hok
      · exact ⟨by rw [hcalls]; simp, .inr ⟨0, a, ⟨m, congrArg _ (Except.error.inj hm)⟩, rfl, hdir,
          by simpa using hmid'⟩⟩

/-! ## Writing all -/

/-- What writing all was refused with : the making of the first temporary file, which has no
words, or a later step. -/
def WritingRefused (r : Except Failure Unit) (calls : List Call) : Prop :=
  r = .error (.fault .nothingStaged) ∧ calls.getLast? = some .createTemporary ∨
    ∃ m, r = .error (.reported m)

theorem WritingRefused.ne_ok {calls : List Call} (h : WritingRefused r calls) : r ≠ .ok () := by
  rintro rfl
  rcases h with ⟨hf, -⟩ | ⟨m, hm⟩
  · cases hf
  · cases hm

theorem StagingRefused.worded {calls : List Call} (h : StagingRefused r calls)
    (staged : List Staged) : WritingRefused (r.mapError (worded staged)) calls := by
  rcases h with ⟨⟨m, rfl⟩, hlast⟩ | ⟨m, rfl⟩
  · cases staged with
    | nil => exact .inl ⟨rfl, hlast⟩
    | cons first others => exact .inr ⟨_, rfl⟩
  · cases staged with
    | nil => exact .inr ⟨_, rfl⟩
    | cons first others => exact .inr ⟨_, rfl⟩

theorem IsObjection.worded {e : Failure} (h : IsObjection host settings e)
    (staged : List Staged) : worded staged e = e := by
  rcases h with ⟨f, rfl⟩ | ⟨⟨m, rfl⟩, -⟩
  · cases staged <;> rfl
  · cases staged <;> rfl

/-- Writing all files leaves a temporary file exactly if it began one that cannot be filled. Else
it moves all of them, or those before one where no file can stand. -/
theorem writeAll_none (hw : ∀ mode, modeBits settings.fileMode = .ok mode →
      w.mode = stagedMode host settings mode) (hmid : w.Midway [] [] s.tree s.staged)
    (hnodup : targets.Nodup) (hmoves : .rename ∉ s.calls)
    (h : writeAll .none host settings w.dir w.text targets s = (r, s')) :
    ∃ n, s'.calls.count .write = s.calls.count .write + n ∧
      ((¬ Strands host settings w.text targets n ∧
          (r = .ok () ∧ n = targets.length ∧ w.Midway targets [] s'.tree [] ∨
            WritingRefused r s'.calls ∧ ∃ k, w.Midway (targets.take k) [] s'.tree [] ∧
              (k = 0 ∧ .rename ∉ s'.calls ∨
                ∃ a, targets[k]? = some a ∧ ¬ Writable w.base (w.dir.child a.fileName)))) ∨
        Strands host settings w.text targets n ∧
          (∃ e, r = .error e ∧ IsObjection host settings e) ∧ .rename ∉ s'.calls ∧
          ∃ name, w.Strays s'.tree [] name) := by
  obtain ⟨x, s₁, hx, rfl, rfl⟩ := writeAll_body h
  have hcalls : (discardStaged s₁).2.calls = s₁.calls := by rw [discardStaged_eq]
  rw [hcalls]
  rcases Action.bind_cases hx with ⟨u, s₂, hstage, hinstall⟩ | ⟨e, hstage, rfl⟩
  · obtain ⟨n, hn, ⟨hfillable, ⟨-, hlength, hmid₂⟩ | ⟨hrefused, -⟩⟩ | ⟨-, ⟨e, he, -⟩, -⟩⟩ :=
      forEach_stage_none hw hmid hstage
    rotate_left
    · rcases hrefused with ⟨⟨m, hm⟩, -⟩ | ⟨m, hm⟩
      · cases hm
      · cases hm
    · cases he
    rw [Action.get_bind] at hinstall
    obtain ⟨hcount, hends⟩ := forEach_install_none rfl hmid₂ (by simpa using hnodup) hinstall
    refine ⟨n, hcount.trans hn, .inl ⟨hfillable, ?_⟩⟩
    rcases hends with ⟨rfl, hmid'⟩ | ⟨k, a, ⟨m, rfl⟩, ha, hdir, hmid'⟩
    · exact .inl ⟨rfl, hlength, Task.Midway.discardStaged hmid'⟩
    · obtain ⟨-, -, -, hstaged⟩ := forEach_install_error refuses_none rfl hinstall
      obtain ⟨first, others, hcons⟩ := List.exists_cons_of_ne_nil hstaged
      rw [hcons]
      exact .inr ⟨.inr ⟨_, rfl⟩, k, Task.Midway.discardStaged hmid', .inr ⟨a, ha, hdir⟩⟩
  · have hno : .rename ∉ s₁.calls := by
      intro hmem
      have hasks := (Action.isPreorder_asks stagingCalls).within_forEach
        (asks_stage .none host settings w.dir w.text) targets _ _ _ hstage
      rcases hasks.mem hmem with hold | hnew
      · exact hmoves hold
      · exact absurd hnew (by decide)
    obtain ⟨n, hn, ⟨hfillable, ⟨hok, -⟩ | ⟨hrefused, rest', hmid'⟩⟩ |
      ⟨hstrands, ⟨e', he', hobjects⟩, name, hstrays⟩⟩ := forEach_stage_none hw hmid hstage
    · cases hok
    · have hworded : WritingRefused (.error (worded s₁.staged e)) s₁.calls := by
        have hrefused' : StagingRefused (.error e) s₁.calls := by
          rcases hrefused with ⟨⟨m, hm⟩, hlast⟩ | ⟨m, hm⟩
          · exact .inl ⟨⟨m, congrArg _ (Except.error.inj hm)⟩, hlast⟩
          · exact .inr ⟨m, congrArg _ (Except.error.inj hm)⟩
        exact hrefused'.worded _
      exact ⟨n, hn, .inl ⟨hfillable, .inr
        ⟨hworded, 0, Task.Midway.discardStaged hmid', .inl ⟨rfl, hno⟩⟩⟩⟩
    · obtain rfl := Except.error.inj he'
      refine ⟨n, hn, .inr ⟨hstrands, ⟨e, ?_, hobjects⟩, hno, name, hstrays.discardStaged⟩⟩
      exact congrArg _ (hobjects.worded _)

/-! ## The marker -/

theorem exists_write_of_writable {p : Path} (h : Writable t p) (bytes : List UInt8) :
    ∃ t', t.write p bytes = .ok t' := by
  obtain ⟨q, hq, hdir⟩ := h
  unfold FileTree.write
  simp only [hq, bind, Except.bind]
  split
  · exact absurd ‹_› hdir
  · exact ⟨_, rfl⟩
  · exact ⟨_, rfl⟩

/-- A file is written over where one can stand. -/
theorem overwrite_none {p : Path} (h : Writable s.tree p) (bytes : List UInt8) :
    ∃ s', overwrite .none p bytes s = (.ok (), s') := by
  obtain ⟨t₁, ht₁⟩ := exists_write_of_writable h []
  have hwritable : Writable t₁ p := (writable_congr (WritesAt.of_write ht₁).directories).2 h
  obtain ⟨t₂, ht₂⟩ := exists_write_of_writable hwritable bytes
  refine ⟨{ s with calls := s.calls ++ [.openMarker] ++ [.write], tree := t₂ }, ?_⟩
  have hbody : (do
      Action.call .none .openMarker
      Action.change p fun t => t.write p []
      Action.call .none .write
      Action.change p fun t => t.write p bytes : Action Unit) s =
        (.ok (), { s with calls := s.calls ++ [.openMarker] ++ [.write], tree := t₂ }) := by
    have hempty : Action.change p (fun t => t.write p []) { s with
        calls := s.calls ++ [.openMarker] } =
          (.ok (), { s with calls := s.calls ++ [.openMarker], tree := t₁ }) := by
      simp only [Action.change, ht₁]
    rw [call_none_bind, Action.bind_of_ok hempty, call_none_bind]
    simp only [Action.change, ht₂]
  rw [overwrite, reportAs, Action.onFailure, hbody]

/-- The marker has no text : the settings' values for the server have no JSON form. -/
def Wordless (host : Host) (settings : Settings) (targets : List Target) (b : Blocks) : Prop :=
  ∀ server, settings.passthrough = .ok server →
    (markerDocument host targets b server).json.fault ≠ none

/-- The marker is written in full exactly if it has a text and a place to stand. -/
theorem writeMarker_none (h : writeMarker .none host settings dir targets b s = (r, s')) :
    r = .ok () ↔ ¬ Wordless host settings targets b ∧ Writable s.tree (dir.child markerName) := by
  have hwrites := (within_writeMarker _ _ _ _ _ _ _ _ _ h).tree
  constructor
  · intro hr
    rcases writeMarker_cases h with ⟨-, f, -, hf⟩ | ⟨server, cs, hserver, -, -, hiff⟩
    · cases hr.symm.trans hf
    · obtain ⟨-, hread, hfault⟩ := hiff.1 hr
      obtain ⟨bits, hnode⟩ := FileTree.read_eq_ok_iff.1 hread
      exact ⟨fun hwordless => hwordless server hserver hfault,
        (writable_congr hwrites.directories).1 (writable_of_nodeAt hnode)⟩
  · rintro ⟨htext, hwritable⟩
    simp only [Wordless, not_forall, not_not] at htext
    obtain ⟨server, hserver, hfault⟩ := htext
    obtain ⟨s₁, hover⟩ := overwrite_none hwritable
      (Utf8.encode (markerDocument host targets b server).json.text)
    unfold writeMarker at h
    rw [hserver, Action.ofFault_bind] at h
    change (overwrite .none _ (Utf8.encode (markerDocument host targets b server).json.text) >>=
      fun _ => acknowledge _ (markerDocument host targets b server).json.fault) _ = _ at h
    rw [Action.bind_of_ok hover, hfault, acknowledge, Action.note] at h
    exact (Action.modify_cases h).1

/-! ## What a run leaves -/

/-- Each temporary file in the directory was there before. -/
def KeepsTemporaries (dir : Path) (t t' : FileTree) : Prop :=
  ∀ d name, t'.walk [] dir.names = .ok d → IsTemporary name →
    (fileAt? t' (d ++ [name])).isSome → fileAt? t' (d ++ [name]) = fileAt? t (d ++ [name])

/-- The marker is the JSON text of what this run changed : it lists the files that differed from
their new texts, these hold them now, and the others are as they were. -/
structure Describes (host : Host) (settings : Settings) (b : Blocks) (dir : Path)
    (text : Target → Text) (server : Entries) (t t' : FileTree) : Prop where
  texts : Contents.texts b settings.serverName host.name = .ok text
  passed : settings.passthrough = .ok server
  complete : (markerDocument host (changed t dir text) b server).json.fault = none
  marker : t'.read (dir.child markerName) =
    .ok (Utf8.encode (markerDocument host (changed t dir text) b server).json.text)
  written : ∀ target ∈ changed t dir text, HoldsNew host settings b dir t' target
  kept : ∀ target ∉ changed t dir text, HoldsOld t t' dir target

/-- No temporary file is left, and a change of the files is described by the marker. -/
structure Tidy (host : Host) (settings : Settings) (b : Blocks) (dir : Path) (t t' : FileTree) :
    Prop where
  temporaries : KeepsTemporaries dir t t'
  described : (∃ target, ¬ HoldsOld t t' dir target) →
    ∃ text server, Describes host settings b dir text server t t'

/-- A change of these files cannot be carried through : the marker has no text, or in the place of
the second file or of the marker no file can stand. -/
def Hindered (host : Host) (settings : Settings) (b : Blocks) (dir : Path)
    (targets : List Target) (t' : FileTree) : Prop :=
  Wordless host settings targets b ∨
    ∃ name ∈ [Target.limits.fileName, markerName], ¬ Writable t' (dir.child name)

theorem isTemporary_ne {name : Text} (h : IsTemporary name) :
    (∀ target : Target, target.fileName ≠ name) ∧ name ≠ markerName ∧ name ≠ ".." := by
  obtain ⟨target, rest, rfl⟩ := h
  refine ⟨fun other heq => fileName_ne_hidden other _ heq, ?_, ?_⟩
  · cases target <;> exact fun heq => absurd (List.cons.inj (List.cons.inj heq).2).1 (by decide)
  · cases target <;> exact fun heq => absurd (List.cons.inj (List.cons.inj heq).2).1 (by decide)

theorem keepsTemporaries_of_extends (h : Extends dir t t') : KeepsTemporaries dir t t' :=
  fun d name _ _ _ => fileAt?_of_extendsAt (h (d ++ [name]))

/-- Where all that was done is written, the temporary files are those from before. -/
theorem Deployed.keepsTemporaries {mode : Nat} (h : Deployed t t' dir text mode targets) :
    KeepsTemporaries dir t t' := by
  intro d name hd hname _
  obtain ⟨htarget, hmarker, -⟩ := isTemporary_ne hname
  have hplace : ∀ other : Text, other ≠ ".." → other ≠ name →
      t'.resolve (dir.child other) ≠ .ok (d ++ [name]) := by
    intro other hdots hne hq
    obtain ⟨d', -, -, heq⟩ := FileTree.walk_child hdots (FileTree.walk_of_resolve hq)
    exact hne (List.singleton_inj.1 (List.append_inj' heq rfl).2).symm
  exact fileAt?_of_extendsAt (h.other _
    (fun target _ => hplace _ (fileName_ne_dots target) (htarget target))
    (hplace _ (by decide) hmarker.symm))

theorem not_keepsTemporaries_of_strays {name : Text} (hext : Extends w.dir t w.base)
    (hkeep : KeepsDirectories w.base t') (h : w.Strays t' [] name) :
    ¬ KeepsTemporaries w.dir t t' := by
  intro htemporaries
  have hsame := htemporaries _ _ (FileTree.walk_mono hkeep _ _ _ w.stands) h.temporary h.stands
  have hnone : fileAt? t (w.place ++ [name]) = none := by
    rw [← fileAt?_of_extendsAt (hext _), fileAt?, h.free]
  have hstands := h.stands
  rw [hsame, hnone] at hstands
  cases hstands

theorem writable_of_fileAt? {p : Path} {q : Place} {x : List UInt8 × Nat}
    (hq : t.resolve p = .ok q) (hfile : fileAt? t q = some x) : Writable t p := by
  refine ⟨q, hq, fun hdir => ?_⟩
  rw [fileAt?, hdir] at hfile
  cases hfile

theorem HoldsNew.writable {target : Target} (h : HoldsNew host settings b dir t target) :
    Writable t (dir.child target.fileName) := by
  obtain ⟨_, _, _, _, -, -, -, hq, hfile⟩ := h
  exact writable_of_fileAt? hq hfile

/-- The second file can stand where it was written or was found to be as it should. -/
theorem writable_of_holds {target : Target} (hkeep : KeepsDirectories t t')
    (hnew : target ∈ changed t dir text → HoldsNew host settings b dir t' target)
    (hold : target ∉ changed t dir text → HoldsOld t t' dir target) :
    Writable t' (dir.child target.fileName) := by
  by_cases hmem : target ∈ changed t dir text
  · exact (hnew hmem).writable
  · obtain ⟨-, bytes, _, hread, -⟩ := shownText?_eq_some_iff.1 (shownText?_of_notMem_changed hmem)
    obtain ⟨mode, hnode⟩ := FileTree.read_eq_ok_iff.1 hread
    obtain ⟨q, hq, hl⟩ := FileTree.nodeAt_eq_ok_iff.1 hnode
    have hsame : fileAt? t' q = some (bytes, mode) := by rw [hold hmem q (.inl hq), fileAt?, hl]
    exact writable_of_fileAt? (FileTree.resolve_mono hkeep hq) hsame

theorem Describes.not_hindered {server : Entries} (hkeep : KeepsDirectories t t')
    (h : Describes host settings b dir text server t t') :
    ¬ Hindered host settings b dir (changed t dir text) t' := by
  rintro (hwordless | ⟨name, hname, hnot⟩)
  · exact hwordless server h.passed h.complete
  · rcases List.mem_pair.1 hname with rfl | rfl
    · exact hnot (writable_of_holds hkeep (h.written _) (h.kept _))
    · obtain ⟨bits, hnode⟩ := FileTree.read_eq_ok_iff.1 h.marker
      exact hnot (writable_of_nodeAt hnode)

/-- What a run leaves : a temporary file and the files from before, or no temporary file and
either the files from before, or a change that is described, or one that was hindered. -/
def Remains (host : Host) (settings : Settings) (b : Blocks) (dir : Path) (text : Target → Text)
    (t t' : FileTree) (begun : Nat) : Prop :=
  (Strands host settings text (changed t dir text) begun ∧ ¬ KeepsTemporaries dir t t') ∨
    ¬ Strands host settings text (changed t dir text) begun ∧ KeepsTemporaries dir t t' ∧
      KeepsDirectories t t' ∧ ((∀ target, HoldsOld t t' dir target) ∨
        (∃ server, Describes host settings b dir text server t t') ∨
        Hindered host settings b dir (changed t dir text) t')

theorem remains_of_extends (h : Extends dir t t') : Remains host settings b dir text t t' 0 :=
  .inr ⟨by simp [Strands], keepsTemporaries_of_extends h, h.keepsDirectories,
    .inl fun _ => holdsOld_of_extends h⟩

theorem tidy_iff_of_remains {begun : Nat}
    (htext : Contents.texts b settings.serverName host.name = .ok text)
    (h : Remains host settings b dir text t t' begun) :
    Tidy host settings b dir t t' ↔ ¬ Strands host settings text (changed t dir text) begun ∧
      ((∃ target, ¬ HoldsOld t t' dir target) →
        ¬ Hindered host settings b dir (changed t dir text) t') := by
  rcases h with ⟨hstrands, htemporaries⟩ | ⟨hfillable, htemporaries, hkeep, hends⟩
  · exact iff_of_false (fun h => htemporaries h.temporaries) fun h => h.1 hstrands
  rw [and_iff_right hfillable]
  constructor
  · intro h hchange
    obtain ⟨text', server, hdescribes⟩ := h.described hchange
    obtain rfl := Except.ok.inj (htext.symm.trans hdescribes.texts)
    exact hdescribes.not_hindered hkeep
  · intro h
    refine ⟨htemporaries, fun hchange => ?_⟩
    rcases hends with hold | ⟨server, hdescribes⟩ | hhindered
    · obtain ⟨target, hnot⟩ := hchange
      exact absurd (hold target) hnot
    · exact ⟨text, server, hdescribes⟩
    · exact absurd hhindered (h hchange)

/-! ## The run -/

theorem strands_of_length_le {n : Nat} (h : targets.length ≤ n) :
    Strands host settings text targets n ↔ Strands host settings text targets targets.length := by
  rw [Strands, Strands, List.take_of_length_le h, List.take_length]

/-- Only the limits have a file before them. -/
theorem eq_limits_of_getElem? {n : Nat} {a : Target} (hn : n ≠ 0)
    (h : (changed t dir text)[n]? = some a) : a = .limits := by
  have hsub : (changed t dir text).Sublist Target.all := List.filter_sublist
  have hlength : (changed t dir text).length ≤ 2 := hsub.length_le
  obtain ⟨hlt, rfl⟩ := List.getElem?_eq_some_iff.1 h
  obtain rfl : n = 1 := by omega
  have hall : changed t dir text = Target.all := hsub.eq_of_length (Nat.le_antisymm hlength hlt)
  simp [hall, Target.all]

/-- Once all is moved, the marker is written or hindered. -/
theorem describes_or_hindered {s₁ s₂ : Session} {mode : Nat} {x : Except Failure Unit}
    (htext : Contents.texts b settings.serverName host.name = .ok text)
    (hm : modeBits settings.fileMode = .ok mode)
    (hdeployed : Deployed t s₂.tree dir text (stagedMode host settings mode) (changed t dir text))
    (hmarker : writeMarker .none host settings dir (changed t dir text) b s₁ = (x, s₂)) :
    (∃ server, Describes host settings b dir text server t s₂.tree) ∨
      Hindered host settings b dir (changed t dir text) s₂.tree := by
  have hwrites := (within_writeMarker _ _ _ _ _ _ _ _ _ hmarker).tree
  by_cases hwordless : Wordless host settings (changed t dir text) b
  · exact .inr (.inl hwordless)
  by_cases hwritable : Writable s₁.tree (dir.child markerName)
  swap
  · refine .inr (.inr ⟨markerName, by simp, fun h => hwritable ?_⟩)
    exact (writable_congr hwrites.directories).1 h
  have hok := (writeMarker_none hmarker).2 ⟨hwordless, hwritable⟩
  rcases writeMarker_cases hmarker with ⟨-, f, -, hf⟩ | ⟨server, cs, hserver, -, -, hiff⟩
  · cases hok.symm.trans hf
  · obtain ⟨-, hread, hfault⟩ := hiff.1 hok
    exact .inl ⟨server, htext, hserver, hfault, hread,
      fun target ht => hdeployed.holdsNew hm htext ht, fun target ht => hdeployed.holdsOld ht⟩

theorem exists_bits (host : Host) (settings : Settings) : ∃ bits, ∀ mode,
    modeBits settings.fileMode = .ok mode → bits = stagedMode host settings mode := by
  cases hm : modeBits settings.fileMode with
  | ok m => exact ⟨stagedMode host settings m, fun mode h => by rw [Except.ok.inj h]⟩
  | error f => exact ⟨0, fun mode h => by cases h⟩

/-- Where all that was pending is moved, all of it could be filled. -/
theorem Applies.filled_of_moved {r r₁ : Except Failure Outcome} {s₁ s₂ s₃ s₄ s₅ : Session}
    {x : Except Failure Unit} (h : Applies .none host settings dir b text t r s' s₁ r₁ s₂)
    (hmake : makeDirectories .none dir s₁ = (.ok (), s₃))
    (hwrite : writeAll .none host settings dir text (changed t dir text) s₃ = (.ok (), s₄))
    (hmarker : writeMarker .none host settings dir (changed t dir text) b s₄ = (x, s₅)) :
    ¬ Strands host settings text (changed t dir text) (s₅.calls.count .write) := by
  obtain ⟨bits, hbits⟩ := exists_bits host settings
  obtain ⟨w, rfl, rfl, hw, -, hmid⟩ := h.exists_task hmake bits
  obtain ⟨n, hn, ⟨hfillable, ⟨-, rfl, -⟩ | ⟨hrefused, -⟩⟩ | ⟨-, ⟨e, he, -⟩, -⟩⟩ :=
    writeAll_none (fun mode hmode => hw.trans (hbits mode hmode)) hmid
      (nodup_changed t w.dir w.text) (rename_notMem_of_makeDirectories h.reads hmake) hwrite
  rotate_left
  · exact absurd rfl hrefused.ne_ok
  · cases he
  obtain ⟨cs, hcs, -⟩ := asks_writeMarker _ _ _ hmarker
  have hlength : (changed t w.dir w.text).length ≤ s₅.calls.count .write := by
    rw [hcs, List.count_append, hn]
    omega
  exact (strands_of_length_le hlength).not.2 hfillable

/-- A run that came to write. -/
theorem Applies.remains {r r₁ : Except Failure Outcome} {s₁ s₂ : Session}
    (htext : Contents.texts b settings.serverName host.name = .ok text)
    (h : Applies .none host settings dir b text t r s' s₁ r₁ s₂) :
    Remains host settings b dir text t s'.tree (s'.calls.count .write) := by
  rw [h.tree, h.calls]
  have hnone : ∀ {x s₃}, makeDirectories .none dir s₁ = (x, s₃) → s₃.calls.count .write = 0 := by
    intro x s₃ hx
    refine List.count_eq_zero.2 fun hmem => ?_
    exact absurd (mem_calls_makeDirectories h.reads hx _ hmem) (by decide)
  rcases Action.bind_cases h.applied with ⟨_, s₃, hmake, happ⟩ | ⟨e, hmake, -⟩
  swap
  · -- the directory could not be made
    rw [hnone hmake]
    exact remains_of_extends (h.start ▸ (within_makeDirectories _ dir _ _ _ hmake).tree)
  rcases Action.bind_cases happ with ⟨_, s₄, hwrite, happ⟩ | ⟨e, hwrite, -⟩
  · -- all files were moved
    obtain ⟨x, hmarker, -⟩ := Action.bind_pure_cases happ
    obtain ⟨mode, hm, hdeployed⟩ := h.deployed_of_moved hmake hwrite hmarker
    exact .inr ⟨h.filled_of_moved hmake hwrite hmarker, hdeployed.keepsTemporaries,
      hdeployed.directories, .inr (describes_or_hindered htext hm hdeployed hmarker)⟩
  · obtain ⟨bits, hbits⟩ := exists_bits host settings
    obtain ⟨w, rfl, rfl, hw, hext, hmid⟩ := h.exists_task hmake bits
    obtain ⟨n, hn, hends⟩ :=
      writeAll_none (fun mode hmode => hw.trans (hbits mode hmode)) hmid
        (nodup_changed t w.dir w.text) (rename_notMem_of_makeDirectories h.reads hmake) hwrite
    rw [hnone hmake, Nat.zero_add] at hn
    rw [hn]
    rcases hends with ⟨hfillable, ⟨hok, -⟩ | ⟨-, k, hmid', hstop⟩⟩ |
      ⟨hstrands, -, hno, name, hstrays⟩
    · cases hok
    · -- some files were moved, or none
      have hdeployed := Deployed.of_midway hmid' hext (.refl _ _)
      refine .inr ⟨hfillable, hdeployed.keepsTemporaries, hdeployed.directories, ?_⟩
      rcases eq_or_ne k 0 with rfl | hk
      · exact .inl fun target => hdeployed.holdsOld (by simp)
      · obtain ⟨a, ha, hdir⟩ := hstop.resolve_left fun h => hk h.1
        obtain rfl := eq_limits_of_getElem? hk ha
        exact .inr (.inr (.inr ⟨_, List.mem_cons_self, fun hwritable =>
          hdir (hmid'.writable_iff.1 hwritable)⟩))
    · -- a temporary file could not be filled
      have hmade := within_makeDirectories _ w.dir _ _ _ hmake
      have hspares := spares_of_writeAll (hmade.staged.trans h.staged) hwrite hno
      exact .inl ⟨hstrands, not_keepsTemporaries_of_strays hext
        (hmid.keepsDirectories.trans hspares.keepsDirectories) hstrays⟩

/-- On which no call fails, a run leaves no temporary file exactly if it began none that cannot be
filled. A change that it makes is described by the marker exactly if it is not hindered. Settings
whose directory is no path change nothing. -/
theorem tidy_iff (host : Host) (settings : Settings) (b : Blocks) (dryRun : Bool) (t : FileTree) :
    let after := (run .none host settings b dryRun { tree := t }).2
    match settings.confDir with
    | .other _ => after.tree = t
    | .path dir => Tidy host settings b dir t after.tree ↔
      ∀ text, Contents.texts b settings.serverName host.name = .ok text →
        ¬ Strands host settings text (changed t dir text) (after.calls.count .write) ∧
          ((∃ target, ¬ HoldsOld t after.tree dir target) →
            ¬ Hindered host settings b dir (changed t dir text) after.tree) := by
  intro after
  cases hdir : settings.confDir with
  | other d =>
    rcases run_starts host settings b with ⟨dir, text, hpath, -⟩ | ⟨f, hrun⟩
    · cases hdir.symm.trans hpath
    · simp only [after, hrun .none host dryRun _ rfl]
  | path dir =>
    have hrun := (Prod.eta (run .none host settings b dryRun { tree := t })).symm
    change _ = (_, after) at hrun
    rcases run_cases hdir hrun with ⟨hafter, f, hf, -⟩ | ⟨text, htext, hrunIn⟩
    · refine iff_of_true ?_ fun text htext => by cases hf.symm.trans htext
      rw [hafter]
      exact ⟨keepsTemporaries_of_extends (.refl dir t), fun ⟨target, hnot⟩ =>
        absurd (holdsOld_of_extends (.refl dir t)) hnot⟩
    · have hremains : Remains host settings b dir text t after.tree (after.calls.count .write) := by
        rcases runIn_cases hrunIn with honly | ⟨-, s₁, r₁, s₂, happlies⟩
        · have hcount : after.calls.count .write = 0 :=
            List.count_eq_zero.2 fun hmem => absurd (honly.calls _ hmem) (by decide)
          rw [hcount, honly.tree]
          exact remains_of_extends (.refl dir t)
        · exact happlies.remains htext
      refine (tidy_iff_of_remains htext hremains).trans
        ⟨fun h text' htext' => ?_, fun h => h text htext⟩
      obtain rfl := Except.ok.inj (htext.symm.trans htext')
      exact h

/-- Settings in which nothing is given for the permission bits. -/
def bitless : Document :=
  .mapping [(.text "conf_dir", .text "/auth.d"), (.text "file_mode", .null)]

/-- Settings with a number in place of the list of protocols. -/
def unlisted : Document :=
  .mapping [(.text "conf_dir", .text "/auth.d"), (.text "ssl_protocols", .int 5)]

/-- A deployment to an empty tree. -/
def freshRun (settings : Settings) : Except Failure Outcome × Session :=
  run .none rootHost settings ⟨[], []⟩ false { tree := .empty }

/-- Such settings are accepted. With the one, the first temporary file stays; with the other,
both files are new and there is no marker. -/
theorem untidy_settings :
    (∃ settings, Settings.ofDocument bitless = .ok settings ∧
      ¬ Tidy rootHost settings ⟨[], []⟩ (.ofText "/auth.d") .empty (freshRun settings).2.tree) ∧
    ∃ settings, Settings.ofDocument unlisted = .ok settings ∧
      ¬ Tidy rootHost settings ⟨[], []⟩ (.ofText "/auth.d") .empty (freshRun settings).2.tree := by
  constructor
  · refine ⟨{ confDir := .path (.ofText "/auth.d"), fileMode := .null }, rfl, fun h => ?_⟩
    have hkept := h.temporaries ["auth.d"] ".auth.conf.00000000" (by decide +kernel)
      ⟨.auth, by decide +kernel⟩ (by decide +kernel)
    exact absurd hkept (by decide +kernel)
  · refine ⟨{ confDir := .path (.ofText "/auth.d"), protocols := .int 5 }, rfl, fun h => ?_⟩
    have hchange : ¬ HoldsOld .empty (freshRun
        { confDir := .path (.ofText "/auth.d"), protocols := .int 5 }).2.tree (.ofText "/auth.d")
          .auth := by
      intro hold
      have hsame := hold ["auth.d", "auth.conf"] (.inr (by decide +kernel))
      exact absurd hsame (by decide +kernel)
    obtain ⟨text, server, hdescribes⟩ := h.described ⟨.auth, hchange⟩
    have hfault : Settings.passthrough
        { confDir := .path (.ofText "/auth.d"), protocols := .int 5 } = .error .noMembers := rfl
    cases hfault.symm.trans hdescribes.passed

end AccessPolicy.Deployment
